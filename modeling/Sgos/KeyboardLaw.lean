import Mathlib.Data.List.Perm.Subperm
import Sgos.Keyboard

/-!
# When a key event reaches every handler

A failed send moves the last entry into the hole, where the loop does not come by any more. The
event misses a thread exactly if such an entry wanted it.
-/
namespace Sgos.Keyboard
open Ipc GuardedRun

variable {k : Key} {hs pre rest : Table} {h l : EventHandler} {tid : UInt32}

/-! ## Removal -/

/-- What is left behind a hole: the last entry, and the others in their order. -/
def fill (rest : Table) : Table := rest.getLast?.toList ++ rest.dropLast

@[simp] lemma fill_nil : fill [] = [] := rfl

@[simp] lemma fill_concat (rest : Table) (l : EventHandler) : fill (rest ++ [l]) = l :: rest := by
  simp [fill]

lemma fill_perm (rest : Table) : (fill rest).Perm rest := by
  rcases List.eq_nil_or_concat' rest with rfl | ⟨rest, l, rfl⟩
  · exact List.Perm.refl _
  · rw [fill_concat]
    exact (List.perm_append_singleton l rest).symm

lemma removeAt_append (pre rest : Table) (h : EventHandler) :
    removeAt (pre ++ h :: rest) pre.length = pre ++ fill rest := by
  rcases List.eq_nil_or_concat' rest with rfl | ⟨rest, l, rfl⟩
  · simp [removeAt]
  · have hlast : (pre ++ h :: (rest ++ [l])).getLast? = some l := by
      rw [← List.cons_append, ← List.append_assoc, List.getLast?_concat]
    have hne : pre.length ≠ (pre ++ h :: (rest ++ [l])).length - 1 := by simp
    rw [fill_concat, removeAt, hlast]
    dsimp only
    rw [if_pos hne, List.set_append_right _ _ le_rfl, Nat.sub_self, List.set_cons_zero,
      ← List.cons_append, ← List.append_assoc, List.dropLast_concat]

lemma delHandlerFrom_of_not_mem (fuel : ℕ) {i : ℕ} (hnot : ∀ h ∈ hs.drop i, h.threadId ≠ tid) :
    delHandlerFrom tid fuel i hs = hs := by
  induction fuel generalizing i with
  | zero => rfl
  | succ fuel ih =>
    rw [delHandlerFrom]
    cases hi : hs[i]? with
    | none => rfl
    | some h =>
      have hdrop := List.drop_eq_getElem?_toList_append (l := hs) (i := i)
      rw [hi] at hdrop
      have hne : h.threadId ≠ tid := hnot h (by rw [hdrop]; simp)
      dsimp only
      rw [if_neg hne]
      exact ih fun g hg => hnot g (by rw [hdrop]; simp [hg])

/-- The removal of one entry, from any entry before it on. -/
lemma delHandlerFrom_append (fuel i : ℕ) (hi : i ≤ pre.length) (hfuel : pre.length < fuel + i)
    (hnd : ((pre ++ h :: rest).map EventHandler.threadId).Nodup) :
    delHandlerFrom h.threadId fuel i (pre ++ h :: rest) = pre ++ fill rest := by
  induction fuel generalizing i with
  | zero => omega
  | succ fuel ih =>
    rw [delHandlerFrom]
    by_cases hlt : i < pre.length
    · have hget : (pre ++ h :: rest)[i]? = some pre[i] := by
        rw [List.getElem?_append_left hlt, List.getElem?_eq_getElem hlt]
      have hne : pre[i].threadId ≠ h.threadId := by
        rw [List.map_append, List.map_cons] at hnd
        exact fun he => (List.nodup_append'.mp hnd).2.2
          (List.mem_map_of_mem (List.getElem_mem hlt)) (he ▸ List.mem_cons_self)
      rw [hget]
      dsimp only
      rw [if_neg hne]
      exact ih (i + 1) hlt (by omega)
    · obtain rfl : i = pre.length := by omega
      have hget : (pre ++ h :: rest)[pre.length]? = some h := by simp
      rw [hget]
      dsimp only
      rw [if_pos rfl, removeAt_append]
      refine delHandlerFrom_of_not_mem fuel fun g hg => ?_
      rw [List.drop_append, List.drop_eq_nil_of_le (Nat.le_succ _), List.nil_append] at hg
      have hmem : g ∈ rest := (fill_perm rest).subset (List.mem_of_mem_drop hg)
      rw [List.map_append, List.map_cons] at hnd
      exact fun he => (List.nodup_cons.mp (List.nodup_append'.mp hnd).2.1).1
        (he ▸ List.mem_map_of_mem hmem)

/-- Removing a registered thread moves the last entry to its place. -/
lemma delHandler_append (hnd : ((pre ++ h :: rest).map EventHandler.threadId).Nodup) :
    delHandler (pre ++ h :: rest) h.threadId = pre ++ fill rest :=
  delHandlerFrom_append _ 0 (Nat.zero_le _) (by simp) hnd

/-- A removal leaves the entries of the other threads, in some order. -/
lemma delHandler_subperm (hnd : (hs.map EventHandler.threadId).Nodup) (tid : UInt32) :
    (delHandler hs tid).Subperm hs := by
  by_cases htid : ∃ h ∈ hs, h.threadId = tid
  · obtain ⟨h, hh, rfl⟩ := htid
    obtain ⟨pre, rest, rfl⟩ := List.append_of_mem hh
    rw [delHandler_append hnd]
    exact (List.Perm.append_left pre (fill_perm rest)).subperm.trans
      ((List.sublist_cons_self h rest).append_left pre).subperm
  · rw [delHandler, delHandlerFrom_of_not_mem]
    intro h hh he
    exact htid ⟨h, hh, he⟩

/-! ## The entries that are skipped -/

lemma failures_succ (k : Key) (h : EventHandler) (rest : Table) (i : ℕ) :
    failures k (h :: rest) (i + 1) =
      failures k rest i + if k.wants h && k.fails h then 1 else 0 := by
  simp [failures, List.countP_cons]

lemma failures_append (k : Key) {rest : Table} {i : ℕ} (hi : i ≤ rest.length)
    (l : EventHandler) : failures k (rest ++ [l]) i = failures k rest i := by
  rw [failures, failures, List.take_append_of_le_length hi]

lemma keyOk_nil (k : Key) : KeyOk k [] := by
  intro i h l hi
  cases hi

/-- A handler that gets the event, or does not want it, moves nothing. -/
lemma keyOk_cons (hstay : (k.wants h && k.fails h) = false) :
    KeyOk k (h :: rest) ↔ KeyOk k rest := by
  have hsucc : ∀ i, failures k (h :: rest) (i + 1) = failures k rest i := fun i => by
    rw [failures_succ, hstay]
    rfl
  constructor
  · intro hok i g l hi hw hf hlt hl
    refine hok (i + 1) g l hi hw hf (by rw [hsucc, List.length_cons]; omega) ?_
    rw [hsucc, List.length_cons, show rest.length + 1 - 1 - failures k rest i =
      (rest.length - 1 - failures k rest i) + 1 by omega, List.getElem?_cons_succ]
    exact hl
  · intro hok i g l hi hw hf hlt hl
    cases i with
    | zero =>
      obtain rfl := Option.some.inj hi
      rw [hw, hf] at hstay
      cases hstay
    | succ i =>
      rw [hsucc, List.length_cons] at hlt
      refine hok i g l hi hw hf (by omega) ?_
      rw [hsucc, List.length_cons, show rest.length + 1 - 1 - failures k rest i =
        (rest.length - 1 - failures k rest i) + 1 by omega, List.getElem?_cons_succ] at hl
      exact hl

/-- A failed send takes the last entry away, which must not want the event. -/
lemma keyOk_cons_append (hw : k.wants h = true) (hf : k.fails h = true) :
    KeyOk k (h :: (rest ++ [l])) ↔ k.wants l = false ∧ KeyOk k rest := by
  have hsucc : ∀ i ≤ rest.length, failures k (h :: (rest ++ [l])) (i + 1) = failures k rest i + 1 :=
    fun i hi => by
      rw [failures_succ, failures_append k hi, hw, hf]
      rfl
  have hlength : (h :: (rest ++ [l])).length = rest.length + 2 := by simp
  have hget : ∀ i f, i + f + 1 < rest.length →
      (h :: (rest ++ [l]))[rest.length + 2 - 1 - (f + 1)]? = rest[rest.length - 1 - f]? := by
    intro i f hlt
    rw [show rest.length + 2 - 1 - (f + 1) = (rest.length - 1 - f) + 1 by omega,
      List.getElem?_cons_succ, List.getElem?_append_left (by omega)]
  constructor
  · refine fun hok => ⟨?_, fun i g m hi hgw hgf hlt hm => ?_⟩
    · refine hok 0 h l rfl hw hf (by simp [failures]) ?_
      rw [hlength]
      simp [failures]
    · have hile : i < rest.length := by omega
      refine hok (i + 1) g m ?_ hgw hgf ?_ ?_
      · rw [List.getElem?_cons_succ, List.getElem?_append_left hile, hi]
      · rw [hsucc i hile.le, hlength]
        omega
      · rw [hsucc i hile.le, hlength, hget i _ hlt, hm]
  · rintro ⟨hl, hok⟩ i g m hi hgw hgf hlt hm
    cases i with
    | zero =>
      rw [hlength] at hm
      simp [failures] at hm
      exact hm ▸ hl
    | succ i =>
      rw [hlength] at hlt
      have hile : i < rest.length := by omega
      rw [hsucc i hile.le] at hlt
      rw [hsucc i hile.le, hlength, hget i _ (by omega)] at hm
      rw [List.getElem?_cons_succ, List.getElem?_append_left hile] at hi
      exact hok i g m hi hgw hgf (by omega) hm

/-! ## The loop -/

/-- The messages for the handlers of a part of the table. -/
def due (k : Key) (rest : Table) : List Message := (rest.filter k.wants).map k.message

/-- The loop from the end of `pre` on, when the send to the next handler fails. -/
lemma dispatchFrom_fails (hnd : ((pre ++ h :: rest).map EventHandler.threadId).Nodup) (fuel : ℕ)
    (hw : k.wants h = true) (hf : k.fails h = true) :
    dispatchFrom k (fuel + 1) pre.length (pre ++ h :: rest) =
      (k.message h :: (dispatchFrom k fuel (pre.length + 1) (pre ++ fill rest)).1,
        (dispatchFrom k fuel (pre.length + 1) (pre ++ fill rest)).2) := by
  have hget : (pre ++ h :: rest)[pre.length]? = some h := by simp
  rw [dispatchFrom, hget]
  dsimp only
  rw [if_pos hw, if_pos hf, delHandler_append hnd]

lemma dispatchFrom_stays (fuel : ℕ) (hstay : (k.wants h && k.fails h) = false) :
    dispatchFrom k (fuel + 1) pre.length (pre ++ h :: rest) =
      (due k [h] ++ (dispatchFrom k fuel (pre ++ [h]).length (pre ++ [h] ++ rest)).1,
        (dispatchFrom k fuel (pre ++ [h]).length (pre ++ [h] ++ rest)).2) := by
  have hget : (pre ++ h :: rest)[pre.length]? = some h := by simp
  have hnext : pre ++ [h] ++ rest = pre ++ h :: rest := by simp
  rw [dispatchFrom, hget, hnext, List.length_append, List.length_singleton]
  dsimp only
  by_cases hw : k.wants h = true
  · have hf : ¬ k.fails h = true := by simpa [hw] using hstay
    rw [if_pos hw, if_neg hf]
    simp [due, hw]
  · rw [if_neg hw]
    simp [due, hw]

lemma dispatchFrom_end (k : Key) (fuel : ℕ) {i : ℕ} (hi : hs.length ≤ i) :
    dispatchFrom k fuel i hs = ([], hs) := by
  cases fuel with
  | zero => rfl
  | succ fuel => rw [dispatchFrom, List.getElem?_eq_none hi]

lemma due_cons (k : Key) (h : EventHandler) (rest : Table) :
    due k (h :: rest) = due k [h] ++ due k rest := by
  simp only [due, ← List.map_append, ← List.filter_append, List.singleton_append]

/-- From the end of `pre` on, the loop sends no more than is due, and it sends what is due exactly
if no entry that wants the event is skipped. -/
lemma dispatchFrom_spec (fuel : ℕ) (hfuel : rest.length ≤ fuel)
    (hnd : ((pre ++ rest).map EventHandler.threadId).Nodup) :
    (dispatchFrom k fuel pre.length (pre ++ rest)).2.Subperm (pre ++ rest) ∧
      (dispatchFrom k fuel pre.length (pre ++ rest)).1.length ≤ (due k rest).length ∧
      ((dispatchFrom k fuel pre.length (pre ++ rest)).1.Perm (due k rest) ↔ KeyOk k rest) := by
  induction fuel generalizing pre rest with
  | zero =>
    obtain rfl := List.length_eq_zero_iff.mp (Nat.le_zero.mp hfuel)
    exact ⟨List.Subperm.refl _, le_rfl, fun _ => keyOk_nil k, fun _ => List.Perm.refl _⟩
  | succ fuel ih =>
    cases rest with
    | nil =>
      have hget : (pre ++ ([] : Table))[pre.length]? = none := by simp
      rw [dispatchFrom, hget]
      exact ⟨List.Subperm.refl _, le_rfl, fun _ => keyOk_nil k, fun _ => List.Perm.refl _⟩
    | cons h rest =>
      rw [List.length_cons] at hfuel
      by_cases hstay : (k.wants h && k.fails h) = false
      · have hnext : pre ++ [h] ++ rest = pre ++ h :: rest := by simp
        obtain ⟨hsub, hlen, hperm⟩ := ih (by omega) (hnext.symm ▸ hnd)
        rw [dispatchFrom_stays fuel hstay, due_cons k h rest, keyOk_cons hstay, ← hperm, List.perm_append_left_iff]
        refine ⟨hnext ▸ hsub, ?_, Iff.rfl⟩
        simp only [List.length_append] at hlen ⊢
        omega
      · obtain ⟨hw, hf⟩ : k.wants h = true ∧ k.fails h = true := by simpa using hstay
        rw [dispatchFrom_fails hnd fuel hw hf]
        rcases List.eq_nil_or_concat' rest with rfl | ⟨rest, l, rfl⟩
        · have hend : (pre ++ fill []).length ≤ pre.length + 1 := by simp
          have hdue : due k [h] = [k.message h] := by simp [due, hw]
          have hok : KeyOk k [h] := fun i g m hi _ _ hlt _ => by
            simp only [List.length_singleton] at hlt
            omega
          rw [dispatchFrom_end k fuel hend, hdue]
          exact ⟨by simpa using (List.sublist_append_left pre [h]).subperm, le_rfl,
            fun _ => hok, fun _ => List.Perm.refl _⟩
        · have hmoved : pre ++ fill (rest ++ [l]) = pre ++ [l] ++ rest := by simp
          have hsub : (pre ++ [l] ++ rest).Subperm (pre ++ h :: (rest ++ [l])) := by
            rw [← hmoved]
            exact (List.Perm.append_left pre (fill_perm _)).subperm.trans
              ((List.sublist_cons_self h _).append_left pre).subperm
          have hnd' : ((pre ++ [l] ++ rest).map EventHandler.threadId).Nodup := by
            rw [← hmoved]
            refine ((List.Perm.append_left pre (fill_perm _)).map _).nodup_iff.mpr ?_
            exact hnd.sublist (((List.sublist_cons_self h _).append_left pre).map _)
          simp only [List.length_append, List.length_singleton] at hfuel
          obtain ⟨hsub', hlen, hperm⟩ := ih (show rest.length ≤ fuel by omega) hnd'
          rw [List.length_append, List.length_singleton] at hsub' hlen hperm
          have hdue : due k (h :: (rest ++ [l])) = k.message h :: (due k rest ++ due k [l]) := by
            simp [due, hw]
          rw [hmoved, hdue, keyOk_cons_append hw hf, ← hperm, List.perm_cons]
          refine ⟨hsub'.trans hsub, ?_, ?_⟩
          · simp only [List.length_cons, List.length_append]
            omega
          · cases hl : k.wants l with
            | false => simp [due, hl]
            | true =>
              refine iff_of_false (fun hp => ?_) fun hl' => absurd hl'.1 (by decide)
              have hcount := hp.length_eq
              simp only [List.length_append] at hcount
              simp [due, hl] at hcount hlen
              omega

/-! ## Turns and runs -/

lemma Lawful.subperm {hs' : Table} (h : Lawful hs) (hsub : hs'.Subperm hs) : Lawful hs' where
  length_le := hsub.length_le.trans h.length_le
  nodup := by
    obtain ⟨part, hperm, hpart⟩ := hsub
    exact (hperm.map EventHandler.threadId).nodup_iff.mp (h.nodup.sublist (hpart.map _))

/-- A key event leaves a lawful table, and it is sent as it has to be exactly if no entry that
wants it is skipped. -/
lemma right_key_iff (h : Lawful hs) (k : Key) : Right (some hs) (.key k) ↔ KeyOk k hs := by
  obtain ⟨hsub, -, hperm⟩ := @dispatchFrom_spec k [] hs hs.length le_rfl h.nodup
  constructor
  · rintro ⟨hs', sent, hs'', hsome, hturn, -, hsent⟩
    obtain rfl := Option.some.inj hsome
    obtain ⟨rfl, rfl⟩ := Prod.mk.inj (Option.some.inj hturn)
    exact hperm.mp hsent
  · exact fun hok => ⟨hs, _, _, rfl, rfl, h.subperm hsub, hperm.mpr hok⟩

/-- A registration fails only where the table is full. -/
lemma right_addHandler_iff (h : Lawful hs) (tid cmd mode : UInt32) :
    (∃ hs', addHandler hs tid cmd mode = some hs' ∧ Lawful hs') ↔
      hs.any (·.threadId = tid) ∨ hs.length < MAX_HANDLER := by
  rw [addHandler]
  by_cases hany : hs.any (·.threadId = tid)
  · rw [if_pos hany]
    exact ⟨fun _ => .inl hany, fun _ => ⟨hs, rfl, h⟩⟩
  · rw [if_neg hany]
    by_cases hlt : hs.length < MAX_HANDLER
    · rw [if_pos hlt]
      refine ⟨fun _ => .inr hlt, fun _ => ⟨_, rfl, by simp; omega, ?_⟩⟩
      rw [List.map_append, List.map_singleton]
      refine List.nodup_append'.mpr ⟨h.nodup, List.nodup_singleton _, fun t ht htid => ?_⟩
      obtain ⟨g, hg, rfl⟩ := List.mem_map.mp ht
      exact hany (List.any_eq_true.mpr ⟨g, hg, decide_eq_true (List.mem_singleton.mp htid)⟩)
    · rw [if_neg hlt]
      exact ⟨fun hsome => by simp at hsome, fun hor => absurd hor (not_or.mpr ⟨hany, hlt⟩)⟩

lemma right_message_iff (h : Lawful hs) (msg : Message) :
    Right (some hs) (.message msg) ↔ StepOk (some hs) (.message msg) := by
  have hright : Right (some hs) (.message msg) ↔ ∃ hs', parse hs msg = some hs' ∧ Lawful hs' := by
    constructor
    · rintro ⟨hs₁, sent, hs', hsome, hturn, hlaw, -⟩
      obtain rfl := Option.some.inj hsome
      obtain ⟨hs₂, hparse, hpair⟩ := Option.map_eq_some_iff.mp hturn
      obtain ⟨-, rfl⟩ := Prod.mk.inj hpair
      exact ⟨hs₂, hparse, hlaw⟩
    · rintro ⟨hs', hparse, hlaw⟩
      exact ⟨hs, [], hs', rfl, by rw [turn, hparse]; rfl, hlaw, rfl⟩
  rw [hright, parse]
  by_cases hcommand : msg.command = Keyboard_SetHandler
  · rw [if_pos hcommand]
    by_cases hadd : argument msg 0 = 1
    · rw [if_pos hadd, right_addHandler_iff h]
      constructor
      · rintro hok - - hs' hs'mem
        obtain rfl := Option.mem_some_iff.mp hs'mem
        exact hok
      · exact fun hok => hok hcommand hadd hs rfl
    · rw [if_neg hadd]
      exact ⟨fun _ _ hone => absurd hone hadd,
        fun _ => ⟨_, rfl, h.subperm (delHandler_subperm h.nodup _)⟩⟩
  · rw [if_neg hcommand]
    exact ⟨fun _ hset => absurd hset hcommand, fun _ => ⟨hs, rfl, h⟩⟩

lemma right_iff (h : Lawful hs) (e : Event) : Right (some hs) e ↔ StepOk (some hs) e := by
  cases e with
  | message msg => exact right_message_iff h msg
  | key k =>
    rw [right_key_iff h]
    constructor
    · intro hok hs' hs'mem
      obtain rfl := Option.mem_some_iff.mp hs'mem
      exact hok
    · exact fun hok => hok hs rfl

lemma Right.lawful {s : Option Table} {e : Event} (h : Right s e) :
    ∃ hs, step s e = some hs ∧ Lawful hs := by
  obtain ⟨hs, sent, hs', rfl, hturn, hlaw, -⟩ := h
  refine ⟨hs', ?_, hlaw⟩
  rw [step, Option.bind_some, hturn]
  rfl

/-- In every run from the empty table: the table has at most sixteen entries, none for the same
thread, and each key event is sent once to every thread whose mode matches, exactly if no new
thread is registered in a full table and no failed send moves an entry that wants the event. -/
theorem run_right_iff (es : List Event) :
    Guarded step Right (some []) es ↔ Guarded step StepOk (some []) es := by
  have hstart : ∃ hs, (some [] : Option Table) = some hs ∧ Lawful hs :=
    ⟨[], rfl, Nat.zero_le _, List.nodup_nil⟩
  generalize (some [] : Option Table) = s at hstart
  induction es generalizing s with
  | nil => rfl
  | cons e es ih =>
    obtain ⟨hs, rfl, hlaw⟩ := hstart
    rw [Guarded, Guarded, right_iff hlaw]
    exact and_congr_right fun hok => ih _ ((right_iff hlaw e).mpr hok).lawful

/-- A request of a thread for all key events. -/
def register (tid : UInt32) : Message :=
  sendEvent tid Keyboard_SetHandler 1 0x20 KeyboardEvent_All

/-- The letter A; the send to thread 1 fails. -/
def keyA : Key := ⟨65, 65, 0x80, fun tid => if tid = 1 then -1 else 0⟩

/-- The send to the first of two threads fails, and the second one is not told. -/
theorem not_run_right : ¬ ∀ es : List Event, Guarded step Right (some []) es := by
  intro h
  obtain ⟨-, -, hkey, -⟩ :=
    h [.message (register 1), .message (register 2), .key keyA]
  obtain ⟨hs, sent, hs', hsome, hturn, -, hsent⟩ := hkey
  obtain rfl : [⟨1, 0, 0x20⟩, ⟨2, 0, 0x20⟩] = hs := Option.some.inj hsome
  obtain ⟨rfl, -⟩ := Prod.mk.inj (Option.some.inj hturn)
  exact absurd hsent.length_eq (by decide)

end Sgos.Keyboard
