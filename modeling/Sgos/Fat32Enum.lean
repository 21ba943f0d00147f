import Sgos.Fat32Lookup

/-!
# Turn by turn through a directory

`fat32_enum_ent` with an enumerator that keeps data of its own from file to file. A cursor is what
the call has when it comes to an entry, or to the end of a cluster; one turn takes it on, or ends
the call. Here it can be asked which bytes are read, and whether the call ends at all.
-/
namespace Sgos.Fat32
open ByteStore

namespace Enum
open Scan Lookup

/-- The cluster in the buffer, the offset from which its entries are counted, the number of the next
entry, the locals, and the data of the enumerator. -/
structure Cursor (σ : Type) where
  clu : UInt32
  pos : ℕ
  i : ℕ
  st : Scan
  own : σ

/-- A turn leads on, or the enumerator stops, or the directory is at its end; or the turn leaves the
array `long_name`. -/
inductive Turn (σ : Type) where
  | next (c : Cursor σ)
  | stop (c : Cursor σ) (ret : Int32) (own : σ)
  | done (own : σ)
  | stray

section Turns
variable {σ : Type} (dev : Fat32Dev) (clock : Clock) (d : Store)
  (enumerator : σ → Report → Int32 × σ)

def Cursor.offset (c : Cursor σ) : ℕ := c.pos + entrySize * c.i

/-- The entry that is read. -/
def Cursor.entry (c : Cursor σ) : List UInt8 := field (readclu dev d c.clu) c.offset entrySize

/-- The next cluster, from its start. -/
def Cursor.onward (c : Cursor σ) : Cursor σ :=
  { c with clu := nextclu dev d c.clu, pos := 0, i := 0 }

/-- Past the entry. -/
def Cursor.past (c : Cursor σ) (st : Scan) (own : σ) : Cursor σ :=
  { c with i := c.i + 1, st := st, own := own }

def turn (c : Cursor σ) : Turn σ :=
  if c.i < maxEntries dev then
    let b := c.entry dev d
    if unused b then .next (c.past c.st c.own)
    else if FAT32_IS_LNAME (FAT32_ENTRY.ofBytes b).attrib then
      match c.st.nameEntry (FAT32_NAME_ENTRY.ofBytes b) with
      | some st => .next (c.past st c.own)
      | none => .stray
    else
      let fname := c.st.fill (FAT32_ENTRY.ofBytes b)
      let (ret, own) := enumerator c.own (report clock fname (FAT32_ENTRY.ofBytes b))
      if ret = 1 ∨ ret = 2 ∨ ret = 3 then .stop c ret own
      else .next (c.past { c.st with fname := fname, nameEntries := 0 } own)
  else if IS_FAT32CLU_INUSE (nextclu dev d c.clu) then .next (c.onward dev d)
  else .done c.own

/-- Up to `n` turns. -/
def turns : ℕ → Cursor σ → Turn σ
  | 0, c => .next c
  | n + 1, c =>
    match turn dev clock d enumerator c with
    | .next c' => turns n c'
    | t => t

/-- Where `fat32_enum_ent` begins. -/
def begin (f : File) (stack : Stack) (own : σ) : Cursor σ where
  clu := getCluByOrder dev d f.data (cluOrder dev f.pos)
  pos := (f.pos % dev.bytPerClu).toNat
  i := 0
  st := start stack
  own := own

/-- A turn leads from `c` to `c'`. -/
def Leads (c c' : Cursor σ) : Prop := turn dev clock d enumerator c = .next c'

/-- The cursors that a call gets to. -/
def Reaches : Cursor σ → Cursor σ → Prop := Relation.ReflTransGen (Leads dev clock d enumerator)

/-- The call ends. -/
def Ends (c : Cursor σ) : Prop := ∃ n, ∀ c', turns dev clock d enumerator n c ≠ .next c'

end Turns

/-! ## What a turn does -/

variable {σ : Type} {dev : Fat32Dev} {clock : Clock} {d : Store}
  {enumerator : σ → Report → Int32 × σ} {c c' : Cursor σ} {s : Scan} {ret : Int32} {own : σ}

/-- The answers that stop the call. -/
def Stops (ret : Int32) : Prop := ret = 1 ∨ ret = 2 ∨ ret = 3

instance (ret : Int32) : Decidable (Stops ret) := inferInstanceAs (Decidable (_ ∨ _))

lemma turn_unused (hi : c.i < maxEntries dev) (hb : unused (c.entry dev d) = true) :
    turn dev clock d enumerator c = .next (c.past c.st c.own) := by
  rw [turn, if_pos hi]
  exact if_pos hb

lemma turn_name (hi : c.i < maxEntries dev) (hb : unused (c.entry dev d) = false)
    (hname : FAT32_IS_LNAME (FAT32_ENTRY.ofBytes (c.entry dev d)).attrib = true) :
    turn dev clock d enumerator c =
      (c.st.nameEntry (FAT32_NAME_ENTRY.ofBytes (c.entry dev d))).elim .stray
        fun st => .next (c.past st c.own) := by
  rw [turn, if_pos hi]
  dsimp only
  rw [if_neg (by rw [hb]; exact Bool.false_ne_true), if_pos hname]
  cases c.st.nameEntry (FAT32_NAME_ENTRY.ofBytes (c.entry dev d)) <;> rfl

lemma turn_file (hi : c.i < maxEntries dev) (hb : isFile (c.entry dev d) = true) :
    turn dev clock d enumerator c =
      if Stops (enumerator c.own (reported clock c.st (c.entry dev d))).1 then
        .stop c (enumerator c.own (reported clock c.st (c.entry dev d))).1
          (enumerator c.own (reported clock c.st (c.entry dev d))).2
      else .next (c.past { c.st with
        fname := c.st.fill (FAT32_ENTRY.ofBytes (c.entry dev d)), nameEntries := 0 }
          (enumerator c.own (reported clock c.st (c.entry dev d))).2) := by
  simp only [isFile, Bool.and_eq_true, Bool.not_eq_true'] at hb
  rw [turn, if_pos hi]
  dsimp only
  rw [if_neg (by rw [hb.1]; exact Bool.false_ne_true),
    if_neg (by rw [hb.2]; exact Bool.false_ne_true)]
  rfl

lemma turn_end (hi : ¬c.i < maxEntries dev) : turn dev clock d enumerator c =
    if IS_FAT32CLU_INUSE (nextclu dev d c.clu) then .next (c.onward dev d) else .done c.own := by
  rw [turn, if_neg hi]

lemma step_file (hb : isFile (c.entry dev d) = true) (st : Scan) : step st (c.entry dev d) =
    some { st with fname := st.fill (FAT32_ENTRY.ofBytes (c.entry dev d)), nameEntries := 0 } := by
  simp only [isFile, Bool.and_eq_true, Bool.not_eq_true'] at hb
  rw [step, hb.1, hb.2]
  rfl

/-- A turn over an entry that the enumerator does not stop at is a step of the scan. -/
lemma turn_step (hi : c.i < maxEntries dev) (hstep : step c.st (c.entry dev d) = some s)
    (hquiet : isFile (c.entry dev d) = true →
      ¬Stops (enumerator c.own (reported clock c.st (c.entry dev d))).1) :
    turn dev clock d enumerator c = .next (c.past s (if isFile (c.entry dev d) then
      (enumerator c.own (reported clock c.st (c.entry dev d))).2 else c.own)) := by
  by_cases hfile : isFile (c.entry dev d) = true
  · rw [step_file hfile] at hstep
    rw [turn_file hi hfile, if_neg (hquiet hfile), if_pos hfile, Option.some.inj hstep]
  · rw [if_neg hfile]
    cases hused : unused (c.entry dev d) with
    | true =>
      rw [step, if_pos hused] at hstep
      rw [turn_unused hi hused, Option.some.inj hstep]
    | false =>
      have hname : FAT32_IS_LNAME (FAT32_ENTRY.ofBytes (c.entry dev d)).attrib = true := by
        by_contra hname
        exact hfile (by rw [isFile, hused, Bool.eq_false_iff.mpr hname]; rfl)
      rw [step, if_neg (by rw [hused]; exact Bool.false_ne_true), if_pos hname] at hstep
      rw [turn_name hi hused hname, hstep]
      rfl

/-- Where the scan has no step the turn goes astray. -/
lemma turn_stuck (hi : c.i < maxEntries dev) (hstep : step c.st (c.entry dev d) = none) :
    turn dev clock d enumerator c = .stray := by
  rw [step] at hstep
  split_ifs at hstep with hused hname
  rw [turn_name hi (Bool.eq_false_iff.mpr hused) hname, hstep]
  rfl

/-- Everything that a turn can be. -/
lemma turn_cases (c : Cursor σ) :
    (c.i < maxEntries dev ∧ step c.st (c.entry dev d) = none ∧
      turn dev clock d enumerator c = .stray) ∨
    (c.i < maxEntries dev ∧ isFile (c.entry dev d) = true ∧
      Stops (enumerator c.own (reported clock c.st (c.entry dev d))).1 ∧
      turn dev clock d enumerator c =
        .stop c (enumerator c.own (reported clock c.st (c.entry dev d))).1
          (enumerator c.own (reported clock c.st (c.entry dev d))).2) ∨
    (c.i < maxEntries dev ∧ (isFile (c.entry dev d) = true →
        ¬Stops (enumerator c.own (reported clock c.st (c.entry dev d))).1) ∧
      ∃ s, step c.st (c.entry dev d) = some s ∧ turn dev clock d enumerator c =
        .next (c.past s (if isFile (c.entry dev d) then
          (enumerator c.own (reported clock c.st (c.entry dev d))).2 else c.own))) ∨
    (¬c.i < maxEntries dev ∧ IS_FAT32CLU_INUSE (nextclu dev d c.clu) = true ∧
      turn dev clock d enumerator c = .next (c.onward dev d)) ∨
    (¬c.i < maxEntries dev ∧ IS_FAT32CLU_INUSE (nextclu dev d c.clu) = false ∧
      turn dev clock d enumerator c = .done c.own) := by
  by_cases hi : c.i < maxEntries dev
  · cases hstep : step c.st (c.entry dev d) with
    | none => exact .inl ⟨hi, rfl, turn_stuck hi hstep⟩
    | some s =>
      by_cases hstop : isFile (c.entry dev d) = true ∧
          Stops (enumerator c.own (reported clock c.st (c.entry dev d))).1
      · exact .inr (.inl ⟨hi, hstop.1, hstop.2, by
          rw [turn_file hi hstop.1, if_pos hstop.2]⟩)
      · have hquiet := fun hfile hs => hstop ⟨hfile, hs⟩
        exact .inr (.inr (.inl ⟨hi, hquiet, s, rfl, turn_step hi hstep hquiet⟩))
  · rw [turn_end hi]
    cases hinuse : IS_FAT32CLU_INUSE (nextclu dev d c.clu) with
    | true => exact .inr (.inr (.inr (.inl ⟨hi, rfl, rfl⟩)))
    | false => exact .inr (.inr (.inr (.inr ⟨hi, rfl, rfl⟩)))

/-! ## Runs -/

lemma turns_leads {n : ℕ} (h : Leads dev clock d enumerator c c') :
    turns dev clock d enumerator (n + 1) c = turns dev clock d enumerator n c' := by
  rw [Leads] at h
  rw [turns, h]

lemma turns_reaches (h : Reaches dev clock d enumerator c c') :
    ∃ k, ∀ n, turns dev clock d enumerator (k + n) c = turns dev clock d enumerator n c' := by
  induction h using Relation.ReflTransGen.head_induction_on with
  | refl => exact ⟨0, fun n => by rw [Nat.zero_add]⟩
  | head hlead _ ih =>
    obtain ⟨k, hk⟩ := ih
    refine ⟨k + 1, fun n => ?_⟩
    rw [Nat.add_right_comm, turns_leads hlead, hk]

/-- A call whose turns have a measure that falls ends. -/
lemma ends_of_measure {Inv : ℕ → Cursor σ → Prop}
    (hstep : ∀ m c c', Inv m c → Leads dev clock d enumerator c c' → ∃ m' < m, Inv m' c') {m : ℕ}
    (h : Inv m c) : Ends dev clock d enumerator c := by
  induction m using Nat.strong_induction_on generalizing c with
  | _ m ih =>
    cases hturn : turn dev clock d enumerator c with
    | next c' =>
      obtain ⟨m', hlt, hinv⟩ := hstep m c c' h hturn
      obtain ⟨n, hn⟩ := ih m' hlt hinv
      refine ⟨n + 1, fun c'' => ?_⟩
      rw [turns_leads hturn]
      exact hn c''
    | stop c' ret own =>
      refine ⟨1, fun c'' => ?_⟩
      rw [turns, hturn]
      simp
    | done own =>
      refine ⟨1, fun c'' => ?_⟩
      rw [turns, hturn]
      simp
    | stray =>
      refine ⟨1, fun c'' => ?_⟩
      rw [turns, hturn]
      simp

/-- A call that ends comes to a cursor from which no turn leads on. -/
lemma Ends.last (h : Ends dev clock d enumerator c) :
    ∃ c', Reaches dev clock d enumerator c c' ∧ ∀ c'', ¬Leads dev clock d enumerator c' c'' := by
  obtain ⟨n, hn⟩ := h
  induction n generalizing c with
  | zero => exact absurd rfl (hn c)
  | succ n ih =>
    by_cases hlead : ∃ c', Leads dev clock d enumerator c c'
    · obtain ⟨c', hlead⟩ := hlead
      obtain ⟨l, hreach, hlast⟩ := ih fun c'' => by
        rw [← turns_leads hlead]
        exact hn c''
      exact ⟨l, .head hlead hreach, hlast⟩
    · exact ⟨c, .refl, fun c' hc' => hlead ⟨c', hc'⟩⟩

/-- What a call ends with is the turn of a cursor that it comes to. -/
lemma turns_last {n : ℕ} {t : Turn σ} (h : turns dev clock d enumerator n c = t)
    (ht : ∀ c', t ≠ .next c') :
    ∃ c', Reaches dev clock d enumerator c c' ∧ turn dev clock d enumerator c' = t := by
  induction n generalizing c with
  | zero => exact absurd h.symm (ht c)
  | succ n ih =>
    by_cases hlead : ∃ c', Leads dev clock d enumerator c c'
    · obtain ⟨c', hlead⟩ := hlead
      rw [turns_leads hlead] at h
      obtain ⟨l, hreach, hl⟩ := ih h
      exact ⟨l, .head hlead hreach, hl⟩
    · refine ⟨c, .refl, ?_⟩
      rw [turns] at h
      cases hturn : turn dev clock d enumerator c with
      | next c' => exact absurd ⟨c', hturn⟩ hlead
      | _ =>
        rw [hturn] at h
        exact h

/-! ## Forward -/

/-- With `k` files to come for which it asks for the next one, the enumerator has such data. -/
structure Patient (enumerator : σ → Report → Int32 × σ) (Q : ℕ → σ → Prop) : Prop where
  quiet : ∀ k own rep, Q (k + 1) own → ¬Stops (enumerator own rep).1
  step : ∀ k own rep, Q (k + 1) own → Q k (enumerator own rep).2

variable {Q : ℕ → σ → Prop} {k m : ℕ} {bs : List (List UInt8)}

lemma entry_of_entries (hi : c.i < maxEntries dev) :
    (entries (readclu dev d c.clu) c.pos (maxEntries dev))[c.i]? = some (c.entry dev d) := by
  simp [entries, hi, Cursor.entry, Cursor.offset]

lemma drop_entries (hi : c.i < maxEntries dev) :
    (entries (readclu dev d c.clu) c.pos (maxEntries dev)).drop c.i = c.entry dev d ::
      (entries (readclu dev d c.clu) c.pos (maxEntries dev)).drop (c.i + 1) := by
  obtain ⟨hlt, hget⟩ := List.getElem?_eq_some_iff.mp (entry_of_entries (d := d) hi)
  rw [List.drop_eq_getElem_cons hlt, hget]

/-- As long as the enumerator asks for the next file, the call follows the scan. -/
lemma Patient.forward (h : Patient enumerator Q) (clock : Clock) {n : ℕ}
    (hn : c.i + n ≤ maxEntries dev)
    (hbs : ((entries (readclu dev d c.clu) c.pos (maxEntries dev)).drop c.i).take n = bs)
    (hs : after c.st bs = some s) (hQ : Q (bs.countP isFile + k) c.own) :
    ∃ own, Q k own ∧
      Reaches dev clock d enumerator c { c with i := c.i + n, st := s, own := own } := by
  induction n generalizing c bs with
  | zero =>
    obtain rfl : [] = bs := by rw [← hbs, List.take_zero]
    obtain rfl : c.st = s := Option.some.inj hs
    exact ⟨c.own, by rwa [List.countP_nil, Nat.zero_add] at hQ, .refl⟩
  | succ n ih =>
    have hi : c.i < maxEntries dev := by omega
    rw [drop_entries hi, List.take_succ_cons] at hbs
    subst hbs
    rw [after_cons] at hs
    obtain ⟨t, hstep, hs⟩ := Option.bind_eq_some_iff.mp hs
    have hquiet : isFile (c.entry dev d) = true →
        ¬Stops (enumerator c.own (reported clock c.st (c.entry dev d))).1 := by
      intro hfile
      rw [List.countP_cons, if_pos hfile, Nat.add_right_comm] at hQ
      exact h.quiet _ _ _ hQ
    have hlead := turn_step hi hstep hquiet
    generalize hown : (if isFile (c.entry dev d) then
      (enumerator c.own (reported clock c.st (c.entry dev d))).2 else c.own) = own' at hlead
    obtain ⟨own, hk, hreach⟩ := @ih (c.past t own') _ (by simp only [Cursor.past]; omega) rfl hs (by
      rw [← hown]
      rw [List.countP_cons] at hQ
      split_ifs at hQ ⊢ with hfile
      · rw [Nat.add_right_comm] at hQ
        exact h.step _ _ _ hQ
      · rwa [Nat.add_zero] at hQ)
    refine ⟨own, hk, .head hlead ?_⟩
    simp only [Cursor.past, Nat.add_assoc, Nat.add_comm 1 n] at hreach
    exact hreach

/-- Through the rest of the cluster and on to the next one. -/
lemma Patient.through (h : Patient enumerator Q) (clock : Clock) (hi : c.i = 0)
    (hs : after c.st (entries (readclu dev d c.clu) c.pos (maxEntries dev)) = some s)
    (hQ : Q ((entries (readclu dev d c.clu) c.pos (maxEntries dev)).countP isFile + k) c.own)
    (hinuse : IS_FAT32CLU_INUSE (nextclu dev d c.clu) = true) :
    ∃ own, Q k own ∧ Reaches dev clock d enumerator c ⟨nextclu dev d c.clu, 0, 0, s, own⟩ := by
  have hall : ((entries (readclu dev d c.clu) c.pos (maxEntries dev)).drop c.i).take
      (maxEntries dev) = entries (readclu dev d c.clu) c.pos (maxEntries dev) := by
    rw [hi, List.drop_zero, List.take_of_length_le]
    rw [length_entries]
  obtain ⟨own, hk, hreach⟩ := h.forward clock (by rw [hi, Nat.zero_add]) hall hs hQ
  refine ⟨own, hk, hreach.tail ?_⟩
  rw [Leads, turn_end (by rw [hi, Nat.zero_add]; exact Nat.lt_irrefl _), if_pos hinuse]
  rfl

/-! ## Enumerators without data -/

/-- The enumerator keeps nothing. -/
def plain (enumerator : Report → Int32) (own : Unit) (rep : Report) : Int32 × Unit :=
  (enumerator rep, own)

/-- One round of the loop over a cluster is a turn. -/
lemma enumClu_turn {enumerator : Report → Int32} {c : Cursor Unit} (hi : c.i < maxEntries dev)
    {r : Except Scan Stop}
    (h : enumClu clock enumerator c.st c.i (c.entry dev d :: bs) = some r) :
    (∃ s, Leads dev clock d (plain enumerator) c (c.past s ()) ∧
      enumClu clock enumerator s (c.i + 1) bs = some r) ∨
    ∃ stop, r = .ok stop ∧ turn dev clock d (plain enumerator) c = .stop c stop.ret () ∧
      stop.rep = reported clock c.st (c.entry dev d) := by
  rw [enumClu] at h
  by_cases hused : unused (c.entry dev d) = true
  · rw [if_pos hused] at h
    exact .inl ⟨c.st, turn_unused hi hused, h⟩
  · rw [if_neg hused] at h
    by_cases hname : FAT32_IS_LNAME (FAT32_ENTRY.ofBytes (c.entry dev d)).attrib = true
    · rw [if_pos hname] at h
      obtain ⟨s, hs, h⟩ := Option.bind_eq_some_iff.mp h
      refine .inl ⟨s, ?_, h⟩
      rw [Leads, turn_name hi (Bool.eq_false_iff.mpr hused) hname, hs]
      rfl
    · have hfile : isFile (c.entry dev d) = true := by
        rw [isFile, Bool.eq_false_iff.mpr hused, Bool.eq_false_iff.mpr hname]
        rfl
      have hturn : turn dev clock d (plain enumerator) c = _ := turn_file hi hfile
      rw [if_neg hname] at h
      by_cases hstop : Stops (enumerator (reported clock c.st (c.entry dev d)))
      · have hr : some (Except.ok ⟨enumerator (reported clock c.st (c.entry dev d)), c.i,
            c.st.nameEntries, reported clock c.st (c.entry dev d)⟩) = some r :=
          (if_pos hstop).symm.trans h
        rw [plain, if_pos hstop] at hturn
        exact .inr ⟨_, (Option.some.inj hr).symm, hturn, rfl⟩
      · rw [plain, if_neg hstop] at hturn
        exact .inl ⟨_, hturn, (if_neg hstop).symm.trans h⟩

/-- The loop over the rest of a cluster, turn by turn. -/
lemma enumClu_turns {enumerator : Report → Int32} {c : Cursor Unit} (hi : c.i ≤ maxEntries dev)
    (hbs : (entries (readclu dev d c.clu) c.pos (maxEntries dev)).drop c.i = bs)
    {r : Except Scan Stop} (h : enumClu clock enumerator c.st c.i bs = some r) :
    (∃ s, r = .error s ∧
      Reaches dev clock d (plain enumerator) c { c with i := maxEntries dev, st := s }) ∨
    ∃ stop c', r = .ok stop ∧ Reaches dev clock d (plain enumerator) c c' ∧
      turn dev clock d (plain enumerator) c' = .stop c' stop.ret () ∧
      stop.rep = reported clock c'.st (c'.entry dev d) := by
  induction bs generalizing c with
  | nil =>
    have hlen := List.drop_eq_nil_iff.mp hbs
    rw [length_entries] at hlen
    obtain rfl := Option.some.inj h
    refine .inl ⟨c.st, rfl, ?_⟩
    rw [← Nat.le_antisymm hi hlen]
    exact .refl
  | cons b bs ih =>
    have hlt : c.i < maxEntries dev := by
      by_contra hge
      rw [List.drop_eq_nil_of_le (by rw [length_entries]; omega)] at hbs
      cases hbs
    rw [drop_entries hlt] at hbs
    obtain ⟨rfl, hrest⟩ := List.cons.inj hbs
    rcases enumClu_turn hlt h with ⟨s, hlead, h⟩ | ⟨stop, hr, hturn, hrep⟩
    · rcases @ih (c.past s ()) hlt hrest h with
        ⟨t, hr, hreach⟩ | ⟨stop, c', hr, hreach, hstop⟩
      · exact .inl ⟨t, hr, .head hlead hreach⟩
      · exact .inr ⟨stop, c', hr, .head hlead hreach, hstop⟩
    · exact .inr ⟨stop, c, hr, .refl, hturn, hrep⟩

/-- What `fat32_enum_ent` returns with an enumerator that keeps nothing is where its turns end. -/
theorem enumLoop_turns {enumerator : Report → Int32} {fNew : FileEnt} {fuel pos : ℕ} {st : Scan}
    {clu : UInt32} {rep : Option Report} {d' : Store}
    (h : enumLoop dev clock d enumerator fNew fuel st clu pos = some (ret, rep, d')) :
    ∃ c, Reaches dev clock d (plain enumerator) ⟨clu, pos, 0, st, ()⟩ c ∧
      ((turn dev clock d (plain enumerator) c = .done () ∧ ret = -1 ∧ rep = none) ∨
      (turn dev clock d (plain enumerator) c = .stop c ret () ∧
        rep = some (reported clock c.st (c.entry dev d)))) := by
  induction fuel generalizing st clu pos with
  | zero => cases h
  | succ fuel ih =>
    rw [enumLoop] at h
    dsimp only at h
    obtain ⟨r, hclu, h⟩ := Option.bind_eq_some_iff.mp h
    rcases enumClu_turns (c := ⟨clu, pos, 0, st, ()⟩) (Nat.zero_le _) rfl hclu with
      ⟨s, rfl, hreach⟩ | ⟨stop, c, rfl, hreach, hturn, hrep⟩
    · dsimp only at h
      have hend := @turn_end Unit dev clock d (plain enumerator)
        ⟨clu, pos, maxEntries dev, s, ()⟩ (Nat.lt_irrefl _)
      split_ifs at h with hinuse
      · rw [if_pos hinuse] at hend
        obtain ⟨c, hreach', hc⟩ := ih h
        exact ⟨c, hreach.trans (.head hend hreach'), hc⟩
      · rw [if_neg hinuse] at hend
        simp only [Option.some.injEq, Prod.mk.injEq] at h
        exact ⟨_, hreach, .inl ⟨hend, h.1.symm, h.2.1.symm⟩⟩
    · dsimp only at h
      obtain ⟨data, -, h⟩ := Option.bind_eq_some_iff.mp h
      refine ⟨c, hreach, .inr ?_⟩
      cases data with
      | none =>
        simp only [Option.some.injEq, Prod.mk.injEq] at h
        rw [← h.1, ← h.2.1, ← hrep]
        exact ⟨hturn, rfl⟩
      | some data =>
        simp only [Option.some.injEq, Prod.mk.injEq] at h
        rw [← h.1, ← h.2.1, ← hrep]
        exact ⟨hturn, rfl⟩

end Enum

end Sgos.Fat32
