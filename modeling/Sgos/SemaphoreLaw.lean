import Sgos.PointCount
import Sgos.QueueLists
import Sgos.Semaphore
import Mathlib.Data.Int.ModEq
import Mathlib.Tactic.Ring

/-!
# Exclusion and wake-ups

The counter of a semaphore is one less than the number of threads that have decremented it and not
yet incremented it. One thread at most owns the semaphore: it holds it, or it has been taken from
the wait queue and has not run yet.
-/
namespace Sgos.Semaphore
open GuardedRun LinkedChain PointCount Queue Scheduler Thread

/-- The thread is in the wait queue. -/
def InQueue (s : State) (t : Ptr) : Prop :=
  ∃ nod, Reaches s.sem.waitQueue.next s.sem.waitQueue.queue.back nod ∧
    s.sem.waitQueue.value nod = t

/-- The thread holds the semaphore, or has been taken from the queue and has not run yet. -/
def Owner (s : State) (t : Ptr) : Prop :=
  s.phase t = .holding ∨ s.phase t = .waiting ∧ ¬ InQueue s t

def IsLoaded (p : Phase) : Prop := ∃ thr v, p = .loaded thr v

/-- An unlock whose increment is not stored yet. -/
def IsUnlocking (p : Phase) : Prop := (∃ thr, p = .popped thr) ∨ IsLoaded p

/-- A lock meets no increment between its load and its store; it meets no increment that is not
stored while nobody owns the semaphore; and a thread that has to wait gets a node. -/
def LockOk (s : State) (t : Ptr) (block : Option Ptr) : Prop :=
  (∀ u, ¬ IsLoaded (s.phase u)) ∧
    ((∃ u, IsUnlocking (s.phase u)) → ∃ w, Owner s w) ∧
    (s.sem.value ≠ 1 → (rtlPushFrontQueue s.sem.waitQueue block t).1 = 0)

def AdvanceOk (s : State) (t : Ptr) : Prop :=
  match s.phase t with
  | .loaded _ _ => ∀ u, u ≠ t → ¬ IsLoaded (s.phase u)
  | .stored (some w) => ¬ InQueue s w
  | _ => True

/-- No wake-up goes to a thread in the wait queue. -/
def StepOk (s : State) : Event → Prop
  | .lock t block => Runnable s t → s.phase t = .out → LockOk s t block
  | .unlock _ => True
  | .advance t => Runnable s t → AdvanceOk s t
  | .wakeup u => ¬ InQueue s u
  | .sleep _ _ => True

/-- One thread at most holds the semaphore; and when none does, and the only calls in progress are
those of threads in the queue, the queue is empty. -/
structure SemaphoreLaw (s : State) : Prop where
  exclusion : ∀ t u, s.phase t = .holding → s.phase u = .holding → t = u
  noLostWakeup : (∀ t, s.phase t ≠ .holding) →
    (∀ t, s.phase t ≠ .out → s.phase t = .waiting ∧ InQueue s t) →
    s.sem.waitQueue.queue.front = none

/-! ## The invariant over the list of waiting threads -/

/-- The thread has decremented the counter and not yet incremented it. -/
def Charged (p : Phase) : Prop := p ≠ .out ∧ ∀ thr, p ≠ .stored thr

def Owns (phase : Ptr → Phase) (waits : List Ptr) (t : Ptr) : Prop :=
  phase t = .holding ∨ phase t = .waiting ∧ t ∉ waits

structure Books (stateOf : Ptr → ThreadState) (waits : List Ptr) (value : UInt32)
    (phase : Ptr → Phase) : Prop where
  nodup : waits.Nodup
  asleep : ∀ t ∈ waits, phase t = .waiting ∧ stateOf t = .sleep
  unique : ∀ t u, Owns phase waits t → Owns phase waits u → t = u
  owned : waits ≠ [] → ∃ t, Owns phase waits t
  counted : (value.toNat : ℤ) ≡ 1 - count (fun t => Charged (phase t)) [ZMOD 4294967296]
  fresh : ∀ t thr v, phase t = .loaded thr v → v = value

instance : Finite Ptr := Finite.of_injective UInt32.toFin fun _ _ h => UInt32.toFin_inj.mp h

lemma card_ptr : Nat.card Ptr = 4294967296 := by
  have he : Ptr ≃ Fin (2 ^ 32) := ⟨UInt32.toFin, UInt32.ofFin, fun _ => rfl, fun _ => rfl⟩
  rw [Nat.card_congr he, Nat.card_eq_fintype_card, Fintype.card_fin]
  rfl

section Books
variable {st st' : Ptr → ThreadState} {waits : List Ptr} {value : UInt32} {phase : Ptr → Phase}
  {t : Ptr} {p : Phase}

lemma charged_waiting : Charged .waiting := ⟨nofun, nofun⟩
lemma charged_holding : Charged .holding := ⟨nofun, nofun⟩
lemma charged_popped (thr : Option Ptr) : Charged (.popped thr) := ⟨nofun, nofun⟩
lemma charged_loaded (thr : Option Ptr) (v : UInt32) : Charged (.loaded thr v) := ⟨nofun, nofun⟩
lemma not_charged_out : ¬ Charged .out := fun h => h.1 rfl
lemma not_charged_stored (thr : Option Ptr) : ¬ Charged (.stored thr) := fun h => h.2 thr rfl

/-- A thread that has not decremented the counter sees it at one only if nobody has. -/
lemma Books.not_charged (h : Books st waits value phase) (ht : ¬ Charged (phase t))
    (hvalue : value = 1) (u : Ptr) : ¬ Charged (phase u) := by
  have hlt := count_lt_card (P := fun t => Charged (phase t)) ht
  have hnonneg := count_nonneg fun t => Charged (phase t)
  have hcounted := h.counted
  rw [card_ptr] at hlt
  rw [hvalue] at hcounted
  refine count_eq_zero (P := fun t => Charged (phase t)) ?_ u
  have hdvd := Int.modEq_iff_dvd.mp hcounted
  change 4294967296 ∣ 1 - count (fun t => Charged (phase t)) - 1 at hdvd
  omega

lemma Books.exists_charged (h : Books st waits value phase) (hvalue : value ≠ 1) :
    ∃ u, Charged (phase u) := by
  by_contra hnone
  have hcounted := h.counted
  rw [count_none fun u hu => hnone ⟨u, hu⟩, sub_zero] at hcounted
  have hlt := value.toNat_lt
  have hone : value.toNat = 1 := by
    have hdvd := Int.modEq_iff_dvd.mp hcounted
    omega
  exact hvalue (UInt32.toNat_inj.mp hone)

/-- How the count goes on when one thread goes on. -/
lemma count_update (phase : Ptr → Phase) (t : Ptr) (p : Phase) :
    count (fun u => Charged (Function.update phase t p u)) =
      count (fun u => Charged (phase u)) - indicator (Charged (phase t)) +
        indicator (Charged p) := by
  rw [count_of_agree_off (P := fun u => Charged (phase u)) t, Function.update_self]
  intro u hu
  rw [Function.update_of_ne hu]

lemma toNat_sub_one (v : UInt32) :
    ((v - 1).toNat : ℤ) ≡ (v.toNat : ℤ) - 1 [ZMOD 4294967296] := by
  have hsub : (v - 1).toNat = (4294967295 + v.toNat) % 4294967296 := UInt32.toNat_sub v 1
  rw [Int.ModEq, hsub]
  omega

lemma toNat_add_one (v : UInt32) :
    ((v + 1).toNat : ℤ) ≡ (v.toNat : ℤ) + 1 [ZMOD 4294967296] := by
  have hadd : (v + 1).toNat = (v.toNat + 1) % 4294967296 := UInt32.toNat_add v 1
  rw [Int.ModEq, hadd]
  omega

lemma owns_update (u : Ptr) (hu : u ≠ t) :
    Owns (Function.update phase t p) waits u ↔ Owns phase waits u := by
  rw [Owns, Owns, Function.update_of_ne hu]

lemma Books.asleep_update (h : Books st waits value phase) (ht : t ∉ waits) :
    ∀ u ∈ waits, Function.update phase t p u = .waiting ∧ st u = .sleep := by
  intro u hu
  have hut : u ≠ t := fun he => ht (he ▸ hu)
  rw [Function.update_of_ne hut]
  exact h.asleep u hu

lemma Books.fresh_update {value' : UInt32} (h : Books st waits value phase) (hp : ¬ IsLoaded p)
    (hv : value' = value ∨ ∀ u, u ≠ t → ¬ IsLoaded (phase u)) :
    ∀ u thr v, Function.update phase t p u = .loaded thr v → v = value' := by
  intro u thr v hu
  have hut : u ≠ t := by
    rintro rfl
    rw [Function.update_self] at hu
    exact hp ⟨thr, v, hu⟩
  rw [Function.update_of_ne hut] at hu
  rcases hv with rfl | hv
  · exact h.fresh u thr v hu
  · exact absurd ⟨thr, v, hu⟩ (hv u hut)

/-- A thread that neither owned the semaphore nor waits goes on without owning it. -/
lemma Books.progress (h : Books st waits value phase) (howns : ¬ Owns phase waits t)
    (ht : t ∉ waits) (hp : p ≠ .holding ∧ p ≠ .waiting)
    (hcharged : Charged p ↔ Charged (phase t))
    (hfresh : ∀ thr v, p = .loaded thr v → v = value) :
    Books st waits value (Function.update phase t p) where
  nodup := h.nodup
  asleep := h.asleep_update ht
  unique u w hu hw := by
    have hnot : ¬ Owns (Function.update phase t p) waits t := by
      rw [Owns, Function.update_self]
      tauto
    have hut : u ≠ t := fun he => hnot (he ▸ hu)
    have hwt : w ≠ t := fun he => hnot (he ▸ hw)
    exact h.unique u w ((owns_update u hut).mp hu) ((owns_update w hwt).mp hw)
  owned hne := by
    obtain ⟨u, hu⟩ := h.owned hne
    have hut : u ≠ t := fun he => howns (he ▸ hu)
    exact ⟨u, (owns_update u hut).mpr hu⟩
  counted := by
    rw [count_update, indicator_congr hcharged, sub_add_cancel]
    exact h.counted
  fresh u thr v hu := by
    by_cases hut : u = t
    · rw [hut, Function.update_self] at hu
      exact hfresh thr v hu
    · rw [Function.update_of_ne hut] at hu
      exact h.fresh u thr v hu

/-- Only the states of the waiting threads matter. -/
lemma Books.congr (h : Books st waits value phase) (hst : ∀ t ∈ waits, st' t = st t) :
    Books st' waits value phase :=
  { h with asleep := fun t ht => ⟨(h.asleep t ht).1, (hst t ht).trans (h.asleep t ht).2⟩ }

/-- A lock that gets the semaphore. -/
lemma Books.lock (h : Books st waits value phase) (ht : phase t = .out) (hvalue : value = 1) :
    Books st waits (value - 1) (Function.update phase t .holding) := by
  have hnot := h.not_charged (t := t) (by rw [ht]; exact not_charged_out) hvalue
  have hnil : waits = [] := by
    rw [List.eq_nil_iff_forall_not_mem]
    exact fun u hu => hnot u (by rw [(h.asleep u hu).1]; exact charged_waiting)
  have howns : ∀ u, Owns (Function.update phase t .holding) waits u → u = t := by
    intro u hu
    by_contra hut
    rcases (owns_update u hut).mp hu with hu | ⟨hu, -⟩
    · exact hnot u (by rw [hu]; exact charged_holding)
    · exact hnot u (by rw [hu]; exact charged_waiting)
  refine ⟨h.nodup, ?_, fun u w hu hw => (howns u hu).trans (howns w hw).symm,
    fun hne => absurd hnil hne, ?_, h.fresh_update nofun (.inr fun u _ hu => ?_)⟩
  · rw [hnil]
    nofun
  · rw [count_update, count_none hnot, hvalue, ht, indicator_false not_charged_out,
      indicator_true charged_holding]
    rfl
  · obtain ⟨thr, v, hu⟩ := hu
    exact hnot u (by rw [hu]; exact charged_loaded thr v)

/-- A lock that has to wait, while somebody owns the semaphore. -/
lemma Books.enqueue (h : Books st waits value phase) (ht : phase t = .out) (hvalue : value ≠ 1)
    (hloaded : ∀ u, ¬ IsLoaded (phase u))
    (howner : (∃ u, IsUnlocking (phase u)) → ∃ w, Owns phase waits w)
    (hst : ∀ u, st' u = if u = t then .sleep else st u) :
    Books st' (waits ++ [t]) (value - 1) (Function.update phase t .waiting) := by
  have htw : t ∉ waits := fun hm => by cases (h.asleep t hm).1.symm.trans ht
  have hmem : ∀ u, u ≠ t → (u ∈ waits ++ [t] ↔ u ∈ waits) := fun u hu => by simp [hu]
  have howns : ∀ u, Owns (Function.update phase t .waiting) (waits ++ [t]) u ↔
      Owns phase waits u := by
    intro u
    by_cases hut : u = t
    · subst hut
      simp [Owns, ht]
    · rw [Owns, Owns, Function.update_of_ne hut, hmem u hut]
  have hown : ∃ u, Owns phase waits u := by
    obtain ⟨u, hout, hstored⟩ := h.exists_charged hvalue
    cases hu : phase u with
    | out => exact absurd hu hout
    | stored thr => exact absurd hu (hstored thr)
    | holding => exact ⟨u, .inl hu⟩
    | waiting =>
      by_cases hw : u ∈ waits
      · exact h.owned (List.ne_nil_of_mem hw)
      · exact ⟨u, .inr ⟨hu, hw⟩⟩
    | popped thr => exact howner ⟨u, .inl ⟨thr, hu⟩⟩
    | loaded thr v => exact howner ⟨u, .inr ⟨thr, v, hu⟩⟩
  refine ⟨?_, fun u hu => ?_, fun u w hu hw => ?_, fun _ => ?_, ?_,
    h.fresh_update nofun (.inr fun u _ => hloaded u)⟩
  · exact List.nodup_append'.mpr ⟨h.nodup, List.nodup_singleton t, by simpa using htw⟩
  · rw [hst]
    by_cases hut : u = t
    · rw [hut, Function.update_self, if_pos rfl]
      exact ⟨rfl, rfl⟩
    · rw [Function.update_of_ne hut, if_neg hut]
      exact h.asleep u ((hmem u hut).mp hu)
  · exact h.unique u w ((howns u).mp hu) ((howns w).mp hw)
  · obtain ⟨u, hu⟩ := hown
    exact ⟨u, (howns u).mpr hu⟩
  · rw [count_update, ht, indicator_false not_charged_out, indicator_true charged_waiting]
    refine (toNat_sub_one value).trans ?_
    have hcounted := h.counted.sub_right 1
    rwa [show (1 : ℤ) - (count (fun u => Charged (phase u)) - 0 + 1) =
      1 - count (fun u => Charged (phase u)) - 1 by ring]

/-- A thread taken from the queue returns from its lock. -/
lemma Books.acquired (h : Books st waits value phase) (ht : phase t = .waiting)
    (hst : st t ≠ .sleep) : Books st waits value (Function.update phase t .holding) := by
  have htw : t ∉ waits := fun hm => hst (h.asleep t hm).2
  have howns : ∀ u, Owns (Function.update phase t .holding) waits u ↔ Owns phase waits u := by
    intro u
    by_cases hut : u = t
    · subst hut
      simp [Owns, ht, htw]
    · exact owns_update u hut
  refine ⟨h.nodup, h.asleep_update htw, fun u w hu hw => ?_, fun hne => ?_, ?_,
    h.fresh_update nofun (.inl rfl)⟩
  · exact h.unique u w ((howns u).mp hu) ((howns w).mp hw)
  · obtain ⟨u, hu⟩ := h.owned hne
    exact ⟨u, (howns u).mpr hu⟩
  · rw [count_update, ht, indicator_true charged_waiting, indicator_true charged_holding,
      sub_add_cancel]
    exact h.counted

/-- The holder takes the first thread from the queue, which owns the semaphore from then on. -/
lemma Books.pop {thr : Option Ptr} {ws : List Ptr} (h : Books st waits value phase)
    (ht : phase t = .holding) (hwaits : waits = thr.toList ++ ws) (hnone : thr = none → ws = []) :
    Books st ws value (Function.update phase t (.popped thr)) := by
  have hsub : ∀ u ∈ ws, u ∈ waits := fun u hu => hwaits ▸ List.mem_append_right _ hu
  have htw : t ∉ waits := fun hm => by cases (h.asleep t hm).1.symm.trans ht
  have howns : ∀ u, Owns (Function.update phase t (.popped thr)) ws u → thr = some u := by
    intro u hu
    have hut : u ≠ t := by
      rintro rfl
      rw [Owns, Function.update_self] at hu
      rcases hu with hu | ⟨hu, -⟩ <;> cases hu
    rw [owns_update u hut] at hu
    by_contra hthr
    have huw : u ∈ waits → u ∈ ws := fun hm => by
      rw [hwaits] at hm
      rcases List.mem_append.mp hm with hm | hm
      · exact absurd (Option.mem_toList.mp hm) hthr
      · exact hm
    exact hut (h.unique u t (hu.imp_right fun hw => ⟨hw.1, fun hm => hw.2 (huw hm)⟩) (.inl ht))
  refine ⟨?_, fun u hu => h.asleep_update htw u (hsub u hu), fun u w hu hw => ?_, fun hne => ?_, ?_,
    h.fresh_update nofun (.inl rfl)⟩
  · have hnd := h.nodup
    rw [hwaits] at hnd
    exact (List.nodup_append'.mp hnd).2.1
  · exact Option.some.inj ((howns u hu).symm.trans (howns w hw))
  · cases thr with
    | none => exact absurd (hnone rfl) hne
    | some w =>
      have hw : w ∈ waits := by simp [hwaits]
      have hwt : w ≠ t := fun he => htw (he ▸ hw)
      have hws : w ∉ ws := by
        have hnd := h.nodup
        rw [hwaits] at hnd
        exact (List.nodup_cons.mp hnd).1
      exact ⟨w, (owns_update w hwt).mpr (.inr ⟨(h.asleep w hw).1, hws⟩)⟩
  · rw [count_update, ht, indicator_true charged_holding, indicator_true (charged_popped thr),
      sub_add_cancel]
    exact h.counted

/-- The increment is stored, and no other one was loaded before it. -/
lemma Books.store {thr : Option Ptr} {v : UInt32} (h : Books st waits value phase)
    (ht : phase t = .loaded thr v) (hother : ∀ u, u ≠ t → ¬ IsLoaded (phase u)) :
    Books st waits (v + 1) (Function.update phase t (.stored thr)) := by
  obtain rfl := h.fresh t thr v ht
  have htw : t ∉ waits := fun hm => by cases (h.asleep t hm).1.symm.trans ht
  have howns : ∀ u, Owns (Function.update phase t (.stored thr)) waits u ↔ Owns phase waits u := by
    intro u
    by_cases hut : u = t
    · subst hut
      simp [Owns, ht]
    · exact owns_update u hut
  refine ⟨h.nodup, h.asleep_update htw, fun u w hu hw => ?_, fun hne => ?_, ?_,
    h.fresh_update nofun (.inr hother)⟩
  · exact h.unique u w ((howns u).mp hu) ((howns w).mp hw)
  · obtain ⟨u, hu⟩ := h.owned hne
    exact ⟨u, (howns u).mpr hu⟩
  · rw [count_update, ht, indicator_true (charged_loaded thr v),
      indicator_false (not_charged_stored thr)]
    refine (toNat_add_one v).trans ?_
    have hcounted := h.counted.add_right 1
    rwa [show (1 : ℤ) - (count (fun u => Charged (phase u)) - 1 + 0) =
      1 - count (fun u => Charged (phase u)) + 1 by ring]

end Books

end Sgos.Semaphore
