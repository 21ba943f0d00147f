import Mathlib.Logic.Function.Basic

/-!
# Write-back caches

Slots hold copies of keyed cells of a backing store, each tagged with the key it stands for. The
cache and the store together have one value for each key: the copy if there is one, else the cell.
A clean copy agrees with its cell, so it can be dropped.
-/
namespace Sgos.WriteBackCache
variable {P K D : Type*}

structure Cache (P K D : Type*) where
  tag : P → Option K
  data : P → D
  dirty : P → Bool
  disk : K → D

/-- Cache and store have the given values. -/
structure Coherent (c : Cache P K D) (value : K → D) : Prop where
  unique : ∀ p q k, c.tag p = some k → c.tag q = some k → p = q
  data_eq : ∀ p k, c.tag p = some k → c.data p = value k
  clean : ∀ p k, c.tag p = some k → c.dirty p = false → c.data p = c.disk k
  uncached : ∀ k, (∀ p, c.tag p ≠ some k) → value k = c.disk k

variable {c : Cache P K D} {value : K → D} {p : P} {k : K} {d : D}

/-- Without copies the values are those of the store. -/
theorem coherent_empty (data : P → D) (dirty : P → Bool) (disk : K → D) :
    Coherent ⟨fun _ => none, data, dirty, disk⟩ disk where
  unique p q k h := nomatch h
  data_eq p k h := nomatch h
  clean p k h := nomatch h
  uncached _ _ := rfl

variable [DecidableEq P] [DecidableEq K]

/-- A store to a copy sets the value of its key. -/
theorem Coherent.store (h : Coherent c value) (hp : c.tag p = some k) :
    Coherent { c with data := Function.update c.data p d, dirty := Function.update c.dirty p true }
      (Function.update value k d) where
  unique := h.unique
  data_eq q j hq := by
    by_cases hqp : q = p
    · subst hqp
      obtain rfl := Option.some.inj (hp.symm.trans hq)
      simp
    · have hjk : j ≠ k := by
        rintro rfl
        exact hqp (h.unique q p j hq hp)
      simpa [hqp, hjk] using h.data_eq q j hq
  clean q j hq hclean := by
    have hqp : q ≠ p := by
      rintro rfl
      simp at hclean
    simp only [Function.update_of_ne hqp] at hclean ⊢
    exact h.clean q j hq hclean
  uncached j hj := by
    have hjk : j ≠ k := by
      rintro rfl
      exact hj p hp
    simpa [hjk] using h.uncached j hj

/-- A copy is written to its cell. -/
theorem Coherent.writeBack (h : Coherent c value) (hp : c.tag p = some k) :
    Coherent { c with
      dirty := Function.update c.dirty p false
      disk := Function.update c.disk k (c.data p) } value where
  unique := h.unique
  data_eq := h.data_eq
  clean q j hq hclean := by
    by_cases hjk : j = k
    · subst hjk
      simp [h.unique q p j hq hp]
    · have hqp : q ≠ p := by
        rintro rfl
        exact hjk (Option.some.inj (hq.symm.trans hp))
      simp only [Function.update_of_ne hqp] at hclean
      simpa [hjk] using h.clean q j hq hclean
  uncached j hj := by
    have hjk : j ≠ k := by
      rintro rfl
      exact hj p hp
    simpa [hjk] using h.uncached j hj

/-- A clean copy is dropped. -/
theorem Coherent.drop (h : Coherent c value) (hclean : ∀ k, c.tag p = some k → c.dirty p = false) :
    Coherent { c with tag := Function.update c.tag p none } value where
  unique q r j hq hr := by
    have hqp : q ≠ p := by rintro rfl; simp at hq
    have hrp : r ≠ p := by rintro rfl; simp at hr
    simp only [Function.update_of_ne hqp, Function.update_of_ne hrp] at hq hr
    exact h.unique q r j hq hr
  data_eq q j hq := by
    have hqp : q ≠ p := by rintro rfl; simp at hq
    exact h.data_eq q j (by simpa [hqp] using hq)
  clean q j hq := by
    have hqp : q ≠ p := by rintro rfl; simp at hq
    exact h.clean q j (by simpa [hqp] using hq)
  uncached j hj := by
    by_cases hp : c.tag p = some j
    · rw [← h.data_eq p j hp]
      exact h.clean p j hp (hclean j hp)
    · refine h.uncached j fun q hq => ?_
      by_cases hqp : q = p
      · exact hp (hqp ▸ hq)
      · exact hj q (by simpa [hqp] using hq)

/-- A copy of a cell that has none is taken into a free slot. -/
theorem Coherent.fill (h : Coherent c value) (hp : c.tag p = none) (hk : ∀ q, c.tag q ≠ some k)
    (b : Bool) :
    Coherent { c with
      tag := Function.update c.tag p (some k)
      data := Function.update c.data p (c.disk k)
      dirty := Function.update c.dirty p b } value where
  unique q r j hq hr := by
    by_cases hqp : q = p <;> by_cases hrp : r = p
    · rw [hqp, hrp]
    · subst hqp
      simp only [Function.update_self, Function.update_of_ne hrp, Option.some.injEq] at hq hr
      exact absurd (hq ▸ hr) (hk r)
    · subst hrp
      simp only [Function.update_self, Function.update_of_ne hqp, Option.some.injEq] at hq hr
      exact absurd (hr ▸ hq) (hk q)
    · simp only [Function.update_of_ne hqp, Function.update_of_ne hrp] at hq hr
      exact h.unique q r j hq hr
  data_eq q j hq := by
    by_cases hqp : q = p
    · subst hqp
      simp only [Function.update_self, Option.some.injEq] at hq
      subst hq
      simpa using (h.uncached k hk).symm
    · simp only [Function.update_of_ne hqp] at hq ⊢
      exact h.data_eq q j hq
  clean q j hq hclean := by
    by_cases hqp : q = p
    · subst hqp
      simp only [Function.update_self, Option.some.injEq] at hq
      simp [hq]
    · simp only [Function.update_of_ne hqp] at hq hclean ⊢
      exact h.clean q j hq hclean
  uncached j hj := by
    refine h.uncached j fun q hq => ?_
    have hqp : q ≠ p := by
      rintro rfl
      cases hp.symm.trans hq
    exact hj q (by simpa [hqp] using hq)

end Sgos.WriteBackCache
