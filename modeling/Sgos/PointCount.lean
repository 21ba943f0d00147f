import Mathlib.Data.Set.Card

/-!
# Counting under a change at one point

The number of points of a finite type that satisfy a property, and how it changes when the property
changes at a single point.
-/
namespace Sgos.PointCount
variable {α : Type*}

open Classical in
/-- 1 if the proposition holds, else 0. -/
noncomputable def indicator (p : Prop) : ℤ := if p then 1 else 0

lemma indicator_true {p : Prop} (h : p) : indicator p = 1 := if_pos h

lemma indicator_false {p : Prop} (h : ¬ p) : indicator p = 0 := if_neg h

lemma indicator_nonneg (p : Prop) : 0 ≤ indicator p := by
  rw [indicator]
  split_ifs <;> decide

lemma indicator_congr {p q : Prop} (h : p ↔ q) : indicator p = indicator q := by
  rw [propext h]

/-- The number of points that satisfy `P`. -/
noncomputable def count (P : α → Prop) : ℤ := {x | P x}.ncard

lemma count_nonneg (P : α → Prop) : 0 ≤ count P := Int.natCast_nonneg _

lemma count_congr {P Q : α → Prop} (h : ∀ x, P x ↔ Q x) : count P = count Q := by
  simp only [count, h]

lemma count_none {P : α → Prop} (h : ∀ x, ¬ P x) : count P = 0 := by
  have hempty : {x | P x} = ∅ := Set.eq_empty_of_forall_notMem h
  rw [count, hempty, Set.ncard_empty, Nat.cast_zero]

variable [Finite α]

lemma count_diff {P : α → Prop} (x : α) :
    count P = count (fun y => P y ∧ y ≠ x) + indicator (P x) := by
  have hset : {y | P y ∧ y ≠ x} = {y | P y} \ {x} := rfl
  by_cases hx : P x
  · rw [count, count, hset, indicator_true hx]
    have hcard := Set.ncard_sdiff_singleton_add_one (show x ∈ {y | P y} from hx) (Set.toFinite _)
    omega
  · have hself : {y | P y} \ {x} = {y | P y} := Set.sdiff_singleton_eq_self hx
    rw [count, count, hset, hself, indicator_false hx, add_zero]

/-- Two properties that agree off a point count the same but for that point. -/
theorem count_of_agree_off {P Q : α → Prop} (x : α) (h : ∀ y, y ≠ x → (P y ↔ Q y)) :
    count Q = count P - indicator (P x) + indicator (Q x) := by
  have hrest : count (fun y => Q y ∧ y ≠ x) = count (fun y => P y ∧ y ≠ x) :=
    count_congr fun y => by
      by_cases hy : y = x
      · simp [hy]
      · simp [hy, h y hy]
  rw [count_diff (P := Q) x, count_diff (P := P) x, hrest]
  omega

lemma count_pos {P : α → Prop} {x : α} (h : P x) : 0 < count P := by
  have hcard := (Set.ncard_pos (Set.toFinite {y | P y})).mpr ⟨x, h⟩
  rw [count]
  omega

/-- What misses a point does not count all of them. -/
lemma count_lt_card {P : α → Prop} {x : α} (h : ¬ P x) : count P < Nat.card α := by
  have hne : {y | P y} ≠ Set.univ := fun he => h (he ▸ Set.mem_univ x : x ∈ {y | P y})
  exact Int.ofNat_lt.mpr (Set.ncard_lt_card hne)

lemma count_eq_zero {P : α → Prop} (h : count P ≤ 0) (x : α) : ¬ P x := fun hx =>
  absurd (count_pos hx) (not_lt.mpr h)

end Sgos.PointCount
