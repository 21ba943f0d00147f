import Mathlib.GroupTheory.Perm.Basic
import Mathlib.Data.Set.Card

/-!
# Sequences of points exchanged one by one

The permutation that exchanges the first points of two sequences pairwise.
-/
namespace Sgos.PointSwaps

variable {α : Type*} {n : ℕ} {a b : ℕ → α}

/-- As many points have a property as have one that a permutation takes to it. -/
lemma encard_perm (π : Equiv.Perm α) (P : α → Prop) : {x | P (π x)}.encard = {x | P x}.encard := by
  have himage : π '' {x | P (π x)} = {x | P x} := by
    ext x
    constructor
    · rintro ⟨y, hy, rfl⟩
      exact hy
    · intro hx
      exact ⟨π.symm x, by simpa using hx, by simp⟩
  rw [← himage, π.injective.encard_image]

/-- The first `n` points of both sequences are all different. -/
structure Distinct (n : ℕ) (a b : ℕ → α) : Prop where
  left : ∀ j < n, ∀ k < n, a j = a k → j = k
  right : ∀ j < n, ∀ k < n, b j = b k → j = k
  apart : ∀ j < n, ∀ k < n, a j ≠ b k

lemma Distinct.tail (h : Distinct (n + 1) a b) :
    Distinct n (fun k => a (k + 1)) (fun k => b (k + 1)) where
  left j hj k hk he := Nat.succ_injective (h.left _ (by omega) _ (by omega) he)
  right j hj k hk he := Nat.succ_injective (h.right _ (by omega) _ (by omega) he)
  apart j hj k hk := h.apart _ (by omega) _ (by omega)

lemma Distinct.head_left (h : Distinct (n + 1) a b) {k : ℕ} (hk : k < n) :
    a (k + 1) ≠ a 0 ∧ a (k + 1) ≠ b 0 :=
  ⟨fun he => absurd (h.left _ (by omega) _ (by omega) he) (by omega),
    h.apart _ (by omega) _ (by omega)⟩

lemma Distinct.head_right (h : Distinct (n + 1) a b) {k : ℕ} (hk : k < n) :
    b (k + 1) ≠ a 0 ∧ b (k + 1) ≠ b 0 :=
  ⟨(h.apart _ (by omega) _ (by omega)).symm,
    fun he => absurd (h.right _ (by omega) _ (by omega) he) (by omega)⟩

variable [DecidableEq α]

/-- The pair of the first points is exchanged first. -/
def swaps : ℕ → (ℕ → α) → (ℕ → α) → Equiv.Perm α
  | 0, _, _ => 1
  | n + 1, a, b =>
      Equiv.swap (a 0) (b 0) * swaps n (fun k => a (k + 1)) (fun k => b (k + 1))

/-- A point of neither sequence stays where it is. -/
lemma swaps_other {x : α} (h : ∀ k < n, x ≠ a k ∧ x ≠ b k) : swaps n a b x = x := by
  induction n generalizing a b with
  | zero => rfl
  | succ n ih =>
    have htail : swaps n (fun k => a (k + 1)) (fun k => b (k + 1)) x = x :=
      ih fun k hk => h _ (by omega)
    obtain ⟨ha, hb⟩ := h 0 (by omega)
    rw [swaps, Equiv.Perm.mul_apply, htail, Equiv.swap_apply_of_ne_of_ne ha hb]

lemma swaps_left (h : Distinct n a b) {k : ℕ} (hk : k < n) : swaps n a b (a k) = b k := by
  induction n generalizing a b k with
  | zero => omega
  | succ n ih =>
    rw [swaps, Equiv.Perm.mul_apply]
    cases k with
    | zero =>
      rw [swaps_other fun j hj => ⟨(h.head_left hj).1.symm, (h.head_right hj).1.symm⟩,
        Equiv.swap_apply_left]
    | succ k =>
      have hk : k < n := by omega
      rw [ih h.tail hk]
      exact Equiv.swap_apply_of_ne_of_ne (h.head_right hk).1 (h.head_right hk).2

lemma swaps_right (h : Distinct n a b) {k : ℕ} (hk : k < n) : swaps n a b (b k) = a k := by
  induction n generalizing a b k with
  | zero => omega
  | succ n ih =>
    rw [swaps, Equiv.Perm.mul_apply]
    cases k with
    | zero =>
      rw [swaps_other fun j hj => ⟨(h.head_left hj).2.symm, (h.head_right hj).2.symm⟩,
        Equiv.swap_apply_right]
    | succ k =>
      have hk : k < n := by omega
      rw [ih h.tail hk]
      exact Equiv.swap_apply_of_ne_of_ne (h.head_left hk).1 (h.head_left hk).2

/-- A property of all points of both sequences is kept by the exchange. -/
lemma swaps_iff (h : Distinct n a b) {P : α → Prop} (ha : ∀ k < n, P (a k)) (hb : ∀ k < n, P (b k))
    (x : α) : P (swaps n a b x) ↔ P x := by
  by_cases hleft : ∃ k < n, x = a k
  · obtain ⟨k, hk, rfl⟩ := hleft
    rw [swaps_left h hk]
    exact iff_of_true (hb k hk) (ha k hk)
  by_cases hright : ∃ k < n, x = b k
  · obtain ⟨k, hk, rfl⟩ := hright
    rw [swaps_right h hk]
    exact iff_of_true (ha k hk) (hb k hk)
  · rw [swaps_other fun k hk => ⟨fun he => hleft ⟨k, hk, he⟩, fun he => hright ⟨k, hk, he⟩⟩]

end Sgos.PointSwaps
