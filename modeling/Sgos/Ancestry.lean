import Mathlib.Data.List.Nodup
import Mathlib.Data.List.Count
import Mathlib.Logic.Function.Basic

/-!
# Forests given by parents

The nodes of a forest know their parents only. `Ancestry` names the way up from each node, which has
no cycle. A load that sits on some nodes is carried by all nodes above them.
-/
namespace Sgos
variable {α : Type*}

/-- The way up from `x` is `above x`: `x` itself, its parent, the parent's parent and so on. -/
structure Ancestry (parent : α → Option α) (above : α → List α) : Prop where
  top : ∀ x, parent x = none → above x = [x]
  up : ∀ x p, parent x = some p → above x = x :: above p
  nodup : ∀ x, (above x).Nodup

variable {parent : α → Option α} {above : α → List α} {x y p : α}

namespace Ancestry

/-- No node is right below `x`. -/
def Leaf (parent : α → Option α) (x : α) : Prop := ∀ y, parent y ≠ some x

theorem mem_self (h : Ancestry parent above) (x : α) : x ∈ above x := by
  cases hx : parent x with
  | none =>
    rw [h.top x hx]
    exact List.mem_singleton_self x
  | some p =>
    rw [h.up x p hx]
    exact List.mem_cons_self

theorem mem_parent (h : Ancestry parent above) (hp : parent x = some p) : p ∈ above x := by
  rw [h.up x p hp]
  exact List.mem_cons_of_mem _ (h.mem_self p)

/-- The way up does not come back. -/
theorem not_mem_parent (h : Ancestry parent above) (hp : parent x = some p) : x ∉ above p := by
  have hnd := h.nodup x
  rw [h.up x p hp] at hnd
  exact (List.nodup_cons.mp hnd).1

/-- A leaf carries only its own loads. -/
theorem eq_of_mem (h : Ancestry parent above) (hx : Leaf parent x) (hy : x ∈ above y) : y = x := by
  generalize hl : above y = l at hy
  induction l generalizing y with
  | nil => cases hy
  | cons z l ih =>
    cases hp : parent y with
    | none =>
      rw [h.top y hp] at hl
      obtain ⟨rfl, rfl⟩ := List.cons.inj hl
      exact (List.mem_singleton.mp hy).symm
    | some p =>
      rw [h.up y p hp] at hl
      obtain ⟨rfl, hrest⟩ := List.cons.inj hl
      by_contra hne
      have hxl : x ∈ l := (List.mem_cons.mp hy).resolve_left fun he => hne he.symm
      exact hx y (hp.trans (congrArg some (ih hrest hxl)))

/-- A node that carries something besides itself has a node right below it. -/
theorem not_mem_of_leaf (h : Ancestry parent above) (hx : Leaf parent x) (hy : y ≠ x) :
    x ∉ above y := fun hm => hy (h.eq_of_mem hx hm)

variable [DecidableEq α]

/-- A single leaf is put below `p`. -/
theorem link (h : Ancestry parent above) (hx : Leaf parent x) (hp : p ≠ x) :
    Ancestry (Function.update parent x (some p)) (Function.update above x (x :: above p)) where
  top y hy := by
    have hyx : y ≠ x := by
      rintro rfl
      simp at hy
    rw [Function.update_of_ne hyx] at hy ⊢
    exact h.top y hy
  up y q hq := by
    by_cases hyx : y = x
    · subst hyx
      rw [Function.update_self] at hq
      obtain rfl := Option.some.inj hq
      rw [Function.update_self, Function.update_of_ne hp]
    · rw [Function.update_of_ne hyx] at hq ⊢
      have hqx : q ≠ x := fun he => hx y (he ▸ hq)
      rw [Function.update_of_ne hqx]
      exact h.up y q hq
  nodup y := by
    by_cases hyx : y = x
    · subst hyx
      rw [Function.update_self]
      exact List.nodup_cons.mpr ⟨h.not_mem_of_leaf hx hp, h.nodup p⟩
    · rw [Function.update_of_ne hyx]
      exact h.nodup y

/-- A leaf leaves its parent. -/
theorem unlink (h : Ancestry parent above) (hx : Leaf parent x) :
    Ancestry (Function.update parent x none) (Function.update above x [x]) where
  top y hy := by
    by_cases hyx : y = x
    · rw [hyx, Function.update_self]
    · rw [Function.update_of_ne hyx] at hy ⊢
      exact h.top y hy
  up y q hq := by
    have hyx : y ≠ x := by
      rintro rfl
      simp at hq
    rw [Function.update_of_ne hyx] at hq ⊢
    have hqx : q ≠ x := fun he => hx y (he ▸ hq)
    rw [Function.update_of_ne hqx]
    exact h.up y q hq
  nodup y := by
    by_cases hyx : y = x
    · rw [hyx, Function.update_self]
      exact List.nodup_singleton x
    · rw [Function.update_of_ne hyx]
      exact h.nodup y

/-! ## Loads -/

/-- The number of loads that `x` carries. -/
def load (above : α → List α) (loads : List α) (x : α) : ℕ := loads.countP fun d => x ∈ above d

@[simp] theorem load_nil (above : α → List α) (x : α) : load above [] x = 0 := rfl

theorem load_cons (above : α → List α) (d : α) (loads : List α) (x : α) :
    load above (d :: loads) x = load above loads x + if x ∈ above d then 1 else 0 := by
  rw [load, List.countP_cons, load]
  simp only [decide_eq_true_eq]

theorem load_perm {loads loads' : List α} (h : loads.Perm loads') (x : α) :
    load above loads x = load above loads' x := h.countP_eq _

/-- Only the ways up that lead to `x` matter. -/
theorem load_congr {above' : α → List α} {loads : List α}
    (h : ∀ d ∈ loads, x ∈ above' d ↔ x ∈ above d) :
    load above' loads x = load above loads x := by
  refine List.countP_congr fun d hd => ?_
  simpa using h d hd

end Ancestry
end Sgos
