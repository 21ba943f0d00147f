import Mathlib.Data.List.Basic

/-!
# Tilings

Blocks with a position and a length that cover an interval of natural numbers in the order of a
list, without gap or overlap; what splitting a block and joining two neighbours does to them.
-/
namespace Sgos.Tiling
variable {α : Type*}

/-- The blocks `xs` follow one another from `a` to `b`. -/
def Tiles (pos len : α → ℕ) : ℕ → List α → ℕ → Prop
  | a, [], b => a = b
  | a, x :: xs, b => pos x = a ∧ Tiles pos len (a + len x) xs b

variable {pos len len' : α → ℕ} {a b : ℕ}

theorem tiles_append (xs ys : List α) :
    Tiles pos len a (xs ++ ys) b ↔ ∃ m, Tiles pos len a xs m ∧ Tiles pos len m ys b := by
  induction xs generalizing a with
  | nil => simp [Tiles]
  | cons x xs ih => simp only [List.cons_append, Tiles, ih, and_assoc, exists_and_left]

theorem Tiles.le {xs : List α} (h : Tiles pos len a xs b) : a ≤ b := by
  induction xs generalizing a with
  | nil => exact Nat.le_of_eq h
  | cons x xs ih => exact Nat.le_trans (Nat.le_add_right _ _) (ih h.2)

/-- A tiling reads only the lengths of its own blocks. -/
theorem Tiles.congr {xs : List α} (h : Tiles pos len a xs b)
    (hlen : ∀ x ∈ xs, len' x = len x) : Tiles pos len' a xs b := by
  induction xs generalizing a with
  | nil => exact h
  | cons x xs ih =>
    refine ⟨h.1, ?_⟩
    rw [hlen x List.mem_cons_self]
    exact ih h.2 fun y hy => hlen y (List.mem_cons_of_mem x hy)

theorem Tiles.bounds {xs : List α} {x : α} (h : Tiles pos len a xs b) (hx : x ∈ xs) :
    a ≤ pos x ∧ pos x + len x ≤ b := by
  obtain ⟨pre, post, rfl⟩ := List.append_of_mem hx
  obtain ⟨m, hpre, hpos, hpost⟩ := (tiles_append pre (x :: post)).mp h
  have hle := hpre.le
  have hle' := hpost.le
  omega

theorem Tiles.apart {xs : List α} {x y : α} (h : Tiles pos len a xs b) (hx : x ∈ xs)
    (hy : y ∈ xs) (hne : y ≠ x) : pos x + len x ≤ pos y ∨ pos y + len y ≤ pos x := by
  obtain ⟨pre, post, rfl⟩ := List.append_of_mem hx
  obtain ⟨m, hpre, hpos, hpost⟩ := (tiles_append pre (x :: post)).mp h
  rcases List.mem_append.mp hy with hy | hy
  · have hbounds := hpre.bounds hy
    omega
  · have hbounds := hpost.bounds ((List.mem_cons.mp hy).resolve_left hne)
    omega

/-- A block gives its end to a new block behind it. -/
theorem Tiles.split {pre post : List α} {x y : α} (h : Tiles pos len a (pre ++ x :: post) b)
    (hlen : ∀ z ∈ pre ++ post, len' z = len z) (hpos : pos y = pos x + len' x)
    (hsum : len' x + len' y = len x) : Tiles pos len' a (pre ++ x :: y :: post) b := by
  obtain ⟨m, hpre, hx, hpost⟩ := (tiles_append pre (x :: post)).mp h
  refine (tiles_append pre _).mpr
    ⟨m, hpre.congr fun z hz => hlen z (List.mem_append_left _ hz), hx, by rw [hpos, hx], ?_⟩
  rw [Nat.add_assoc, hsum]
  exact hpost.congr fun z hz => hlen z (List.mem_append_right _ hz)

/-- A block takes over the one behind it. -/
theorem Tiles.merge {pre post : List α} {x y : α}
    (h : Tiles pos len a (pre ++ x :: y :: post) b)
    (hlen : ∀ z ∈ pre ++ post, len' z = len z) (hsum : len' x = len x + len y) :
    Tiles pos len' a (pre ++ x :: post) b := by
  obtain ⟨m, hpre, hx, -, hpost⟩ := (tiles_append pre (x :: y :: post)).mp h
  refine (tiles_append pre _).mpr
    ⟨m, hpre.congr fun z hz => hlen z (List.mem_append_left _ hz), hx, ?_⟩
  rw [hsum, ← Nat.add_assoc]
  exact hpost.congr fun z hz => hlen z (List.mem_append_right _ hz)

end Sgos.Tiling
