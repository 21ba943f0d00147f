import Mathlib.Data.List.Pairwise
import Mathlib.Data.Nat.Basic
import Mathlib.Order.Basic
import Mathlib.Order.Bounds.Basic

/-!
# Lists of intervals in order

Half-open intervals `[beg x, fin x)` of natural numbers, one for each element of a list, each
ending before the next begins; and the gaps between them.
-/
namespace Sgos.IntervalList
variable {α : Type*}

/-- The intervals come in order and do not overlap. -/
def Apart (beg fin : α → ℕ) (xs : List α) : Prop := xs.Pairwise fun x y => fin x ≤ beg y

variable {beg fin beg' fin' : α → ℕ} {xs : List α}

theorem Apart.disjoint (h : Apart beg fin xs) {x y : α} (hx : x ∈ xs) (hy : y ∈ xs)
    (hne : x ≠ y) : fin x ≤ beg y ∨ fin y ≤ beg x := by
  obtain ⟨pre, post, rfl⟩ := List.append_of_mem hx
  obtain ⟨_, hpost, hpre⟩ := List.pairwise_append.mp h
  rcases List.mem_append.mp hy with hy | hy
  · exact .inr (hpre y hy x List.mem_cons_self)
  · rcases List.mem_cons.mp hy with rfl | hy
    · exact absurd rfl hne
    · exact .inl ((List.pairwise_cons.mp hpost).1 y hy)

theorem Apart.fin_le_last (h : Apart beg fin xs) (hle : ∀ x ∈ xs, beg x ≤ fin x) {x z : α}
    (hx : x ∈ xs) (hz : xs.getLast? = some z) : fin x ≤ fin z := by
  obtain ⟨pre, rfl⟩ := List.getLast?_eq_some_iff.mp hz
  rcases List.mem_append.mp hx with hx | hx
  · exact ((List.pairwise_append.mp h).2.2 x hx z (by simp)).trans (hle z (by simp))
  · rw [List.mem_singleton.mp hx]

theorem Apart.head_le_beg (h : Apart beg fin xs) (hle : ∀ x ∈ xs, beg x ≤ fin x) {x z : α}
    (hx : x ∈ xs) (hz : xs.head? = some z) : beg z ≤ beg x := by
  obtain ⟨post, rfl⟩ := List.head?_eq_some_iff.mp hz
  rcases List.mem_cons.mp hx with rfl | hx
  · exact le_rfl
  · exact (hle z (by simp)).trans ((List.pairwise_cons.mp h).1 x hx)

/-- An interval that fits between its neighbours fits into the whole list. -/
theorem Apart.insert {pre post : List α} {v : α} (h : Apart beg fin (pre ++ post))
    (hle : ∀ x ∈ pre ++ post, beg x ≤ fin x)
    (hb : ∀ x ∈ pre ++ post, beg' x = beg x) (hf : ∀ x ∈ pre ++ post, fin' x = fin x)
    (hpre : ∀ y, pre.getLast? = some y → fin y ≤ beg' v)
    (hpost : ∀ y, post.head? = some y → fin' v ≤ beg y) :
    Apart beg' fin' (pre ++ v :: post) := by
  have h' : Apart beg' fin' (pre ++ post) := by
    refine List.Pairwise.imp_of_mem (fun {x y} hx hy hxy => ?_) h
    rwa [hf x hx, hb y hy]
  obtain ⟨h1, h2, h3⟩ := List.pairwise_append.mp h'
  obtain ⟨g1, g2, _⟩ := List.pairwise_append.mp h
  refine List.pairwise_append.mpr ⟨h1, List.pairwise_cons.mpr ⟨fun y hy => ?_, h2⟩, ?_⟩
  · cases hz : post.head? with
    | none => simp [List.head?_eq_none_iff.mp hz] at hy
    | some z =>
      rw [hb y (by simp [hy])]
      exact (hpost z hz).trans (Apart.head_le_beg g2 (fun x hx => hle x (by simp [hx])) hy hz)
  · intro x hx y hy
    rcases List.mem_cons.mp hy with rfl | hy
    · cases hz : pre.getLast? with
      | none => simp [List.getLast?_eq_none_iff.mp hz] at hx
      | some z =>
        rw [hf x (by simp [hx])]
        exact (Apart.fin_le_last g1 (fun x hx => hle x (by simp [hx])) hx hz).trans (hpre z hz)
    · exact h3 x hx y hy

/-- Some gap below an interval, counted upwards from `a`, holds `n` addresses. -/
def RoomBelow (beg fin : α → ℕ) (n : ℕ) : ℕ → List α → Prop
  | _, [] => False
  | a, x :: xs => a + n ≤ beg x ∨ RoomBelow beg fin n (fin x) xs

/-- Some gap above an interval of the reversed list, counted downwards from `b`, holds `n`
addresses. -/
def RoomAbove (beg fin : α → ℕ) (n : ℕ) : ℕ → List α → Prop
  | _, [] => False
  | b, x :: xs => fin x + n ≤ b ∨ RoomAbove beg fin n (beg x) xs

/-- The end of the last interval, or `a` if there is none. -/
def top (fin : α → ℕ) (a : ℕ) (xs : List α) : ℕ := xs.foldl (fun _ x => fin x) a

@[simp] theorem top_nil (a : ℕ) : top fin a [] = a := rfl

@[simp] theorem top_cons (a : ℕ) (x : α) (xs : List α) :
    top fin a (x :: xs) = top fin (fin x) xs := rfl

theorem le_top {a : ℕ} (h : Apart beg fin xs) (hle : ∀ x ∈ xs, beg x ≤ fin x)
    (ha : ∀ x ∈ xs, a ≤ beg x) : a ≤ top fin a xs := by
  induction xs generalizing a with
  | nil => exact le_rfl
  | cons x xs ih =>
    obtain ⟨hx, hxs⟩ := List.pairwise_cons.mp h
    have hax := (ha x (by simp)).trans (hle x (by simp))
    exact hax.trans (ih hxs (fun y hy => hle y (by simp [hy])) hx)

theorem top_eq_of_last {a : ℕ} {y : α} (hy : xs.getLast? = some y) : top fin a xs = fin y := by
  obtain ⟨pre, rfl⟩ := List.getLast?_eq_some_iff.mp hy
  simp [top, List.foldl_append]

theorem RoomBelow.lt {a n : ℕ} {bound : ℕ} (hr : RoomBelow beg fin n a xs)
    (h : Apart beg fin xs) (hle : ∀ x ∈ xs, beg x ≤ fin x) (ha : ∀ x ∈ xs, a ≤ beg x)
    (hb : ∀ x ∈ xs, beg x < bound) : a + n < bound := by
  induction xs generalizing a with
  | nil => exact hr.elim
  | cons x xs ih =>
    obtain ⟨hx, hxs⟩ := List.pairwise_cons.mp h
    rcases hr with hr | hr
    · exact hr.trans_lt (hb x (by simp))
    · have hax := (ha x (by simp)).trans (hle x (by simp))
      have := ih hr hxs (fun y hy => hle y (by simp [hy])) hx (fun y hy => hb y (by simp [hy]))
      omega

/-- The start of the last interval of the reversed list, or `b` if there is none. -/
def bottom (beg : α → ℕ) (b : ℕ) (xs : List α) : ℕ := xs.foldl (fun _ x => beg x) b

@[simp] theorem bottom_nil (b : ℕ) : bottom beg b [] = b := rfl

@[simp] theorem bottom_cons (b : ℕ) (x : α) (xs : List α) :
    bottom beg b (x :: xs) = bottom beg (beg x) xs := rfl

theorem bottom_le {b : ℕ} (h : xs.Pairwise fun x y => fin y ≤ beg x)
    (hle : ∀ x ∈ xs, beg x ≤ fin x) (hb : ∀ x ∈ xs, fin x ≤ b) : bottom beg b xs ≤ b := by
  induction xs generalizing b with
  | nil => exact le_rfl
  | cons x xs ih =>
    obtain ⟨hx, hxs⟩ := List.pairwise_cons.mp h
    have hxb := (hle x (by simp)).trans (hb x (by simp))
    exact (ih hxs (fun y hy => hle y (by simp [hy])) hx).trans hxb

theorem bottom_eq_of_last {b : ℕ} {y : α} (hy : xs.getLast? = some y) :
    bottom beg b xs = beg y := by
  obtain ⟨pre, rfl⟩ := List.getLast?_eq_some_iff.mp hy
  simp [bottom, List.foldl_append]

theorem RoomAbove.le {b n : ℕ} (hr : RoomAbove beg fin n b xs)
    (h : xs.Pairwise fun x y => fin y ≤ beg x) (hle : ∀ x ∈ xs, beg x ≤ fin x)
    (hb : ∀ x ∈ xs, fin x ≤ b) : n ≤ b := by
  induction xs generalizing b with
  | nil => exact hr.elim
  | cons x xs ih =>
    obtain ⟨hx, hxs⟩ := List.pairwise_cons.mp h
    rcases hr with hr | hr
    · omega
    · have hxb := (hle x (by simp)).trans (hb x (by simp))
      exact (ih hr hxs (fun y hy => hle y (by simp [hy])) hx).trans hxb

/-! ## The first and the last gap -/

/-- The lowest address from `a` on where `n` addresses fit between the intervals. -/
def firstGap (beg fin : α → ℕ) (n : ℕ) : ℕ → List α → ℕ
  | a, [] => a
  | a, x :: xs => if a + n ≤ beg x then a else firstGap beg fin n (fin x) xs

/-- The highest end up to `b` of `n` addresses that fit between the intervals of the reversed
list. -/
def lastGap (beg fin : α → ℕ) (n : ℕ) : ℕ → List α → ℕ
  | b, [] => b
  | b, x :: xs => if fin x + n ≤ b then b else lastGap beg fin n (beg x) xs

theorem firstGap_isLeast {a n : ℕ} (h : Apart beg fin xs) (hle : ∀ x ∈ xs, beg x ≤ fin x)
    (ha : ∀ x ∈ xs, a ≤ beg x) :
    IsLeast {b | a ≤ b ∧ ∀ x ∈ xs, fin x ≤ b ∨ b + n ≤ beg x} (firstGap beg fin n a xs) := by
  induction xs generalizing a with
  | nil => exact ⟨⟨le_rfl, by simp⟩, fun b hb => hb.1⟩
  | cons x xs ih =>
    obtain ⟨hx, hxs⟩ := List.pairwise_cons.mp h
    have hxle := hle x (by simp)
    rw [firstGap]
    split_ifs with hfit
    · refine ⟨⟨le_rfl, fun y hy => .inr ?_⟩, fun b hb => hb.1⟩
      rcases List.mem_cons.mp hy with rfl | hy
      · exact hfit
      · exact hfit.trans (hxle.trans (hx y hy))
    · obtain ⟨⟨hlow, hmem⟩, hleast⟩ := ih hxs (fun y hy => hle y (by simp [hy])) hx
      have hax := ha x (by simp)
      refine ⟨⟨by omega, fun y hy => ?_⟩, fun b hb => ?_⟩
      · rcases List.mem_cons.mp hy with rfl | hy
        · exact .inl hlow
        · exact hmem y hy
      · -- below `x` there is no room
        have hxb : fin x ≤ b := by
          rcases hb.2 x (by simp) with hxb | hbx
          · exact hxb
          · have hab := hb.1
            omega
        exact hleast ⟨hxb, fun y hy => hb.2 y (by simp [hy])⟩

theorem lastGap_isGreatest {b n : ℕ} (h : xs.Pairwise fun x y => fin y ≤ beg x)
    (hle : ∀ x ∈ xs, beg x ≤ fin x) (hb : ∀ x ∈ xs, fin x ≤ b) :
    IsGreatest {e | e ≤ b ∧ ∀ x ∈ xs, fin x + n ≤ e ∨ e ≤ beg x} (lastGap beg fin n b xs) := by
  induction xs generalizing b with
  | nil => exact ⟨⟨le_rfl, by simp⟩, fun e he => he.1⟩
  | cons x xs ih =>
    obtain ⟨hx, hxs⟩ := List.pairwise_cons.mp h
    have hxle := hle x (by simp)
    rw [lastGap]
    split_ifs with hfit
    · refine ⟨⟨le_rfl, fun y hy => .inl ?_⟩, fun e he => he.1⟩
      rcases List.mem_cons.mp hy with rfl | hy
      · exact hfit
      · have hyx := hx y hy
        omega
    · obtain ⟨⟨hhigh, hmem⟩, hgreatest⟩ := ih hxs (fun y hy => hle y (by simp [hy])) hx
      have hxb := hb x (by simp)
      refine ⟨⟨by omega, fun y hy => ?_⟩, fun e he => ?_⟩
      · rcases List.mem_cons.mp hy with rfl | hy
        · exact .inr hhigh
        · exact hmem y hy
      · -- above `x` there is no room
        have hex : e ≤ beg x := by
          rcases he.2 x (by simp) with hxe | hex
          · have heb := he.1
            omega
          · exact hex
        exact hgreatest ⟨hex, fun y hy => he.2 y (by simp [hy])⟩

end Sgos.IntervalList
