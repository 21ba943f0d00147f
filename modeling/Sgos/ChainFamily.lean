import Sgos.LinkedChain

/-!
# Families of doubly linked chains

Chains that share one pair of link maps and have no node in common. A node that moves from one
chain to another leaves the other chains alone.
-/
namespace Sgos.LinkedChain
variable {α ι : Type*}

/-- The chain `i` starts at `head i` and has the nodes `xs i`; no node is in two chains. -/
structure Family (next prev : α → Option α) (head : ι → Option α) (xs : ι → List α) : Prop where
  chain : ∀ i, Chain next prev (head i) (xs i)
  apart : ∀ i j x, x ∈ xs i → x ∈ xs j → i = j

variable {next prev : α → Option α} {head : ι → Option α} {xs : ι → List α}

/-- Without nodes there is nothing to link. -/
theorem family_nil : Family next prev (fun _ : ι => none) fun _ => [] where
  chain _ := Chain.nil
  apart _ _ _ hx := by simp at hx

/-- Only the links of the nodes matter. -/
theorem Family.congr {next' prev' : α → Option α} (h : Family next prev head xs)
    (hn : ∀ i, ∀ x ∈ xs i, next' x = next x) (hp : ∀ i, ∀ x ∈ xs i, prev' x = prev x) :
    Family next' prev' head xs where
  chain i := (h.chain i).congr (hn i) (hp i)
  apart := h.apart

variable [DecidableEq α] [DecidableEq ι] {i : ι} {x : α}

/-- A node that left its chain is in no chain. -/
theorem Family.mem_unlink (h : Family next prev head xs) (hx : x ∈ xs i) (j : ι) (y : α) :
    y ∈ Function.update xs i ((xs i).erase x) j ↔ y ≠ x ∧ y ∈ xs j := by
  by_cases hj : j = i
  · subst hj
    rw [Function.update_self]
    exact (h.chain j).nodup.mem_erase_iff
  · rw [Function.update_of_ne hj]
    refine ⟨fun hy => ⟨?_, hy⟩, And.right⟩
    rintro rfl
    exact hj (h.apart j i y hy hx)

/-- The chain `i` loses the node `x`. -/
theorem Family.unlink (h : Family next prev head xs) (hx : x ∈ xs i) :
    Family (unlinkNext next prev x) (unlinkPrev next prev x)
      (Function.update head i (unlinkEnd prev next x (head i)))
      (Function.update xs i ((xs i).erase x)) where
  chain j := by
    by_cases hj : j = i
    · subst hj
      simpa using (h.chain j).unlink hx
    · have hout : ∀ y ∈ xs j, y ∉ xs i := fun y hy hyi => hj (h.apart j i y hy hyi)
      simp only [Function.update_of_ne hj]
      apply (h.chain j).congr
      · exact fun y hy => (h.chain i).unlinkNext_of_not_mem hx (hout y hy)
      · exact fun y hy => (h.chain i).unlinkPrev_of_not_mem hx (hout y hy)
  apart j k y hj hk := by
    have hmem : ∀ l, y ∈ Function.update xs i ((xs i).erase x) l → y ∈ xs l := by
      intro l hl
      by_cases hli : l = i
      · subst hli
        exact List.mem_of_mem_erase (by simpa using hl)
      · simpa [hli] using hl
    exact h.apart j k y (hmem j hj) (hmem k hk)

/-- The chain `i` gains the node `x` between `pre` and `post`. -/
theorem Family.link (h : Family next prev head xs) {pre post : List α} (hi : xs i = pre ++ post)
    (hx : ∀ j, x ∉ xs j) :
    Family (linkNext next pre.getLast? x post.head?) (linkPrev prev pre.getLast? x post.head?)
      (Function.update head i (linkEnd pre.getLast? x (head i)))
      (Function.update xs i (pre ++ x :: post)) where
  chain j := by
    by_cases hj : j = i
    · subst hj
      have hchain := h.chain j
      have hxj := hx j
      rw [hi] at hchain hxj
      simpa using hchain.link hxj
    · have hout : ∀ y ∈ xs j, y ≠ x ∧ y ∉ pre ++ post := by
        intro y hy
        refine ⟨fun he => hx j (he ▸ hy), fun hyi => hj (h.apart j i y hy ?_)⟩
        rwa [hi]
      simp only [Function.update_of_ne hj]
      apply (h.chain j).congr
      · intro y hy
        obtain ⟨hyx, hyi⟩ := hout y hy
        exact linkNext_of_ne hyx fun he => hyi (by simp [List.mem_of_getLast? he])
      · intro y hy
        obtain ⟨hyx, hyi⟩ := hout y hy
        exact linkPrev_of_ne hyx fun he => hyi (by simp [List.mem_of_head? he])
  apart j k y hj hk := by
    by_cases hyx : y = x
    · subst hyx
      have heq : ∀ l, y ∈ Function.update xs i (pre ++ y :: post) l → l = i := by
        intro l hl
        by_contra hli
        exact hx l (by simpa [hli] using hl)
      rw [heq j hj, heq k hk]
    · have hmem : ∀ l, y ∈ Function.update xs i (pre ++ x :: post) l → y ∈ xs l := by
        intro l hl
        by_cases hli : l = i
        · subst hli
          simpa [hi, hyx] using hl
        · simpa [hli] using hl
      exact h.apart j k y (hmem j hj) (hmem k hk)

end Sgos.LinkedChain
