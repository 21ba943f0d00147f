import Sgos.ByteStore

/-!
# Runs of bytes laid over a store

Runs at addresses are written one after the other. Runs that are apart can be written in any
order, and each of them is then found at its address.
-/
namespace Sgos.ByteStore

/-- A run of bytes and its address. -/
abbrev Run := ℕ × List UInt8

def overlay (d : Store) (runs : List Run) : Store :=
  runs.foldl (fun d r => writeBytes d r.1 r.2) d

def Apart (r s : Run) : Prop := r.1 + r.2.length ≤ s.1 ∨ s.1 + s.2.length ≤ r.1

variable {d : Store} {a b n : ℕ} {xs ys : List UInt8} {runs pre post : List Run} {r : Run}

theorem writeBytes_comm (d : Store) (h : a + xs.length ≤ b ∨ b + ys.length ≤ a) :
    writeBytes (writeBytes d a xs) b ys = writeBytes (writeBytes d b ys) a xs := by
  funext x
  by_cases hx : a ≤ x ∧ x < a + xs.length
  · obtain ⟨i, rfl⟩ := Nat.exists_eq_add_of_le hx.1
    have hi : i < xs.length := by omega
    rw [writeBytes_outside _ ys (by omega), writeBytes_inside d a xs hi, writeBytes_inside _ a xs hi]
  · have hout : x < a ∨ a + xs.length ≤ x := by omega
    have hsame := writeBytes_outside d xs hout
    rw [writeBytes_outside (writeBytes d b ys) xs hout]
    unfold writeBytes at hsame ⊢
    rw [hsame]

/-- A second write of the same length replaces the first one. -/
theorem writeBytes_writeBytes (d : Store) (a : ℕ) (h : xs.length = ys.length) :
    writeBytes (writeBytes d a xs) a ys = writeBytes d a ys := by
  funext x
  by_cases hx : a ≤ x ∧ x < a + ys.length
  · obtain ⟨i, rfl⟩ := Nat.exists_eq_add_of_le hx.1
    have hi : i < ys.length := by omega
    rw [writeBytes_inside _ a ys hi, writeBytes_inside d a ys hi]
  · have hout : x < a ∨ a + ys.length ≤ x := by omega
    rw [writeBytes_outside _ ys hout, writeBytes_outside d ys hout,
      writeBytes_outside d xs (by omega)]

/-- Writing what is there changes nothing. -/
theorem writeBytes_readBytes (d : Store) (a n : ℕ) : writeBytes d a (readBytes d a n) = d := by
  funext x
  by_cases hx : a ≤ x ∧ x < a + (readBytes d a n).length
  · obtain ⟨i, rfl⟩ := Nat.exists_eq_add_of_le hx.1
    rw [writeBytes_inside d a _ (show i < (readBytes d a n).length by omega)]
    simp [readBytes]
  · exact writeBytes_outside d _ (by omega)

theorem overlay_append (d : Store) (pre post : List Run) :
    overlay d (pre ++ post) = overlay (overlay d pre) post := List.foldl_append

theorem overlay_concat (d : Store) (runs : List Run) (r : Run) :
    overlay d (runs ++ [r]) = writeBytes (overlay d runs) r.1 r.2 := by
  rw [overlay_append]
  rfl

/-- A run apart from all others may be written after them. -/
theorem overlay_writeBytes (d : Store) (h : ∀ s ∈ runs, Apart r s) :
    overlay (writeBytes d r.1 r.2) runs = writeBytes (overlay d runs) r.1 r.2 := by
  induction runs generalizing d with
  | nil => rfl
  | cons s runs ih =>
    have hs := h s (by simp)
    rw [overlay, List.foldl_cons, writeBytes_comm d hs]
    exact ih (writeBytes d s.1 s.2) fun t ht => h t (by simp [ht])

/-- A run apart from those behind it may be written last. -/
theorem overlay_middle (d : Store) (h : ∀ s ∈ post, Apart r s) :
    overlay d (pre ++ r :: post) = writeBytes (overlay d (pre ++ post)) r.1 r.2 := by
  rw [overlay_append, overlay_append]
  exact overlay_writeBytes (overlay d pre) h

/-- Bytes apart from all runs are those of the store. -/
theorem readBytes_overlay (d : Store) (h : ∀ s ∈ runs, b + n ≤ s.1 ∨ s.1 + s.2.length ≤ b) :
    readBytes (overlay d runs) b n = readBytes d b n := by
  induction runs generalizing d with
  | nil => rfl
  | cons s runs ih =>
    have hs := h s (by simp)
    rw [overlay, List.foldl_cons]
    refine (ih (writeBytes d s.1 s.2) fun t ht => h t (by simp [ht])).trans ?_
    exact readBytes_writeBytes_disjoint d hs.symm

end Sgos.ByteStore
