import Sgos.ByteBuffer

/-!
# Strings that end in a zero

The text in front of the first zero of a buffer, comparing and appending such texts, and buffers
that hold a text and zeros behind it. A `none` result is an access outside of a buffer.
-/
namespace Sgos.CString
open ByteBuffer

/-- The bytes in front of the first zero. -/
def cstring : List UInt8 → Option (List UInt8)
  | [] => none
  | b :: bs => if b = 0 then some [] else (cstring bs).map (b :: ·)

/-- Whether two strings agree in their first `count` bytes; a zero ends the comparison. -/
def strncmp : List UInt8 → List UInt8 → ℕ → Option Bool
  | _, _, 0 => some true
  | a :: as, b :: bs, count + 1 =>
    if a ≠ b then some false else if a = 0 then some true else strncmp as bs count
  | _, _, _ + 1 => none

/-- Put `src` behind the string at offset `q`. -/
def strcat (mem : List UInt8) (q : ℕ) (src : List UInt8) : Option (List UInt8) := do
  let text ← cstring (mem.drop q)
  write mem (q + text.length) (src ++ [0])

/-- Put the string `text` at offset `q`. -/
def sprintf (mem : List UInt8) (q : ℕ) (text : List UInt8) : Option (List UInt8) :=
  write mem q (text ++ [0])

theorem cstring_append {text : List UInt8} (h : (0 : UInt8) ∉ text) (rest : List UInt8) :
    cstring (text ++ 0 :: rest) = some text := by
  induction text with
  | nil => rfl
  | cons b bs ih =>
    rw [List.mem_cons, not_or] at h
    rw [List.cons_append, cstring, if_neg (Ne.symm h.1), ih h.2, Option.map_some]

/-- A string agrees with every string that it starts. -/
theorem strncmp_prefix (text as bs : List UInt8) :
    strncmp (text ++ as) (text ++ bs) text.length = some true := by
  induction text with
  | nil => cases as <;> rfl
  | cons b text ih =>
    rw [List.cons_append, List.cons_append, List.length_cons, strncmp, if_neg (by simp)]
    split
    · rfl
    · exact ih

/-- A difference that was found stays one when more is compared. -/
theorem strncmp_mono {as bs : List UInt8} {count count' : ℕ} (h : strncmp as bs count = some false)
    (hle : count ≤ count') (more : List UInt8) : strncmp (as ++ more) bs count' = some false := by
  induction count generalizing as bs count' with
  | zero => cases as <;> cases h
  | succ count ih =>
    obtain ⟨count', rfl⟩ : ∃ k, count' = k + 1 := ⟨count' - 1, by omega⟩
    cases as with
    | nil => cases h
    | cons a as =>
      cases bs with
      | nil => cases h
      | cons b bs =>
        rw [List.cons_append, strncmp]
        rw [strncmp] at h
        by_cases hab : a ≠ b
        · rw [if_pos hab]
        · rw [if_neg hab] at h ⊢
          by_cases ha : a = 0
          · rw [if_pos ha] at h
            cases h
          · rw [if_neg ha] at h ⊢
            exact ih h (Nat.le_of_succ_le_succ hle)

/-- A buffer of `size` bytes that holds `text` and zeros, in front of `tail`. -/
def holding (size : ℕ) (tail text : List UInt8) : List UInt8 :=
  text ++ (List.replicate (size - text.length) 0 ++ tail)

variable {size q : ℕ} {tail text : List UInt8}

theorem cstring_holding (h : (0 : UInt8) ∉ text) (hq : q ≤ text.length)
    (hfit : text.length < size) : cstring ((holding size tail text).drop q) =
      some (text.drop q) := by
  obtain ⟨k, hk⟩ : ∃ k, size - text.length = k + 1 := ⟨size - text.length - 1, by omega⟩
  rw [holding, List.drop_append_of_le_length hq, hk, List.replicate_succ, List.cons_append]
  apply cstring_append
  intro hmem
  exact h (List.mem_of_mem_drop hmem)

/-- A string that is written at the end of the text, or over a part of it that it repeats. -/
theorem sprintf_holding (hq : q ≤ text.length) {src : List UInt8}
    (hfit : (text ++ src).length < size) :
    sprintf (holding size tail text) q (text.drop q ++ src) =
      some (holding size tail (text ++ src)) := by
  rw [List.length_append] at hfit
  obtain ⟨k, hk⟩ : ∃ k, size - text.length = src.length + (k + 1) :=
    ⟨size - text.length - src.length - 1, by omega⟩
  have hk' : size - (text ++ src).length = k + 1 := by
    rw [List.length_append]
    omega
  have hsplit : holding size tail text = text.take q ++ (text.drop q ++
      (List.replicate (src.length + (k + 1)) 0 ++ tail)) := by
    rw [holding, hk, ← List.append_assoc (text.take q), List.take_append_drop]
  have hlen : (text.take q).length = q := List.length_take_of_le hq
  rw [sprintf, hsplit, write_front hlen _ _ (by simp; omega), holding, hk']
  congr 1
  have hdrop : (text.drop q ++ (List.replicate (src.length + (k + 1)) (0 : UInt8) ++ tail)).drop
      (text.drop q ++ src ++ [0]).length = List.replicate k 0 ++ tail := by
    have hsum : (text.drop q ++ src ++ [(0 : UInt8)]).length =
        (text.drop q).length + (src.length + 1) := by simp
    rw [hsum, ← List.drop_drop, List.drop_left' rfl,
      show src.length + (k + 1) = (src.length + 1) + k by omega, List.replicate_add,
      List.append_assoc, List.drop_left' List.length_replicate]
  rw [hdrop, List.replicate_succ]
  simp only [← List.append_assoc, List.take_append_drop]
  simp

theorem strcat_holding (h : (0 : UInt8) ∉ text) (hq : q ≤ text.length) {src : List UInt8}
    (hfit : (text ++ src).length < size) :
    strcat (holding size tail text) q src = some (holding size tail (text ++ src)) := by
  have hend := @sprintf_holding size text.length tail text le_rfl src hfit
  have hlen : q + (text.drop q).length = text.length := by
    rw [List.length_drop]
    omega
  rw [List.length_append] at hfit
  rw [List.drop_length, List.nil_append] at hend
  rw [strcat, cstring_holding h hq (by omega), Option.bind_eq_bind, Option.bind_some, hlen]
  exact hend

end Sgos.CString
