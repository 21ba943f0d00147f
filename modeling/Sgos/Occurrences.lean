import Mathlib.Data.List.Infix
import Mathlib.Data.Option.Basic

/-!
# Occurrences of a word in a text

Where a word occurs first in a text, and the text with its occurrences, from left to right and
without overlaps, replaced by another word.
-/
namespace Sgos.Occurrences
variable {α : Type*} [DecidableEq α]

/-- The place of the first occurrence of a word. -/
def firstOccurrence (word : List α) : List α → Option ℕ
  | [] => if word = [] then some 0 else none
  | c :: text => if word <+: c :: text then some 0 else (firstOccurrence word text).map (· + 1)

/-- Replace the occurrences; `skip` elements are left of the last one. -/
def replacing (word new : List α) : ℕ → List α → List α
  | _, [] => []
  | skip + 1, _ :: text => replacing word new skip text
  | 0, c :: text =>
      if word <+: c :: text then new ++ replacing word new (word.length - 1) text
      else c :: replacing word new 0 text

/-- The text with the occurrences of a word replaced; the empty word does not count. -/
def replaced (word new text : List α) : List α :=
  if word = [] then text else replacing word new 0 text

variable {word new text : List α} {k : ℕ}

theorem replacing_skip (skip : ℕ) (text : List α) :
    replacing word new skip text = replacing word new 0 (text.drop skip) := by
  induction skip generalizing text with
  | zero => rw [List.drop_zero]
  | succ skip ih =>
    cases text with
    | nil => rw [List.drop_nil, replacing, replacing]
    | cons c text => rw [List.drop_succ_cons, replacing, ih]

theorem firstOccurrence_nil (text : List α) : firstOccurrence [] text = some 0 := by
  cases text with
  | nil => rfl
  | cons c text => exact if_pos List.nil_prefix

/-- What is found is an occurrence. -/
theorem prefix_of_firstOccurrence (h : firstOccurrence word text = some k) :
    k ≤ text.length ∧ word <+: text.drop k := by
  induction text generalizing k with
  | nil =>
    rw [firstOccurrence] at h
    split_ifs at h with hword
    cases h
    exact ⟨le_rfl, by rw [hword]; exact List.nil_prefix⟩
  | cons c text ih =>
    rw [firstOccurrence] at h
    split_ifs at h with hword
    · cases h
      exact ⟨Nat.zero_le _, hword⟩
    · obtain ⟨k, hk, rfl⟩ := Option.map_eq_some_iff.mp h
      obtain ⟨hle, hpre⟩ := ih hk
      exact ⟨Nat.succ_le_succ hle, hpre⟩

theorem replaced_of_none (h : firstOccurrence word text = none) : replaced word new text = text := by
  have hword : word ≠ [] := by
    rintro rfl
    rw [firstOccurrence_nil] at h
    cases h
  rw [replaced, if_neg hword]
  induction text with
  | nil => rfl
  | cons c text ih =>
    rw [firstOccurrence] at h
    split_ifs at h with hpre
    rw [replacing, if_neg hpre, ih (Option.map_eq_none_iff.mp h)]

/-- The text up to the first occurrence stays, and behind it one goes on. -/
theorem replaced_of_some (new : List α) (hword : word ≠ []) (h : firstOccurrence word text = some k) :
    replaced word new text =
      text.take k ++ new ++ replaced word new (text.drop (k + word.length)) := by
  rw [replaced, if_neg hword, replaced, if_neg hword]
  induction text generalizing k with
  | nil =>
    rw [firstOccurrence, if_neg hword] at h
    cases h
  | cons c text ih =>
    rw [firstOccurrence] at h
    split_ifs at h with hpre
    · cases h
      have hlength : 0 < word.length := List.length_pos_iff.mpr hword
      obtain ⟨n, hn⟩ : ∃ n, word.length = n + 1 := ⟨word.length - 1, by omega⟩
      rw [replacing, if_pos hpre, replacing_skip, Nat.zero_add, hn, Nat.add_sub_cancel,
        List.drop_succ_cons, List.take_zero, List.nil_append]
    · obtain ⟨k, hk, rfl⟩ := Option.map_eq_some_iff.mp h
      have hsum : k + 1 + word.length = k + word.length + 1 := by omega
      rw [replacing, if_neg hpre, ih hk, hsum, List.drop_succ_cons, List.take_succ_cons,
        List.cons_append, List.cons_append]

/-- The occurrence ends in the text. -/
theorem length_of_firstOccurrence (h : firstOccurrence word text = some k) :
    k + word.length ≤ text.length := by
  obtain ⟨hle, hpre⟩ := prefix_of_firstOccurrence h
  have hlength := hpre.length_le
  rw [List.length_drop] at hlength
  omega

end Sgos.Occurrences
