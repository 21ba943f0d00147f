import Sgos.CString

/-!
# Appending to the string in a buffer

A buffer of `room + 1` bytes with a string and its zero. What appending does to it is said on the
string: the text becomes longer, or there is no room and the write leaves the buffer.
-/
namespace Sgos.TextBuffer
open ByteBuffer CString

/-! ## Results that fail together -/
section Together
variable {α β γ δ : Type*}

/-- Related results of a first step, and second steps that are related from there on. -/
theorem bind_rel {r : α → β → Prop} {r' : γ → δ → Prop} {x : Option α} {y : Option β}
    {f : α → Option γ} {g : β → Option δ} (h : Option.Rel r x y)
    (hfg : ∀ a b, r a b → Option.Rel r' (f a) (g b)) : Option.Rel r' (x.bind f) (y.bind g) := by
  cases h with
  | some hab => exact hfg _ _ hab
  | none => exact .none

theorem rel_mono {r r' : α → β → Prop} {x : Option α} {y : Option β} (h : Option.Rel r x y)
    (hr : ∀ a b, r a b → r' a b) : Option.Rel r' x y := by
  cases h with
  | some hab => exact .some (hr _ _ hab)
  | none => exact .none

theorem eq_some_of_rel {r : α → β → Prop} {x : Option α} {b : β}
    (h : Option.Rel r x (some b)) : ∃ a, x = some a ∧ r a b := by
  cases h with
  | some hab => exact ⟨_, rfl, hab⟩

theorem eq_none_of_rel {r : α → β → Prop} {x : Option α} (h : Option.Rel r x none) : x = none := by
  cases h with
  | none => rfl

end Together

/-! ## The string in a buffer -/

/-- A buffer of `room + 1` bytes with the string `t`, which is longer than `q` or as long. -/
structure Contains (q room : ℕ) (mem t : List UInt8) : Prop where
  length_eq : mem.length = room + 1
  string : cstring mem = some t
  reach : q ≤ t.length

/-- Append to the text, when there is room for `room` characters. -/
def append (room : ℕ) (t src : List UInt8) : Option (List UInt8) :=
  if (t ++ src).length ≤ room then some (t ++ src) else none

variable {q room : ℕ} {mem t src : List UInt8}

/-- Two appends have room when one append of both texts has. -/
theorem append_append (a b : List UInt8) :
    ((append room t a).bind fun t' => append room t' b) = append room t (a ++ b) := by
  simp only [append, List.length_append]
  split
  · simp only [Option.bind_some, List.length_append, List.append_assoc, add_assoc]
  · rw [if_neg (by omega), Option.bind_none]

theorem cstring_eq_some {text : List UInt8} (h : cstring mem = some text) :
    (0 : UInt8) ∉ text ∧ ∃ rest, mem = text ++ 0 :: rest := by
  induction mem generalizing text with
  | nil => cases h
  | cons b bs ih =>
    rw [cstring] at h
    split at h
    · rename_i hb
      cases h
      exact ⟨List.not_mem_nil, bs, by rw [hb, List.nil_append]⟩
    · rename_i hb
      obtain ⟨text', htext', rfl⟩ := Option.map_eq_some_iff.mp h
      obtain ⟨hzero, rest, rfl⟩ := ih htext'
      refine ⟨?_, rest, rfl⟩
      rw [List.mem_cons, not_or]
      exact ⟨Ne.symm hb, hzero⟩

namespace Contains

theorem zero_notMem (h : Contains q room mem t) : (0 : UInt8) ∉ t := (cstring_eq_some h.string).1

theorem length_le (h : Contains q room mem t) : t.length ≤ room := by
  obtain ⟨-, rest, hmem⟩ := cstring_eq_some h.string
  have hlen := h.length_eq
  rw [hmem, List.length_append, List.length_cons] at hlen
  omega

/-- The string from offset `q` on. -/
theorem cstring_drop (h : Contains q room mem t) : cstring (mem.drop q) = some (t.drop q) := by
  obtain ⟨hzero, rest, hmem⟩ := cstring_eq_some h.string
  rw [hmem, List.drop_append_of_le_length h.reach]
  exact cstring_append (fun hc => hzero (List.mem_of_mem_drop hc)) _

/-- Print the string and more behind it at offset `q`. -/
theorem sprintf (h : Contains q room mem t) (hsrc : (0 : UInt8) ∉ src) :
    Option.Rel (Contains q room) (sprintf mem q (t.drop q ++ src)) (append room t src) := by
  obtain ⟨-, rest, hmem⟩ := cstring_eq_some h.string
  have hzero := h.zero_notMem
  have hreach := h.reach
  have hlen := h.length_eq
  have hlength : q + (t.drop q ++ src ++ [(0 : UInt8)]).length = (t ++ src).length + 1 := by
    simp only [List.length_append, List.length_drop, List.length_cons, List.length_nil]
    omega
  rw [CString.sprintf, write, append, hlength, hlen]
  by_cases hfit : (t ++ src).length ≤ room
  · rw [if_pos (by omega), if_pos hfit]
    have htake : mem.take q = t.take q := by
      rw [hmem, List.take_append_of_le_length hreach]
    have hwhole : mem.take q ++ (t.drop q ++ src ++ [0]) ++ mem.drop ((t ++ src).length + 1) =
        t ++ src ++ 0 :: mem.drop ((t ++ src).length + 1) := by
      rw [htake, ← List.append_assoc, ← List.append_assoc, List.take_append_drop,
        List.append_assoc _ [0], List.singleton_append]
    refine .some ⟨?_, ?_, ?_⟩
    · rw [hwhole, List.length_append, List.length_cons, List.length_drop, hlen]
      omega
    · rw [hwhole]
      exact cstring_append (by rw [List.mem_append, not_or]; exact ⟨hzero, hsrc⟩) _
    · rw [List.length_append]
      omega
  · rw [if_neg (by omega), if_neg hfit]
    exact .none

theorem strcat (h : Contains q room mem t) (hsrc : (0 : UInt8) ∉ src) :
    Option.Rel (Contains q room) (strcat mem q src) (append room t src) := by
  have hend : Contains t.length room mem t := ⟨h.length_eq, h.string, le_rfl⟩
  have hprint := hend.sprintf hsrc
  have hlen : q + (t.drop q).length = t.length := by
    have hreach := h.reach
    rw [List.length_drop]
    omega
  rw [List.drop_length, List.nil_append, CString.sprintf] at hprint
  rw [CString.strcat, h.cstring_drop, Option.bind_eq_bind, Option.bind_some, hlen]
  exact rel_mono hprint fun _ _ hc => ⟨hc.length_eq, hc.string, le_trans h.reach hc.reach⟩

end Contains

end Sgos.TextBuffer
