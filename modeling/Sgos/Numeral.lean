import Mathlib.Data.Nat.Digits.Defs

/-!
# Numerals

Numbers written with digits, the highest digit first, and the number that digits at the front of a
text are. Reading what was written gives the number.
-/
namespace Sgos.Numeral

/-- The character of a digit. `ten` is the character of the digit ten, and the characters of the
digits above follow it. -/
def digitChar (ten : UInt8) (d : ℕ) : UInt8 :=
  if d < 10 then 48 + UInt8.ofNat d else ten + UInt8.ofNat (d - 10)

/-- The digits of a number in base `b`. -/
def numeral (ten : UInt8) (b n : ℕ) : List UInt8 :=
  if n = 0 then [48] else ((Nat.digits b n).map (digitChar ten)).reverse

/-- The number that digits are, behind the digits of `acc`. -/
def value (b acc : ℕ) (ds : List ℕ) : ℕ := ds.foldl (fun a d => a * b + d) acc

/-- The number that the digits at the front of a text are, and the text behind them. -/
def readNumeral (digit : UInt8 → Option ℕ) (b : ℕ) : ℕ → List UInt8 → ℕ × List UInt8
  | acc, [] => (acc, [])
  | acc, c :: cs => (digit c).elim (acc, c :: cs) fun d => readNumeral digit b (acc * b + d) cs

variable {digit : UInt8 → Option ℕ} {ten : UInt8} {b n acc : ℕ} {ds : List ℕ} {rest : List UInt8}

lemma le_value (hb : 1 ≤ b) (acc : ℕ) (ds : List ℕ) : acc ≤ value b acc ds := by
  induction ds generalizing acc with
  | nil => exact le_rfl
  | cons d ds ih =>
    calc acc ≤ acc * b + d := (Nat.le_mul_of_pos_right acc hb).trans (Nat.le_add_right _ _)
      _ ≤ value b acc (d :: ds) := ih _

lemma value_reverse (b : ℕ) (ds : List ℕ) : value b 0 ds.reverse = Nat.ofDigits b ds := by
  rw [value, List.foldl_reverse, Nat.ofDigits_eq_foldr]
  congr
  funext d a
  simp [Nat.mul_comm, Nat.add_comm]

theorem value_digits (b n : ℕ) : value b 0 (Nat.digits b n).reverse = n := by
  rw [value_reverse, Nat.ofDigits_digits]

lemma readNumeral_rest (hrest : ∀ c ∈ rest.head?, digit c = none) (acc : ℕ) :
    readNumeral digit b acc rest = (acc, rest) := by
  cases rest with
  | nil => rfl
  | cons c cs => rw [readNumeral, hrest c rfl, Option.elim_none]

/-- Digits are read up to the first character that is none. -/
lemma readNumeral_map {char : ℕ → UInt8} (hdigit : ∀ d ∈ ds, digit (char d) = some d)
    (hrest : ∀ c ∈ rest.head?, digit c = none) (acc : ℕ) :
    readNumeral digit b acc (ds.map char ++ rest) = (value b acc ds, rest) := by
  induction ds generalizing acc with
  | nil => exact readNumeral_rest hrest acc
  | cons d ds ih =>
    rw [List.map_cons, List.cons_append, readNumeral, hdigit d List.mem_cons_self,
      Option.elim_some, ih fun e he => hdigit e (List.mem_cons_of_mem d he)]
    rfl

/-- Zeros in front change no number. -/
lemma value_zeros (b k : ℕ) (ds : List ℕ) :
    value b 0 (List.replicate k 0 ++ ds) = value b 0 ds := by
  induction k with
  | zero => rfl
  | succ k ih =>
    rw [List.replicate_succ, List.cons_append, value, List.foldl_cons, Nat.zero_mul]
    exact ih

lemma numeral_eq_map (hb : 1 < b) (ten : UInt8) (n : ℕ) :
    ∃ ds, numeral ten b n = ds.map (digitChar ten) ∧ value b 0 ds = n ∧ (∀ d ∈ ds, d < b) ∧
      ds ≠ [] := by
  by_cases hn : n = 0
  · refine ⟨[0], ?_, ?_, fun d hd => ?_, List.cons_ne_nil _ _⟩
    · rw [numeral, if_pos hn]
      rfl
    · rw [hn, value, List.foldl_cons, List.foldl_nil, Nat.zero_mul]
    · obtain rfl := List.mem_singleton.mp hd
      omega
  · refine ⟨(Nat.digits b n).reverse, ?_, value_digits b n, fun d hd => ?_, ?_⟩
    · rw [numeral, if_neg hn, List.map_reverse]
    · exact Nat.digits_lt_base hb (List.mem_reverse.mp hd)
    · rw [ne_eq, List.reverse_eq_nil_iff]
      exact Nat.digits_ne_nil_iff_ne_zero.mpr hn

end Sgos.Numeral
