import Sgos.Numeral
import Sgos.Printf

/-!
# What formatted output prints

Every directive prints a field: a head of a sign and a mark of the base, a body of digits or of
characters, and padding up to the width. The format is printed piece by piece. A number that is
printed is read back by `simple_strtoul`.
-/
namespace Sgos.Printf
open Numeral

/-! ## Fields -/

/-- A head and a body in a field. Zeros are put between the two, blanks in front or behind. -/
def field (left zero : Bool) (width : ℕ) (head body : List UInt8) : List UInt8 :=
  let pad := width - (head.length + body.length)
  if left then head ++ body ++ List.replicate pad 32
  else if zero then head ++ List.replicate pad 48 ++ body
  else List.replicate pad 32 ++ head ++ body

/-- The sign in front of a number. -/
def signs (flags : Flags) (num : UInt32) : List UInt8 :=
  if flags.sign ∧ num.toInt32 < 0 then [45] else if flags.plus then [43]
  else if flags.space then [32] else []

/-- The number without its sign. -/
def magnitude (flags : Flags) (num : UInt32) : ℕ :=
  if flags.sign then num.toInt32.toInt.natAbs else num.toNat

/-- The digits of a number, at least as many as the precision says. -/
def figures (flags : Flags) (base : ℕ) (precision : Option ℕ) (num : UInt32) : List UInt8 :=
  let ds := numeral (if flags.small then 97 else 65) base (magnitude flags num)
  List.replicate (precision.getD 0 - ds.length) 48 ++ ds

def numberField (flags : Flags) (base : ℕ) (width precision : Option ℕ) (num : UInt32) :
    List UInt8 :=
  field flags.left flags.zeropad (width.getD 0) (signs flags num ++ mark flags base)
    (figures flags base precision num)

/-- A width or a precision as the code has it. -/
def amount (n : Option ℕ) : ℤ := n.elim (-1) fun n => n

/-! ## Numbers -/

variable {flags : Flags} {num : UInt32} {base : ℕ} {size : ℤ}

lemma digits_eq (small : Bool) (d : ℕ) :
    digits small d = digitChar (if small then 97 else 65) d := rfl

lemma divide_eq (small : Bool) (hbase : 1 < base) (room n : ℕ) (h : n < base ^ room) :
    divide small base room n =
      (Nat.digits base n).map (digitChar (if small then 97 else 65)) := by
  induction room generalizing n with
  | zero =>
    obtain rfl : n = 0 := by simpa using h
    rw [divide, Nat.digits_zero, List.map_nil]
  | succ room ih =>
    by_cases hn : n = 0
    · rw [hn, divide, if_neg (by simp), Nat.digits_zero, List.map_nil]
    · have hdiv : n / base < base ^ room := by
        rw [Nat.div_lt_iff_lt_mul (by omega), ← Nat.pow_succ]
        exact h
      rw [divide, if_pos hn, ih _ hdiv, Nat.digits_def' hbase (Nat.pos_of_ne_zero hn), List.map_cons,
        digits_eq]

/-- The characters of `tmp`, in their order. -/
lemma tmp_eq (small : Bool) (hbase : 1 < base) (n : UInt32) :
    (if n = 0 then [48] else divide small base 36 n.toNat).reverse =
      numeral (if small then 97 else 65) base n.toNat := by
  have hfit : n.toNat < base ^ 36 :=
    calc n.toNat < 2 ^ 32 := n.toNat_lt
      _ ≤ 2 ^ 36 := by decide
      _ ≤ base ^ 36 := Nat.pow_le_pow_left hbase 36
  by_cases hn : n = 0
  · rw [hn]
    rfl
  · have hnat : n.toNat ≠ 0 := fun h => hn (UInt32.toNat_inj.mp h)
    rw [if_neg hn, divide_eq small hbase 36 _ hfit, numeral, if_neg hnat]

lemma signs_eq (flags : Flags) (num : UInt32) :
    (if signChar flags num ≠ 0 then [signChar flags num] else []) = signs flags num := by
  unfold signs signChar
  split_ifs <;> simp_all

lemma sign_size (flags : Flags) (num : UInt32) (size : ℤ) :
    (if signChar flags num ≠ 0 then size - 1 else size) = size - (signs flags num).length := by
  rw [← signs_eq]
  split_ifs <;> simp

lemma markSize_eq (flags : Flags) (base : ℕ) (size : ℤ) :
    markSize flags base size = size - (mark flags base).length := by
  unfold markSize mark
  by_cases h : base = 8
  · simp [h]
    split_ifs <;> simp
  · split_ifs <;> simp

lemma toNat_magnitude (flags : Flags) (num : UInt32) :
    (if flags.sign ∧ num.toInt32 < 0 then -num else num).toNat = magnitude flags num := by
  have hlt := num.toNat_lt
  have hint : num.toInt32.toInt = (num.toNat : ℤ).bmod 4294967296 := by
    have hval : num.toInt32.toInt = num.toBitVec.toInt := rfl
    rw [hval, BitVec.toInt_eq_toNat_bmod, UInt32.toNat_toBitVec]
  have hzero : (0 : Int32).toInt = 0 := rfl
  unfold magnitude
  by_cases hs : flags.sign
  · simp only [hs, true_and, if_true, Int32.lt_iff_toInt_lt, hzero]
    rcases Nat.lt_or_ge num.toNat 2147483648 with hsmall | hlarge
    · have hval : num.toInt32.toInt = num.toNat := by
        rw [hint, Int.bmod_def]
        omega
      rw [hval, if_neg (by omega), Int.natAbs_natCast]
    · have hval : num.toInt32.toInt = num.toNat - 4294967296 := by
        rw [hint, Int.bmod_def]
        omega
      rw [hval, if_pos (by omega), UInt32.toNat_neg, UInt32.size]
      omega
  · simp [hs]

/-- What is written is a field. -/
lemma layOut_eq (zero left : Bool) (flags : Flags) (num : UInt32) (special tmp : List UInt8)
    {width : Option ℕ} {size precision : ℤ} (hprec : tmp.length ≤ precision)
    (hsize : size = amount width - (signs flags num).length - special.length - precision) :
    layOut (zero && !left) left (signChar flags num) special tmp size precision =
      field left zero (width.getD 0) (signs flags num ++ special)
        (List.replicate (precision - tmp.length).toNat 48 ++ tmp.reverse) := by
  have hpad : size.toNat = width.getD 0 - ((signs flags num ++ special).length +
      (List.replicate (precision - tmp.length).toNat (48 : UInt8) ++ tmp.reverse).length) := by
    rw [List.length_append, List.length_append, List.length_replicate, List.length_reverse]
    cases width with
    | none =>
      rw [amount, Option.elim_none] at hsize
      rw [Option.getD_none]
      omega
    | some w =>
      rw [amount, Option.elim_some] at hsize
      rw [Option.getD_some]
      omega
  have hnone : (min size 0 - 1).toNat = 0 := by omega
  simp only [layOut, signs_eq, field, spin, ← hpad]
  generalize List.replicate (precision - tmp.length).toNat (48 : UInt8) = zeros
  cases left <;> cases zero <;> simp [hnone]

/-- `number` writes a field with the digits of the number. -/
theorem number_eq (hbase : 1 < base ∧ base ≤ 36) (num : UInt32) (width precision : Option ℕ)
    (flags : Flags) : number num base (amount width) (amount precision) flags =
      some (numberField flags base width precision num) := by
  have hnot : ¬(base < 2 ∨ base > 36) := by omega
  simp only [number, if_neg hnot, sign_size, markSize_eq]
  have htmp := (tmp_eq flags.small hbase.1
    (if flags.sign ∧ num.toInt32 < 0 then -num else num)).trans
    (congrArg (numeral _ base) (toNat_magnitude flags num))
  generalize (if (if flags.sign ∧ num.toInt32 < 0 then -num else num) = 0 then [48]
    else divide flags.small base 36 (if flags.sign ∧ num.toInt32 < 0 then -num else num).toNat) =
    tmp at htmp ⊢
  rw [Option.some.injEq, @layOut_eq flags.zeropad flags.left flags num (mark flags base) tmp
    width _ _ (by split_ifs <;> omega) rfl]
  have hlen : (numeral (if flags.small then 97 else 65) base (magnitude flags num)).length =
      tmp.length := by
    rw [← htmp, List.length_reverse]
  have hzeros : ((if (tmp.length : ℤ) > amount precision then (tmp.length : ℤ)
      else amount precision) - tmp.length).toNat = precision.getD 0 - tmp.length := by
    cases precision with
    | none =>
      rw [amount, Option.elim_none, if_pos (by omega), Option.getD_none]
      omega
    | some p =>
      rw [amount, Option.elim_some, Option.getD_some]
      split_ifs <;> omega
  rw [numberField, figures, hlen, hzeros, htmp]

/-! ## Formats -/

/-- The characters `- + space # 0`. -/
def isFlag (c : UInt8) : Bool := c = 45 ∨ c = 43 ∨ c = 32 ∨ c = 35 ∨ c = 48

/-- The characters `h l L`. -/
def isQualifier (c : UInt8) : Bool := c = 104 ∨ c = 108 ∨ c = 76

/-- A directive with its flags, the digits of its width and of its precision, its qualifier and its
conversion. -/
structure Directive where
  flags : List UInt8
  width : List ℕ
  precision : Option (List ℕ)
  qualifier : Option UInt8
  conv : UInt8

/-- A format is made of characters, directives, and directives that take their width or their
precision from an argument. -/
inductive Item
  | text (c : UInt8)
  | directive (d : Directive)
  | starWidth (flags : List UInt8)
  | starPrecision (flags : List UInt8) (width : List ℕ)

/-- Digits of a number that an `int` holds. -/
structure IsNumber (ds : List ℕ) : Prop where
  lt : ∀ d ∈ ds, d < 10
  fits : value 10 0 ds < 2147483648

/-- Digits of a width do not start with a zero, which is a flag. -/
structure IsWidth (ds : List ℕ) : Prop extends IsNumber ds where
  head : ds.head? ≠ some 0

structure Directive.Proper (d : Directive) : Prop where
  flags : ∀ c ∈ d.flags, isFlag c
  width : IsWidth d.width
  precision : ∀ ds ∈ d.precision, IsNumber ds
  qualifier : ∀ c ∈ d.qualifier, isQualifier c
  conv_flag : isFlag d.conv = false
  conv_digit : isDigit d.conv = false
  conv_qualifier : isQualifier d.conv = false
  conv_ne : d.conv ≠ 0 ∧ d.conv ≠ 42 ∧ d.conv ≠ 46

def Item.Proper : Item → Prop
  | .text c => c ≠ 0 ∧ c ≠ 37
  | .directive d => d.Proper
  | .starWidth flags => ∀ c ∈ flags, isFlag c
  | .starPrecision flags width => (∀ c ∈ flags, isFlag c) ∧ IsWidth width

/-- The characters of digits. -/
def numerals (ds : List ℕ) : List UInt8 := ds.map (digitChar 97)

def Item.encode : Item → List UInt8
  | .text c => [c]
  | .directive d => 37 :: (d.flags ++ (numerals d.width ++ (d.precision.elim []
      (fun ds => 46 :: numerals ds) ++ (d.qualifier.toList ++ [d.conv]))))
  | .starWidth flags => 37 :: (flags ++ [42])
  | .starPrecision flags width => 37 :: (flags ++ (numerals width ++ [46, 42]))

/-! ## What a format means -/

def flagsOf (fs : List UInt8) : Flags :=
  { noFlags with zeropad := 48 ∈ fs, plus := 43 ∈ fs, space := 32 ∈ fs, left := 45 ∈ fs,
                 special := 35 ∈ fs }

namespace Directive

def minWidth (d : Directive) : Option ℕ := if d.width = [] then none else some (value 10 0 d.width)

def limit (d : Directive) : Option ℕ := d.precision.map (value 10 0)

/-- The field that an argument is printed in. -/
def meaning (text : UInt32 → List UInt8) (d : Directive) (arg : UInt32) : List UInt8 :=
  let flags := flagsOf d.flags
  match conversion d.conv with
  | .char => field flags.left false (d.minWidth.getD 0) [] [arg.toUInt8]
  | .string =>
    let s := if arg = 0 then nullText else text arg
    field flags.left false (d.minWidth.getD 0) [] (s.take (d.limit.getD s.length))
  | .octal => numberField flags 8 d.minWidth d.limit arg
  | .pointer =>
    if d.minWidth = none then numberField { flags with zeropad := true } 16 (some 8) d.limit arg
    else numberField flags 16 d.minWidth d.limit arg
  | .hexSmall => numberField { flags with small := true } 16 d.minWidth d.limit arg
  | .hex => numberField flags 16 d.minWidth d.limit arg
  | .signed => numberField { flags with sign := true } 10 d.minWidth d.limit arg
  | .unsigned => numberField flags 10 d.minWidth d.limit arg
  | _ => []

end Directive

/-- What an item prints, and which arguments it takes. -/
def render (text : UInt32 → List UInt8) (args : ℕ → UInt32) (s : State) : Item → State
  | .text c => s.put [c]
  | .directive d =>
    match conversion d.conv with
    | .other => s.put (if d.conv = 37 then [37] else [37, d.conv])
    | .count => { s with arg := s.arg + 1, counts := (args s.arg, s.str.length) :: s.counts }
    | _ => { s with arg := s.arg + 1, str := s.str ++ d.meaning text (args s.arg) }
  | .starWidth _ => { s with arg := s.arg + 1, str := s.str ++ [37, 42] }
  | .starPrecision _ _ => { s with arg := s.arg + 1, str := s.str ++ [37, 42] }

/-! ## Reading a directive -/

variable {fs rest fmt : List UInt8} {ds : List ℕ} {s : State} {text : UInt32 → List UInt8}
  {args : ℕ → UInt32} {d : Directive}

lemma skipFlags_rest (flags : Flags) (hrest : ∀ c ∈ rest.head?, isFlag c = false) :
    skipFlags flags rest = (flags, rest) := by
  cases rest with
  | nil => rfl
  | cons c cs =>
    have hc := hrest c rfl
    simp only [isFlag, decide_eq_false_iff_not, not_or] at hc
    simp [skipFlags, hc]

/-- The flags that are named are set. -/
lemma skipFlags_append (flags : Flags) (hfs : ∀ c ∈ fs, isFlag c)
    (hrest : ∀ c ∈ rest.head?, isFlag c = false) : skipFlags flags (fs ++ rest) =
      ({ flags with
          zeropad := flags.zeropad || decide (48 ∈ fs), plus := flags.plus || decide (43 ∈ fs),
          space := flags.space || decide (32 ∈ fs), left := flags.left || decide (45 ∈ fs),
          special := flags.special || decide (35 ∈ fs) }, rest) := by
  induction fs generalizing flags with
  | nil => simpa using skipFlags_rest flags hrest
  | cons c cs ih =>
    have hc := hfs c List.mem_cons_self
    have hcs := fun flags => ih flags fun e he => hfs e (List.mem_cons_of_mem c he)
    simp only [isFlag, decide_eq_true_eq] at hc
    rcases hc with rfl | rfl | rfl | rfl | rfl <;> simp [skipFlags, hcs]

lemma isDigit_digitChar {x : ℕ} (hx : x < 10) :
    isDigit (digitChar 97 x) = true ∧ (digitChar 97 x).toNat = 48 + x := by
  revert x
  decide

lemma skipAtoi_rest (i : ℤ) (hrest : ∀ c ∈ rest.head?, isDigit c = false) :
    skipAtoi i rest = (i, rest) := by
  cases rest with
  | nil => rfl
  | cons c cs => rw [skipAtoi, if_neg (by rw [hrest c rfl]; decide)]

/-- The digits are read as the number that they are. -/
lemma skipAtoi_append (hds : ∀ x ∈ ds, x < 10) (hrest : ∀ c ∈ rest.head?, isDigit c = false)
    (i : ℕ) (hfits : value 10 i ds < 2147483648) :
    skipAtoi i (numerals ds ++ rest) = (((value 10 i ds : ℕ) : ℤ), rest) := by
  induction ds generalizing i with
  | nil => exact skipAtoi_rest i hrest
  | cons x ds ih =>
    obtain ⟨hdigit, hnat⟩ := isDigit_digitChar (hds x List.mem_cons_self)
    have hle := (le_value (by decide) (i * 10 + x) ds).trans_lt hfits
    have hint : int ((i : ℤ) * 10 + (digitChar 97 x).toNat - 48) = ((i * 10 + x : ℕ) : ℤ) := by
      rw [hnat, int, Int.bmod_def]
      omega
    rw [numerals, List.map_cons, List.cons_append, skipAtoi, if_pos hdigit, hint]
    exact ih (fun y hy => hds y (List.mem_cons_of_mem x hy)) _ hfits

/-- The text does not start with such a character. -/
def Stops (p : UInt8 → Bool) (cs : List UInt8) : Prop := ∀ c ∈ cs.head?, p c = false

lemma Stops.cons {p : UInt8 → Bool} {c : UInt8} (h : p c = false) (cs : List UInt8) :
    Stops p (c :: cs) := by
  intro e he
  obtain rfl := Option.some.inj he
  exact h

lemma Stops.append {p : UInt8 → Bool} {cs : List UInt8} (h : Stops p cs) (hrest : Stops p rest) :
    Stops p (cs ++ rest) := by
  cases cs with
  | nil => exact hrest
  | cons c cs => exact Stops.cons (h c rfl) _

/-- The characters that a part of a directive in front of the conversion starts with. -/
def isStart (c : UInt8) : Bool := isFlag c || isDigit c || c == 42 || c == 46

lemma isStart_eq_false {c : UInt8} : isStart c = false ↔
    isFlag c = false ∧ isDigit c = false ∧ c ≠ 42 ∧ c ≠ 46 := by
  simp [isStart, and_assoc]

lemma isStart_of_isQualifier {c : UInt8} (h : isQualifier c) : isStart c = false := by
  simp only [isQualifier, decide_eq_true_eq] at h
  rcases h with rfl | rfl | rfl <;> decide

lemma fieldWidth_rest (flags : Flags) (hdigit : Stops isDigit rest) (hstar : Stops (· == 42) rest)
    (s : State) : fieldWidth args flags rest s = (-1, flags, rest, s) := by
  cases rest with
  | nil => rfl
  | cons c cs =>
    have hc : c ≠ 42 := by simpa using hstar c rfl
    rw [fieldWidth, if_neg (by rw [hdigit c rfl]; decide), if_neg hc]

lemma fieldWidth_append (flags : Flags) (hds : IsNumber ds) (hdigit : Stops isDigit rest)
    (hstar : Stops (· == 42) rest) (s : State) :
    fieldWidth args flags (numerals ds ++ rest) s =
      (amount (if ds = [] then none else some (value 10 0 ds)), flags, rest, s) := by
  cases ds with
  | nil => exact fieldWidth_rest flags hdigit hstar s
  | cons x ds =>
    have hread := skipAtoi_append hds.lt hdigit 0 hds.fits
    rw [numerals, List.map_cons, List.cons_append] at hread ⊢
    rw [fieldWidth, if_pos (isDigit_digitChar (hds.lt x List.mem_cons_self)).1]
    rw [Nat.cast_zero] at hread
    rw [hread, if_neg (List.cons_ne_nil x ds)]
    rfl

lemma getPrecision_append {precision : Option (List ℕ)} (hds : ∀ ds ∈ precision, IsNumber ds)
    (hdigit : Stops isDigit rest) (hstar : Stops (· == 42) rest) (hdot : Stops (· == 46) rest)
    (s : State) :
    getPrecision args (precision.elim [] (fun ds => 46 :: numerals ds) ++ rest) s =
      (amount (precision.map (value 10 0)), rest, s) := by
  rcases precision with _ | ds
  · cases rest with
    | nil => rfl
    | cons c cs =>
      have hc : c ≠ 46 := by simpa using hdot c rfl
      simp only [Option.elim_none, List.nil_append, getPrecision, if_neg hc]
      rfl
  · have hnumber := hds ds rfl
    rw [Option.elim_some, List.cons_append]
    cases ds with
    | nil =>
      cases rest with
      | nil => rfl
      | cons c cs =>
        have hc : c ≠ 42 := by simpa using hstar c rfl
        simp only [numerals, List.map_nil, List.nil_append, getPrecision, if_true,
          hdigit c rfl, Bool.false_eq_true, if_false, if_neg hc]
        rfl
    | cons x ds =>
      have hread := skipAtoi_append hnumber.lt hdigit 0 hnumber.fits
      rw [numerals, List.map_cons, List.cons_append] at hread ⊢
      rw [Nat.cast_zero] at hread
      simp only [getPrecision, if_true, (isDigit_digitChar (hnumber.lt x List.mem_cons_self)).1,
        hread]
      rw [max_eq_left (Int.natCast_nonneg _)]
      rfl

lemma skipQualifier_append {qualifier : Option UInt8} (h : ∀ c ∈ qualifier, isQualifier c)
    {c : UInt8} (hc : isQualifier c = false) (cs : List UInt8) :
    skipQualifier (qualifier.toList ++ c :: cs) = c :: cs := by
  rcases qualifier with _ | q
  · simp only [isQualifier, decide_eq_false_iff_not] at hc
    rw [Option.toList_none, List.nil_append, skipQualifier, if_neg hc]
  · have hq := h q rfl
    simp only [isQualifier, decide_eq_true_eq] at hq
    rw [Option.toList_some, List.cons_append, List.nil_append, skipQualifier, if_pos hq]

/-! ## The meaning of a directive -/

/-- A character is put into its field. -/
lemma putChar_eq (flags : Flags) {width : Option ℕ} (c : UInt8) :
    putChar flags (amount width) c = field flags.left false (width.getD 0) [] [c] := by
  have hpad : (amount width - 1).toNat = width.getD 0 - 1 := by
    cases width <;> simp [amount]
  have hnone : (min (amount width - 1) 0 - 1 - 1).toNat = 0 := by omega
  cases h : flags.left <;> simp [putChar, field, h, spin, hpad, hnone]

/-- A string, or its front, is put into its field. -/
lemma putString_eq (flags : Flags) {width precision : Option ℕ} {p : UInt32} {str : List UInt8}
    (hstr : (if p = 0 then nullText else text p) = str) :
    putString text flags (amount width) (amount precision) p =
      field flags.left false (width.getD 0) [] (str.take (precision.getD str.length)) := by
  have htake : (if amount precision < 0 then (str.length : ℤ)
      else if (str.length : ℤ) > amount precision then amount precision else str.length) =
      (str.take (precision.getD str.length)).length := by
    rw [List.length_take]
    cases precision with
    | none => simp [amount]
    | some n =>
      rw [amount, Option.elim_some, Option.getD_some, if_neg (by omega)]
      split_ifs <;> omega
  have hself : str.take (str.take (precision.getD str.length)).length =
      str.take (precision.getD str.length) := by
    rw [List.length_take, List.take_eq_take_iff]
    omega
  simp only [putString, hstr, htake, Int.toNat_natCast, hself]
  generalize str.take (precision.getD str.length) = shown
  have hpad : (amount width - shown.length).toNat = width.getD 0 - shown.length := by
    cases width <;> simp [amount]
  have hnone : (min (amount width - shown.length) 0 - 1).toNat = 0 := by omega
  cases h : flags.left <;> simp [field, spin, hpad, hnone]

/-- The conversion prints what the directive means. -/
lemma convert_eq (d : Directive) (s : State) :
    convert text args (flagsOf d.flags) (amount d.minWidth) (amount d.limit) d.conv s =
      render text args s (.directive d) := by
  have hten : 1 < 10 ∧ 10 ≤ 36 := by decide
  have height : 1 < 8 ∧ 8 ≤ 36 := by decide
  have hsixteen : 1 < 16 ∧ 16 ≤ 36 := by decide
  have hpointer (num : UInt32) (flags : Flags) : number num 16 8 (amount d.limit) flags =
      some (numberField flags 16 (some 8) d.limit num) := number_eq hsixteen num (some 8) _ _
  have hminus : amount d.minWidth = -1 ↔ d.minWidth = none := by
    cases d.minWidth <;> simp [amount]
  simp only [convert, render, Directive.meaning, hminus, putChar_eq, putString_eq _ rfl,
    hpointer, number_eq hten, number_eq height, number_eq hsixteen, Option.getD_some]
  cases conversion d.conv with
  | pointer => split_ifs <;> rfl
  | other => split_ifs <;> simp_all
  | _ => rfl

lemma flagsOf_eq (hfs : ∀ c ∈ fs, isFlag c) (hrest : Stops isFlag rest) :
    skipFlags noFlags (fs ++ rest) = (flagsOf fs, rest) :=
  skipFlags_append noFlags hfs hrest

lemma stops_numerals (h : IsWidth ds) (hrest : Stops isFlag rest) :
    Stops isFlag (numerals ds ++ rest) := by
  cases ds with
  | nil => exact hrest
  | cons x ds =>
    have hflag : ∀ x < 10, x ≠ 0 → isFlag (digitChar 97 x) = false := by decide
    exact Stops.cons (hflag x (h.lt x List.mem_cons_self) fun he => h.head (by rw [he]; rfl)) _

/-- A directive is read to its end and does what it means. -/
lemma directive_eq (hd : d.Proper) (fmt : List UInt8) (s : State) :
    directive text args (d.flags ++ (numerals d.width ++ (d.precision.elim []
      (fun ds => 46 :: numerals ds) ++ (d.qualifier.toList ++ d.conv :: fmt)))) s =
      (fmt, render text args s (.directive d)) := by
  have hconv : isStart d.conv = false :=
    isStart_eq_false.mpr ⟨hd.conv_flag, hd.conv_digit, hd.conv_ne.2.1, hd.conv_ne.2.2⟩
  -- neither the qualifier nor the conversion can be taken for an earlier part
  have hend : Stops isStart (d.qualifier.toList ++ d.conv :: fmt) := by
    refine Stops.append (fun c hc => ?_) (Stops.cons hconv fmt)
    cases hq : d.qualifier with
    | none => simp [hq] at hc
    | some q =>
      obtain rfl : q = c := by simpa [hq] using hc
      exact isStart_of_isQualifier (hd.qualifier q hq)
  generalize hlast : d.qualifier.toList ++ d.conv :: fmt = last at hend
  have hmono {p : UInt8 → Bool} (hp : ∀ c, isStart c = false → p c = false) : Stops p last :=
    fun c hc => hp c (hend c hc)
  have hdot : ∀ ds, Stops isDigit (46 :: ds) ∧ Stops (· == 42) (46 :: ds) ∧
      Stops isFlag (46 :: ds) := fun ds => ⟨Stops.cons (by decide) _, Stops.cons (by decide) _,
    Stops.cons (by decide) _⟩
  have hdigit := hmono (p := isDigit) fun c hc => (isStart_eq_false.mp hc).2.1
  have hstar := hmono (p := (· == 42)) fun c hc => by simpa using (isStart_eq_false.mp hc).2.2.1
  have hpoint := hmono (p := (· == 46)) fun c hc => by simpa using (isStart_eq_false.mp hc).2.2.2
  have hflag := hmono (p := isFlag) fun c hc => (isStart_eq_false.mp hc).1
  have hmiddle : Stops isDigit (d.precision.elim [] (fun ds => 46 :: numerals ds) ++ last) ∧
      Stops (· == 42) (d.precision.elim [] (fun ds => 46 :: numerals ds) ++ last) ∧
      Stops isFlag (d.precision.elim [] (fun ds => 46 :: numerals ds) ++ last) := by
    cases d.precision with
    | none => exact ⟨hdigit, hstar, hflag⟩
    | some ds => exact hdot _
  simp only [directive, flagsOf_eq hd.flags (stops_numerals hd.width hmiddle.2.2),
    fieldWidth_append _ hd.width.toIsNumber hmiddle.1 hmiddle.2.1,
    getPrecision_append hd.precision hdigit hstar hpoint]
  rw [← hlast, skipQualifier_append hd.qualifier hd.conv_qualifier]
  exact congrArg (fmt, ·) (convert_eq d s)

lemma convert_star (flags : Flags) (width precision : ℤ) (s : State) :
    convert text args flags width precision 42 s = s.put [37, 42] := by
  have hother : conversion 42 = .other := by decide
  simp only [convert, hother]
  rfl

lemma skipQualifier_star (fmt : List UInt8) : skipQualifier (42 :: fmt) = 42 :: fmt := by
  simp [skipQualifier]

/-- The star of a width is taken for the conversion. -/
lemma starWidth_eq (hfs : ∀ c ∈ fs, isFlag c) (fmt : List UInt8) (s : State) :
    directive text args (fs ++ 42 :: fmt) s = (fmt, render text args s (.starWidth fs)) := by
  have hflag : Stops isFlag (42 :: fmt) := Stops.cons (by decide) _
  have hwidth : ∃ width flags, fieldWidth args (flagsOf fs) (42 :: fmt) s =
      (width, flags, 42 :: fmt, { s with arg := s.arg + 1 }) := by
    simp only [fieldWidth]
    split_ifs with hdigit
    · cases hdigit
    · exact ⟨_, _, rfl⟩
    · exact ⟨_, _, rfl⟩
  obtain ⟨width, flags, hwidth⟩ := hwidth
  have hpoint : getPrecision args (42 :: fmt) { s with arg := s.arg + 1 } =
      (-1, 42 :: fmt, { s with arg := s.arg + 1 }) := by
    simp [getPrecision]
  simp only [directive, flagsOf_eq hfs hflag, hwidth, hpoint, skipQualifier_star, convert_star]
  rfl

/-- So is the star of a precision. -/
lemma starPrecision_eq (hfs : ∀ c ∈ fs, isFlag c) (hds : IsWidth ds) (fmt : List UInt8)
    (s : State) : directive text args (fs ++ (numerals ds ++ 46 :: 42 :: fmt)) s =
      (fmt, render text args s (.starPrecision fs ds)) := by
  have hflag : Stops isFlag (46 :: 42 :: fmt) := Stops.cons (by decide) _
  have hdigit : Stops isDigit (46 :: 42 :: fmt) := Stops.cons (by decide) _
  have hstar : Stops (· == 42) (46 :: 42 :: fmt) := Stops.cons (by decide) _
  have hpoint : getPrecision args (46 :: 42 :: fmt) s =
      (max (args s.arg).toInt32.toInt 0, 42 :: fmt, { s with arg := s.arg + 1 }) := by
    simp [getPrecision, isDigit]
  simp only [directive, flagsOf_eq hfs (stops_numerals hds hflag),
    fieldWidth_append _ hds.toIsNumber hdigit hstar, hpoint, skipQualifier_star, convert_star]
  rfl

/-! ## The whole format -/

/-- One item is printed in one turn. -/
lemma vsprintfLoop_item {i : Item} (hi : i.Proper) (fuel : ℕ) (fmt : List UInt8) (s : State) :
    vsprintfLoop text args (fuel + 1) (i.encode ++ fmt) s =
      vsprintfLoop text args fuel fmt (render text args s i) := by
  cases i with
  | text c => simp only [Item.encode, List.cons_append, List.nil_append, vsprintfLoop,
      if_pos hi.2, render]
  | directive d =>
    simp only [Item.encode, List.cons_append, List.append_assoc, List.nil_append, vsprintfLoop,
      ne_eq, not_true_eq_false, if_false, directive_eq hi]
  | starWidth flags =>
    simp only [Item.encode, List.cons_append, List.append_assoc, List.nil_append, vsprintfLoop,
      ne_eq, not_true_eq_false, if_false, starWidth_eq hi]
  | starPrecision flags width =>
    simp only [Item.encode, List.cons_append, List.append_assoc, List.nil_append, vsprintfLoop,
      ne_eq, not_true_eq_false, if_false, starPrecision_eq hi.1 hi.2]

lemma encode_pos (i : Item) : 0 < i.encode.length := by
  cases i <;> simp [Item.encode]

lemma vsprintfLoop_eq {items : List Item} (h : ∀ i ∈ items, i.Proper) (fuel : ℕ)
    (hfuel : (items.flatMap Item.encode).length ≤ fuel) (s : State) :
    vsprintfLoop text args fuel (items.flatMap Item.encode) s =
      items.foldl (render text args) s := by
  induction items generalizing fuel s with
  | nil => cases fuel <;> rfl
  | cons i items ih =>
    have hpos := encode_pos i
    rw [List.flatMap_cons, List.length_append] at hfuel
    obtain ⟨fuel, rfl⟩ : ∃ k, fuel = k + 1 := ⟨fuel - 1, by omega⟩
    rw [List.flatMap_cons, vsprintfLoop_item (h i List.mem_cons_self),
      ih (fun j hj => h j (List.mem_cons_of_mem i hj)) fuel (by omega), List.foldl_cons]

/-- `vsprintf` prints the items of its format one after the other, whatever arguments there are:
every directive as its field, and a star as text that uses up an argument. -/
theorem vsprintf_encode (text : UInt32 → List UInt8) (args : ℕ → UInt32) {items : List Item}
    (h : ∀ i ∈ items, i.Proper) : vsprintf text args (items.flatMap Item.encode) =
      items.foldl (render text args) ⟨[], 0, []⟩ :=
  vsprintfLoop_eq h _ le_rfl _

/-- The format `a%-5d%#.4lx%*`. -/
def sample : List Item :=
  [.text 97, .directive ⟨[45], [5], none, none, 100⟩,
    .directive ⟨[35], [], some [4], some 108, 120⟩, .starWidth []]

lemma isNumber_singleton {x : ℕ} (hx : x < 10) : IsNumber [x] where
  lt d hd := by rwa [List.mem_singleton.mp hd]
  fits := by simp [value]; omega

lemma isWidth_nil : IsWidth [] where
  lt := by simp
  fits := by simp [value]
  head := by simp

theorem vsprintf_encode_sample :
    vsprintf (fun _ => []) (fun i => UInt32.ofNat (40 + i)) (sample.flatMap Item.encode) =
      sample.foldl (render (fun _ => []) fun i => UInt32.ofNat (40 + i)) ⟨[], 0, []⟩ := by
  refine vsprintf_encode _ _ fun i hi => ?_
  simp only [sample, List.mem_cons, List.not_mem_nil, or_false] at hi
  rcases hi with rfl | rfl | rfl | rfl
  · exact ⟨by decide, by decide⟩
  · exact ⟨by simp [isFlag], ⟨isNumber_singleton (by decide), by decide⟩, by simp, by simp,
      by decide, by decide, by decide, by decide⟩
  · exact ⟨by simp [isFlag], isWidth_nil, by simpa using isNumber_singleton (by decide),
      by simp [isQualifier], by decide, by decide, by decide, by decide⟩
  · simp [Item.Proper]

/-! ## Reading a printed number -/

/-- The digits that `simple_strtoul` takes in a base. -/
def strtoulDigit (base : ℕ) (c : UInt8) : Option ℕ :=
  if isXdigit c ∧ digitValue c < base then some (digitValue c) else none

lemma strtoulDigit_digitChar (hbase : base ≤ 16) (small : Bool) {x : ℕ} (hx : x < base) :
    strtoulDigit base (digitChar (if small then 97 else 65) x) = some x := by
  have hchars : ∀ small : Bool, ∀ x < 16, isXdigit (digitChar (if small then 97 else 65) x) = true ∧
      digitValue (digitChar (if small then 97 else 65) x) = x := by decide
  obtain ⟨hdigit, hvalue⟩ := hchars small x (by omega)
  rw [strtoulDigit, if_pos ⟨hdigit, by rwa [hvalue]⟩, hvalue]

/-- The loop reads a numeral, in numbers of 32 bits. -/
lemma strtoulLoop_eq (base acc : ℕ) (cs : List UInt8) :
    strtoulLoop base (UInt32.ofNat acc) cs =
      (UInt32.ofNat (readNumeral (strtoulDigit base) base acc cs).1,
        (readNumeral (strtoulDigit base) base acc cs).2) := by
  induction cs generalizing acc with
  | nil => rfl
  | cons c cs ih =>
    rw [strtoulLoop, readNumeral, strtoulDigit]
    split_ifs with h
    · rw [← UInt32.ofNat_mul, ← UInt32.ofNat_add, ih, Option.elim_some]
    · rfl

/-- The characters that a number is printed with, and the number that they are. -/
lemma figures_eq {base : ℕ} (hbase : 1 < base) (flags : Flags) (precision : Option ℕ)
    (num : UInt32) : ∃ ds, figures flags base precision num =
        ds.map (digitChar (if flags.small then 97 else 65)) ∧
      value base 0 ds = magnitude flags num ∧ (∀ d ∈ ds, d < base) ∧ ds ≠ [] := by
  obtain ⟨ds, hds, hvalue, hlt, hne⟩ :=
    @numeral_eq_map base hbase (if flags.small then 97 else 65) (magnitude flags num)
  refine ⟨List.replicate (precision.getD 0 - ds.length) 0 ++ ds, ?_, ?_, fun d hd => ?_,
    by simp [hne]⟩
  · simp only [figures, hds, List.length_map, List.map_append, List.map_replicate]
    rfl
  · rw [value_zeros, hvalue]
  · rcases List.mem_append.mp hd with hd | hd
    · rw [List.eq_of_mem_replicate hd]
      omega
    · exact hlt d hd

/-- What is printed without a sign is read back in its base. -/
lemma strtoulLoop_figures (hbase : 1 < base ∧ base ≤ 16) (hsign : flags.sign = false)
    (precision : Option ℕ) (num : UInt32) (hrest : ∀ c ∈ rest.head?, strtoulDigit base c = none) :
    strtoulLoop base 0 (figures flags base precision num ++ rest) = (num, rest) := by
  obtain ⟨ds, hds, hvalue, hlt, -⟩ := figures_eq hbase.1 flags precision num
  have hread := readNumeral_map (b := base)
    (fun d hd => strtoulDigit_digitChar hbase.2 flags.small (hlt d hd)) hrest 0
  have hzero : (0 : UInt32) = UInt32.ofNat 0 := rfl
  rw [hds, hzero, strtoulLoop_eq, hread, hvalue, magnitude, hsign]
  simp

/-- The base that is written with a number: none, or that of a mark that is understood. -/
def Marked (flags : Flags) (base readBase : ℕ) : Prop :=
  flags.special = false ∧ 1 < base ∧ base ≤ 16 ∧ readBase = base ∨
    flags.special = true ∧ base = 8 ∧ readBase = 0 ∨
    flags.special = true ∧ flags.small = true ∧ base = 16 ∧ readBase = 0

lemma digitChar_hex : ∀ small : Bool, ∀ x < 16,
    isXdigit (digitChar (if small then 97 else 65) x) = true ∧
      digitChar (if small then 97 else 65) x ≠ 120 := by decide

lemma findBase_octal {cs : List UInt8} (h : Stops (· == 120) cs) :
    findBase (48 :: cs) = (8, cs) := by
  cases cs with
  | nil => rfl
  | cons c cs =>
    have hc : c ≠ 120 := by simpa using h c rfl
    unfold findBase
    split <;> simp_all

/-- A number that `vsprintf` prints without a sign and without padding is read back by
`simple_strtoul`, whatever its precision and whatever follows that is no digit. With `#` the base is
found out, except that `X` writes a mark that is not understood. -/
theorem strtoul_number {flags : Flags} {base readBase : ℕ} {rest : List UInt8}
    (hplain : flags.sign = false ∧ flags.plus = false ∧ flags.space = false)
    (hmarked : Marked flags base readBase) (precision : Option ℕ) (num : UInt32)
    (hrest : ∀ c ∈ rest.head?, strtoulDigit base c = none) :
    ∃ out, number num base (-1) (amount precision) flags = some out ∧
      simpleStrtoul (out ++ rest) readBase = (num, rest) := by
  have hbase : 1 < base ∧ base ≤ 16 := by
    rcases hmarked with ⟨-, h⟩ | ⟨-, h⟩ | ⟨-, -, h⟩ <;> omega
  have hout := number_eq ⟨hbase.1, hbase.2.trans (by decide)⟩ num none precision flags
  refine ⟨_, hout, ?_⟩
  have hsigns : signs flags num = [] := by
    simp [signs, hplain.1, hplain.2.1, hplain.2.2]
  have hfield : numberField flags base none precision num =
      mark flags base ++ figures flags base precision num := by
    simp [numberField, field, hsigns]
  have hloop := strtoulLoop_figures hbase hplain.1 precision num hrest
  obtain ⟨ds, hds, -, hlt, hne⟩ := figures_eq hbase.1 flags precision num
  rw [hfield]
  rcases hmarked with ⟨hspecial, -, -, rfl⟩ | ⟨hspecial, rfl, rfl⟩ | ⟨hspecial, hsmall, rfl, rfl⟩
  · have hnone : readBase ≠ 0 := by omega
    simp only [simpleStrtoul, mark, hspecial, if_neg hnone, Bool.false_eq_true, if_false,
      List.nil_append, hloop]
  · obtain ⟨d, ds, rfl⟩ := List.exists_cons_of_ne_nil hne
    have hd := hlt d List.mem_cons_self
    have hstop : Stops (· == 120) (figures flags 8 precision num ++ rest) := by
      rw [hds]
      exact Stops.cons (by simpa using (digitChar_hex flags.small d (by omega)).2) _
    simp only [simpleStrtoul, mark, hspecial, if_true, List.nil_append, List.cons_append,
      findBase_octal hstop, hloop]
  · obtain ⟨d, ds, rfl⟩ := List.exists_cons_of_ne_nil hne
    have hx : digits true 33 = 120 := by decide
    have hfirst := (digitChar_hex flags.small d (hlt d List.mem_cons_self)).1
    have hfind : findBase (48 :: 120 :: (figures flags 16 precision num ++ rest)) =
        (16, figures flags 16 precision num ++ rest) := by
      rw [hds, List.map_cons, List.cons_append, findBase, if_pos hfirst]
    have hmark : mark flags 16 = [48, 120] := by
      simp [mark, hspecial, hsmall, hx]
    simp only [simpleStrtoul, hmark, if_true, List.cons_append, List.nil_append, hfind, hloop]

/-- `%#.6x` of 48879, and a blank behind it. -/
theorem strtoul_number_hex : ∃ out,
    number 48879 16 (-1) (amount (some 6))
      ⟨false, false, false, false, false, true, true⟩ = some out ∧
      simpleStrtoul (out ++ [32]) 0 = (48879, [32]) :=
  strtoul_number (by decide) (.inr (.inr ⟨rfl, rfl, rfl, rfl⟩)) (some 6) 48879 fun c hc => by
    obtain rfl := Option.some.inj hc
    rfl

end Sgos.Printf
