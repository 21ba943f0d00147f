import Mathlib.Data.UInt
import Mathlib.Data.Int.Basic

/-!
# Formatted output

`vsprintf` of `kernel/lib/vsprintf.c` and `api/vsprintf.c`: the loop over the format, the flags,
width and precision of a directive, its conversion, and `number`, which lays out a number in its
field; and `simple_strtoul`, which reads a number. The arguments are the words of the stack from the
first one on. `text` is the string at an address.
-/
namespace Sgos.Printf

/-- The flags of `number`. -/
structure Flags where
  zeropad : Bool
  sign : Bool
  plus : Bool
  space : Bool
  left : Bool
  special : Bool
  small : Bool

def noFlags : Flags := ⟨false, false, false, false, false, false, false⟩

def isDigit (c : UInt8) : Bool := 48 ≤ c ∧ c ≤ 57

/-- A value that is kept in an `int`. -/
def int (x : ℤ) : ℤ := x.bmod 4294967296

/-! ## Numbers -/

/-- `"0123456789ABCDEFGHIJKLMNOPQRSTUVWXYZ"`, or with small letters. -/
def digits (small : Bool) (d : ℕ) : UInt8 :=
  if d < 10 then 48 + UInt8.ofNat d else (if small then 97 else 65) + UInt8.ofNat (d - 10)

/-- The digits that `do_div` splits off, the last one first. `tmp` has 36 characters. -/
def divide (small : Bool) (base : ℕ) : ℕ → ℕ → List UInt8
  | 0, _ => []
  | room + 1, num =>
    if num ≠ 0 then digits small (num % base) :: divide small base room (num / base) else []

/-- `while (size-- > 0) *str++ = c`: what is written, and what `size` is then. -/
def spin (c : UInt8) (size : ℤ) : List UInt8 × ℤ := (List.replicate size.toNat c, min size 0 - 1)

def signChar (type : Flags) (num : UInt32) : UInt8 :=
  if type.sign ∧ num.toInt32 < 0 then 45 else if type.plus then 43
  else if type.space then 32 else 0

/-- The size that is left behind the mark of the base. -/
def markSize (type : Flags) (base : ℕ) (size : ℤ) : ℤ :=
  if type.special then if base = 16 then size - 2 else if base = 8 then size - 1 else size
  else size

/-- The mark of the base, which is written in front of the digits. -/
def mark (type : Flags) (base : ℕ) : List UInt8 :=
  if type.special then
    if base = 8 then [48] else if base = 16 then [48, digits type.small 33] else []
  else []

/-- The end of `number`, which writes the field. `size` is what the digits leave. -/
def layOut (zeropad left : Bool) (sign : UInt8) (special tmp : List UInt8)
    (size precision : ℤ) : List UInt8 :=
  let c := if zeropad then 48 else 32
  let (before, size) := if ¬ (zeropad ∨ left) then spin 32 size else ([], size)
  let signs := if sign ≠ 0 then [sign] else []
  let (pad, size) := if ¬ left then spin c size else ([], size)
  let zeros := List.replicate (precision - tmp.length).toNat 48
  let (behind, _) := spin 32 size
  before ++ signs ++ special ++ pad ++ zeros ++ tmp.reverse ++ behind

/-- What `number` writes. -/
def number (num : UInt32) (base : ℕ) (size precision : ℤ) (type : Flags) : Option (List UInt8) :=
  let zeropad := type.zeropad && !type.left
  if base < 2 ∨ base > 36 then none
  else
    let sign := signChar type num
    let num := if type.sign ∧ num.toInt32 < 0 then -num else num
    let size := if sign ≠ 0 then size - 1 else size
    let size := markSize type base size
    let tmp := if num = 0 then [48] else divide type.small base 36 num.toNat
    let precision := if (tmp.length : ℤ) > precision then (tmp.length : ℤ) else precision
    some (layOut zeropad type.left sign (mark type base) tmp (size - precision) precision)

/-! ## Reading a number -/

def isXdigit (c : UInt8) : Bool := isDigit c ∨ (65 ≤ c ∧ c ≤ 70) ∨ (97 ≤ c ∧ c ≤ 102)

/-- The value of a hexadecimal digit. -/
def digitValue (c : UInt8) : ℕ :=
  if isDigit c then c.toNat - 48
  else (if 97 ≤ c ∧ c ≤ 122 then c.toNat - 32 else c.toNat) - 65 + 10

/-- The loop takes the digits below the base. -/
def strtoulLoop (base : ℕ) (result : UInt32) : List UInt8 → UInt32 × List UInt8
  | [] => (result, [])
  | c :: cs =>
    if isXdigit c ∧ digitValue c < base then
      strtoulLoop base (result * UInt32.ofNat base + UInt32.ofNat (digitValue c)) cs
    else (result, c :: cs)

/-- The base that a text asks for when none is given, and the text behind its mark. -/
def findBase : List UInt8 → ℕ × List UInt8
  | 48 :: 120 :: c :: cs => if isXdigit c then (16, c :: cs) else (8, 120 :: c :: cs)
  | 48 :: cs => (8, cs)
  | cs => (10, cs)

/-- The number that a text starts with, and the text behind it. -/
def simpleStrtoul (cp : List UInt8) (base : ℕ) : UInt32 × List UInt8 :=
  let (base, cp) := if base = 0 then findBase cp else (base, cp)
  strtoulLoop base 0 cp

/-! ## Directives -/

/-- The number at the front of a text. -/
def skipAtoi (i : ℤ) : List UInt8 → ℤ × List UInt8
  | [] => (i, [])
  | c :: cs => if isDigit c then skipAtoi (int (i * 10 + c.toNat - 48)) cs else (i, c :: cs)

/-- The flags at the front of a directive. -/
def skipFlags (flags : Flags) : List UInt8 → Flags × List UInt8
  | [] => (flags, [])
  | c :: cs =>
    if c = 45 then skipFlags { flags with left := true } cs
    else if c = 43 then skipFlags { flags with plus := true } cs
    else if c = 32 then skipFlags { flags with space := true } cs
    else if c = 35 then skipFlags { flags with special := true } cs
    else if c = 48 then skipFlags { flags with zeropad := true } cs
    else (flags, c :: cs)

inductive Conversion
  | char | string | octal | pointer | hexSmall | hex | signed | unsigned | count | other
  deriving DecidableEq

/-- The characters `c s o p x X d i u n`. -/
def conversion (c : UInt8) : Conversion :=
  if c = 99 then .char else if c = 115 then .string else if c = 111 then .octal
  else if c = 112 then .pointer else if c = 120 then .hexSmall else if c = 88 then .hex
  else if c = 100 then .signed else if c = 105 then .signed else if c = 117 then .unsigned
  else if c = 110 then .count else .other

/-- What has been written to the buffer, the number of the next argument, and the addresses that
got a count. -/
structure State where
  str : List UInt8
  arg : ℕ
  counts : List (UInt32 × ℕ)

def State.put (s : State) (bytes : List UInt8) : State := { s with str := s.str ++ bytes }

/-- `"<NULL>"` -/
def nullText : List UInt8 := [60, 78, 85, 76, 76, 62]

section Format
variable (text : UInt32 → List UInt8) (args : ℕ → UInt32)

/-- The width of the field. A `*` takes an argument and is not skipped. -/
def fieldWidth (flags : Flags) (fmt : List UInt8) (s : State) :
    ℤ × Flags × List UInt8 × State :=
  match fmt with
  | [] => (-1, flags, [], s)
  | c :: cs =>
    if isDigit c then
      let (width, rest) := skipAtoi 0 (c :: cs)
      (width, flags, rest, s)
    else if c = 42 then
      let width := (args s.arg).toInt32.toInt
      let s := { s with arg := s.arg + 1 }
      if width < 0 then (int (-width), { flags with left := true }, c :: cs, s)
      else (width, flags, c :: cs, s)
    else (-1, flags, c :: cs, s)

def getPrecision (fmt : List UInt8) (s : State) : ℤ × List UInt8 × State :=
  match fmt with
  | [] => (-1, [], s)
  | c :: cs =>
    if c = 46 then
      match cs with
      | [] => (0, [], s)
      | c :: cs =>
        if isDigit c then
          let (precision, rest) := skipAtoi 0 (c :: cs)
          (max precision 0, rest, s)
        else if c = 42 then
          (max (args s.arg).toInt32.toInt 0, c :: cs, { s with arg := s.arg + 1 })
        else (0, c :: cs, s)
    else (-1, c :: cs, s)

/-- `h`, `l` and `L` change nothing. -/
def skipQualifier : List UInt8 → List UInt8
  | [] => []
  | c :: cs => if c = 104 ∨ c = 108 ∨ c = 76 then cs else c :: cs

/-- `case 'c'`: the width is counted down before it is compared. -/
def putChar (flags : Flags) (width : ℤ) (c : UInt8) : List UInt8 :=
  let (before, width) := if ¬ flags.left then spin 32 (width - 1) else ([], width)
  let (behind, _) := spin 32 (width - 1)
  before ++ [c] ++ behind

/-- `case 's'` -/
def putString (flags : Flags) (width precision : ℤ) (p : UInt32) : List UInt8 :=
  let s := if p = 0 then nullText else text p
  let len : ℤ := s.length
  let len := if precision < 0 then len else if len > precision then precision else len
  let (before, left) := if ¬ flags.left then spin 32 (width - len) else ([], width - len)
  let (behind, _) := spin 32 left
  before ++ s.take len.toNat ++ behind

/-- The conversion `c`. -/
def convert (flags : Flags) (width precision : ℤ) (c : UInt8) (s : State) : State :=
  let arg := args s.arg
  let next := { s with arg := s.arg + 1 }
  let num (base : ℕ) (width : ℤ) (flags : Flags) : State :=
    next.put ((number arg base width precision flags).getD [])
  match conversion c with
  | .char => next.put (putChar flags width arg.toUInt8)
  | .string => next.put (putString text flags width precision arg)
  | .octal => num 8 width flags
  | .pointer =>
    if width = -1 then num 16 8 { flags with zeropad := true } else num 16 width flags
  | .hexSmall => num 16 width { flags with small := true }
  | .hex => num 16 width flags
  | .signed => num 10 width { flags with sign := true }
  | .unsigned => num 10 width flags
  | .count => { next with counts := (arg, s.str.length) :: s.counts }
  | .other => if c ≠ 37 then s.put [37, c] else s.put [c]

/-- A directive behind its `%`, and the format behind the directive. -/
def directive (fmt : List UInt8) (s : State) : List UInt8 × State :=
  let (flags, fmt) := skipFlags noFlags fmt
  let (width, flags, fmt, s) := fieldWidth args flags fmt s
  let (precision, fmt, s) := getPrecision args fmt s
  match skipQualifier fmt with
  | [] => ([], s.put [37])
  | c :: fmt => (fmt, convert text args flags width precision c s)

/-- The loop over the format, in at most `fuel` turns. -/
def vsprintfLoop : ℕ → List UInt8 → State → State
  | 0, _, s => s
  | _ + 1, [], s => s
  | fuel + 1, c :: fmt, s =>
    if c ≠ 37 then vsprintfLoop fuel fmt (s.put [c])
    else
      let (fmt, s) := directive text args fmt s
      vsprintfLoop fuel fmt s

/-- The string that is written, the number of arguments used, and the counts. -/
def vsprintf (fmt : List UInt8) : State := vsprintfLoop text args fmt.length fmt ⟨[], 0, []⟩

end Format

end Sgos.Printf
