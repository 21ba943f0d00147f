import Mathlib.Algebra.Order.Ring.Int
import Sgos.Outcome
import Sgos.Occurrences
import Sgos.TextBuffer

/-!
# The string class

`System::string` of `apps/system/base/string.cpp`. Each object has a buffer of its own, of
`buf_size` bytes; `none` is a null pointer. A call of `malloc` gives a block with any contents. An
access outside of a buffer, to a freed one or through a null pointer ends the computation without
a value. Objects are returned in place; the destructor and the conversions are left out.
-/
namespace Sgos.SystemString
open ByteBuffer CString Outcome

def INT_MAX : ℤ := 2147483647

/-- The value of an `int`. -/
def int (x : ℤ) : ℤ := x.bmod 4294967296

/-- What the calls of `malloc` give: the block of `n` bytes of the call number `i`. -/
structure Malloc where
  block : ℕ → ℕ → Option (List UInt8)
  size : ∀ i n bytes, block i n = some bytes → bytes.length = n

/-- Each call for a positive `int` is served. -/
def Malloc.Serves (mem : Malloc) : Prop := ∀ i (n : ℕ), (n : ℤ) ≤ INT_MAX → mem.block i n ≠ none

structure Str where
  buf : Option (List UInt8)
  len : ℤ
  bufSize : ℤ
  deriving DecidableEq, Repr

/-- A computation, with the number of calls of `malloc` so far. -/
abbrev Act (α : Type) := StateT ℕ Option α

/-! ## Functions of the C library -/

def malloc (mem : Malloc) (siz : ℤ) : Act (List UInt8) :=
  fun i => (mem.block i siz.toNat).map fun bytes => (bytes, i + 1)

def strlen (src : List UInt8) : Option ℤ := (cstring src).map fun text => int text.length

def strcpy (dest src : List UInt8) : Option (List UInt8) := do
  let text ← cstring src
  CString.sprintf dest 0 text

/-- `strcpy` between places of one buffer, a byte after the other. -/
def strcpyWithin : ℕ → List UInt8 → ℕ → ℕ → Option (List UInt8)
  | 0, _, _, _ => none
  | fuel + 1, mem, dest, src => do
    let c ← mem[src]?
    if dest < mem.length then
      if c = 0 then some (mem.set dest c) else strcpyWithin fuel (mem.set dest c) (dest + 1) (src + 1)
    else none

/-- `n` bytes from `start` on, the source of a `memcpy`. -/
def bytesFrom (mem : List UInt8) (start n : ℤ) : Option (List UInt8) :=
  if n = 0 then some []
  else if 0 ≤ start ∧ 0 ≤ n ∧ start + n ≤ mem.length then
    some ((mem.drop start.toNat).take n.toNat)
  else none

/-- The assignment of a zero to one byte. -/
def putEnd (mem : List UInt8) (i : ℤ) : Option (List UInt8) :=
  if 0 ≤ i ∧ i < mem.length then some (mem.set i.toNat 0) else none

/-- The comparison in `strstr`: the first byte of the text that differs from the word. -/
def mismatch : List UInt8 → List UInt8 → Option (Option UInt8)
  | [], _ => some none
  | _ :: _, [] => none
  | a :: word, b :: text => if a = b then mismatch word text else some (some b)

/-- The loop of `strstr` over the places of the text. -/
def strstrFrom (word : List UInt8) : ℕ → List UInt8 → Option (Option ℕ)
  | i, [] => if word = [] then some (some i) else none
  | i, c :: text =>
      match mismatch word (c :: text) with
      | none => none
      | some none => some (some i)
      | some (some b) => if b = 0 then some none else strstrFrom word (i + 1) text

def strstr (cs ct : List UInt8) : Option (Option ℕ) := do
  let word ← cstring ct
  strstrFrom word 0 cs

/-- The digits of a positive number, the last one first. -/
def digits : ℕ → ℕ → List UInt8
  | 0, _ => []
  | fuel + 1, num =>
      if num = 0 then [] else (48 + num % 10).toUInt8 :: digits fuel (num / 10)

/-- What `sprintf` prints for `"%ld"`; `tmp` has 36 characters. -/
def decimal (num : ℤ) : List UInt8 :=
  (if num < 0 then [0x2D] else []) ++
    if num = 0 then [0x30] else (digits 36 num.natAbs).reverse

/-! ## Buffers -/

/-- The text goes over to the new buffer. -/
def carry (s : Str) (newstr : List UInt8) : Option (List UInt8) :=
  if s.len > 0 then s.buf.bind fun buf => strcpy newstr buf else some newstr

def grow (s : Str) (siz : ℤ) (newstr : List UInt8) : Option Str := do
  let newstr ← carry s newstr
  let newstr ← putEnd newstr s.len
  some { s with buf := some newstr, bufSize := siz }

def mksize (mem : Malloc) (s : Str) (siz : ℤ) : Act Str :=
  if siz > s.bufSize then do
    let newstr ← malloc mem siz
    ofOption (grow s siz newstr)
  else pure s

/-- The end of `copy`. -/
def fillWith (s : Str) (src : List UInt8) (newlen : ℤ) : Option Str :=
  match s.buf with
  | none => some s
  | some buf => (strcpy buf src).map fun buf => { s with buf := some buf, len := newlen }

/-- `copy` of a string outside of the object's buffer. -/
def copy (mem : Malloc) (s : Str) (src : List UInt8) : Act Str := do
  let newlen ← ofOption (strlen src)
  let s ← mksize mem { s with len := 0 } (int (newlen + 1))
  ofOption (fillWith s src newlen)

/-- `copy` of the string at `k` in the object's own buffer. If the buffer has to grow, the string
has been freed when it is copied. -/
def copyWithin (s : Str) (k : ℕ) : Option Str := do
  let buf ← s.buf
  let newlen ← strlen (buf.drop k)
  if int (newlen + 1) > s.bufSize then none
  else do
    let buf ← strcpyWithin (buf.length + 1) buf 0 k
    some { s with buf := some buf, len := newlen }

/-! ## Constructors and operators -/

def init : Str := ⟨none, 0, 0⟩

/-- `string()`. -/
def construct (mem : Malloc) : Act Str := mksize mem init 16

/-- `string( const char *src )`. -/
def constructText (mem : Malloc) : Option (List UInt8) → Act Str
  | some src => copy mem init src
  | none => pure init

/-- `string( const string &src )`. -/
def constructCopy (mem : Malloc) (src : Str) : Act Str := do
  let buf ← ofOption src.buf
  copy mem init buf

/-- The end of the `+` operators. -/
def strcatTo (s : Str) (src : List UInt8) : Option Str := do
  let buf ← s.buf
  let text ← cstring src
  let buf ← strcat buf 0 text
  some { s with buf := some buf }

/-- `+` with a string of `n` characters outside of the object's buffer. -/
def append (mem : Malloc) (s : Str) (n : ℤ) (src : List UInt8) : Act Str := do
  let s ← mksize mem { s with len := int (s.len + n) } (int (int (s.len + n) + 1))
  ofOption (strcatTo s src)

/-- `operator + ( const string& )` with another object. -/
def plus (mem : Malloc) (s t : Str) : Act Str := do
  let src ← ofOption t.buf
  append mem s t.len src

/-- `operator + ( const char* )`. -/
def plusText (mem : Malloc) (s : Str) (src : List UInt8) : Act Str := do
  let n ← ofOption (strlen src)
  append mem s n src

/-- `strcat` of the string at `k` in the buffer to the string of the buffer. -/
def strcatWithin (s : Str) (k : ℕ) : Option Str := do
  let buf ← s.buf
  let text ← cstring buf
  let buf ← strcpyWithin (buf.length + 1) buf text.length k
  some { s with buf := some buf }

/-- `operator + ( const string& )` with the object itself. -/
def plusSelf (mem : Malloc) (s : Str) : Act Str := do
  let s ← mksize mem { s with len := int (s.len + s.len) } (int (int (s.len + s.len) + 1))
  ofOption (strcatWithin s 0)

/-- `operator + ( const char* )` with the string at `k` in the object's own buffer, which must not
grow. -/
def plusWithin (s : Str) (k : ℕ) : Option Str := do
  let buf ← s.buf
  let n ← strlen (buf.drop k)
  if int (int (s.len + n) + 1) > s.bufSize then none
  else strcatWithin { s with len := int (s.len + n) } k

/-- `+=`: the result of `+`, which is the object, is assigned to it. -/
def plusAssign (mem : Malloc) (s t : Str) : Act Str := do
  let s ← plus mem s t
  ofOption (copyWithin s 0)

/-! ## Member functions -/

def fromInteger (mem : Malloc) (s : Str) (number : ℤ) : Act Str := do
  let s ← mksize mem s 16
  let buf ← ofOption s.buf
  let buf ← ofOption (CString.sprintf buf 0 (decimal number))
  pure { s with buf := some buf, len := (decimal number).length }

def find (s substr : Str) (start : ℤ) : Option ℤ :=
  if start ≥ s.len then some (-1)
  else if start < 0 then none
  else do
    let buf ← s.buf
    let word ← substr.buf
    let found ← strstr (buf.drop start.toNat) word
    some (match found with
      | some k => int (start + k)
      | none => -1)

/-- `tmp` gets the `n` characters of the object from `start` on. -/
def fill (tmp s : Str) (start n : ℤ) : Option Str := do
  let buf ← tmp.buf
  let src ← s.buf
  let bytes ← bytesFrom src start n
  let buf ← write buf 0 bytes
  let buf ← putEnd buf n
  some { tmp with buf := some buf, len := n }

def slice (mem : Malloc) (tmp s : Str) (start n siz : ℤ) : Act Str := do
  let tmp ← mksize mem tmp siz
  ofOption (fill tmp s start n)

/-- The first loop of `trim`. -/
def scanUp (part : UInt8) : List UInt8 → Option ℕ
  | [] => none
  | c :: bytes => if c = part then (scanUp part bytes).map (· + 1) else some 0

/-- The second loop of `trim`, from the byte in front of `n` on downwards. -/
def scanDown (part : UInt8) (buf : List UInt8) : ℕ → Option ℕ
  | 0 => none
  | n + 1 => buf[n]?.bind fun c => if c = part then scanDown part buf n else some n

def trim (mem : Malloc) (s : Str) (part : UInt8) : Act Str := do
  let tmp ← construct mem
  let buf ← ofOption s.buf
  let beg ← ofOption (scanUp part buf)
  let last ← ofOption (scanDown part buf s.len.toNat)
  if (last : ℤ) - beg ≥ 0 then
    slice mem tmp s beg ((last : ℤ) - beg) (int ((last : ℤ) - beg + 1))
  else pure tmp

def left (mem : Malloc) (s : Str) (sublen : ℤ) : Act Str := do
  let tmp ← construct mem
  let sublen := if sublen > s.len then s.len else sublen
  if sublen ≥ 0 then slice mem tmp s 0 sublen (int (sublen + 1)) else pure tmp

def right (mem : Malloc) (s : Str) (sublen : ℤ) : Act Str := do
  let tmp ← construct mem
  let sublen := if sublen > s.len then s.len else sublen
  if sublen ≥ 0 then slice mem tmp s (s.len - sublen - 1) sublen (int (sublen + 1)) else pure tmp

def mid (mem : Malloc) (s : Str) (start sublen : ℤ) : Act Str := do
  let tmp ← construct mem
  let sublen := if int (start + sublen) > s.len then int (s.len - start) else sublen
  if start ≥ 0 ∧ sublen > 0 then slice mem tmp s start sublen (int (sublen + 1)) else pure tmp

/-- `find( src.buf, j )`, which makes a string of `src.buf`. -/
def findText (mem : Malloc) (s src : Str) (j : ℤ) : Act ℤ := do
  let substr ← constructText mem src.buf
  ofOption (find s substr j)

/-- The loop of `replace`; it fails if it has not ended after `fuel` turns. -/
def replaceLoop (mem : Malloc) (s src dest : Str) : ℕ → Str → ℤ → ℤ → Act (Str × ℤ)
  | 0, _, _, _ => ofOption none
  | fuel + 1, tmp, j, i =>
    if i ≥ 0 then do
      let piece ← mid mem s j (int (i - j))
      let piece ← plus mem piece dest
      let tmp ← plusAssign mem tmp piece
      let next ← findText mem s src (int (i + src.len))
      replaceLoop mem s src dest fuel tmp (int (i + src.len)) next
    else pure (tmp, j)

/-- `replace`; its arguments are copies of the strings. -/
def replace (mem : Malloc) (fuel : ℕ) (s src dest : Str) : Act Str := do
  let src ← constructCopy mem src
  let dest ← constructCopy mem dest
  let tmp ← construct mem
  let i ← findText mem s src 0
  let r ← replaceLoop mem s src dest fuel tmp 0 i
  let rest ← mid mem s r.2 (int (s.len - r.2))
  plusAssign mem r.1 rest

end Sgos.SystemString
