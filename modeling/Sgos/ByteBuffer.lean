import Mathlib.Data.List.Basic
import Mathlib.Algebra.Group.Nat.Even

/-!
# Byte buffers

Writes at an offset of a list of bytes that fail outside of it, reads that consume a prefix, and
numbers stored with the least significant byte first.
-/
namespace Sgos.ByteBuffer

/-- The bytes of `n` in a field of `width` bytes. -/
def littleEndian : ℕ → ℕ → List UInt8
  | 0, _ => []
  | width + 1, n => UInt8.ofNat n :: littleEndian width (n / 256)

def ofLittleEndian : List UInt8 → ℕ
  | [] => 0
  | b :: bs => b.toNat + 256 * ofLittleEndian bs

@[simp] theorem length_littleEndian (width n : ℕ) : (littleEndian width n).length = width := by
  induction width generalizing n with
  | zero => rfl
  | succ width ih => simp [littleEndian, ih]

theorem ofLittleEndian_littleEndian (width n : ℕ) (h : n < 256 ^ width) :
    ofLittleEndian (littleEndian width n) = n := by
  induction width generalizing n with
  | zero => simpa [littleEndian, ofLittleEndian] using (Nat.lt_one_iff.mp h).symm
  | succ width ih =>
    have hdiv : n / 256 < 256 ^ width := by
      apply Nat.div_lt_of_lt_mul
      rwa [← pow_succ']
    have hbyte : (UInt8.ofNat n).toNat = n % 256 := rfl
    rw [littleEndian, ofLittleEndian, ih _ hdiv, hbyte]
    omega

theorem ofLittleEndian_lt (bytes : List UInt8) : ofLittleEndian bytes < 256 ^ bytes.length := by
  induction bytes with
  | nil => exact Nat.one_pos
  | cons b bs ih =>
    have hb := b.toNat_lt
    rw [ofLittleEndian, List.length_cons, pow_succ]
    omega

/-- Put `bytes` at offset `q` of the buffer; nothing is written outside of it. -/
def write (mem : List UInt8) (q : ℕ) (bytes : List UInt8) : Option (List UInt8) :=
  if q + bytes.length ≤ mem.length then
    some (mem.take q ++ bytes ++ mem.drop (q + bytes.length))
  else none

/-- A write behind `pre` replaces the bytes it covers. -/
theorem write_front {pre : List UInt8} {q : ℕ} (hq : pre.length = q) (old bytes : List UInt8)
    (hfit : bytes.length ≤ old.length) :
    write (pre ++ old) q bytes = some (pre ++ bytes ++ old.drop bytes.length) := by
  subst hq
  rw [write, if_pos (by simpa using hfit), List.take_left', List.drop_append]
  · simp
  · rfl

theorem write_start (old bytes : List UInt8) (hfit : bytes.length ≤ old.length) :
    write old 0 bytes = some (bytes ++ old.drop bytes.length) :=
  @write_front [] 0 rfl old bytes hfit

theorem write_nil {mem : List UInt8} {q : ℕ} (hq : q ≤ mem.length) : write mem q [] = some mem := by
  rw [write, List.append_nil, List.length_nil, Nat.add_zero, if_pos hq, List.take_append_drop]

/-- Write one byte, and then the others. -/
theorem write_cons {mem : List UInt8} {q : ℕ} (hq : q < mem.length) (c : UInt8)
    (bytes : List UInt8) : write mem q (c :: bytes) = write (mem.set q c) (q + 1) bytes := by
  have hlen : q + (c :: bytes).length = q + 1 + bytes.length := by
    rw [List.length_cons]
    omega
  have htake : (mem.set q c).take (q + 1) = mem.take q ++ [c] := by
    rw [List.take_add_one, List.take_set_of_le le_rfl, List.getElem?_set_self hq]
    rfl
  rw [write, write, List.length_set, hlen, htake, List.drop_set_of_lt (by omega)]
  simp

/-- Take `n` bytes off the front. -/
def read (n : ℕ) (p : List UInt8) : Option (List UInt8 × List UInt8) :=
  if n ≤ p.length then some (p.take n, p.drop n) else none

/-- A number in the next `width` bytes. -/
def readNat (width : ℕ) (p : List UInt8) : Option (ℕ × List UInt8) :=
  (read width p).map fun r => (ofLittleEndian r.1, r.2)

theorem read_append (bytes rest : List UInt8) :
    read bytes.length (bytes ++ rest) = some (bytes, rest) := by
  simp [read]

theorem readNat_append (width n : ℕ) (rest : List UInt8) (h : n < 256 ^ width) :
    readNat width (littleEndian width n ++ rest) = some (n, rest) := by
  have hread := read_append (littleEndian width n) rest
  rw [length_littleEndian] at hread
  rw [readNat, hread, Option.map_some, ofLittleEndian_littleEndian width n h]

end Sgos.ByteBuffer
