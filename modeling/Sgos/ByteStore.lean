import Mathlib.Data.List.GetD
import Sgos.ByteBuffer

/-!
# Byte-addressed storage

A store gives each address a byte. Runs of bytes are read and written at an address; 32-bit words
are four bytes, the least significant first.
-/
namespace Sgos.ByteStore
open ByteBuffer

abbrev Store := ℕ → UInt8

def readBytes (d : Store) (a n : ℕ) : List UInt8 := (List.range n).map fun i => d (a + i)

def writeBytes (d : Store) (a : ℕ) (bs : List UInt8) : Store :=
  fun x => if a ≤ x then bs.getD (x - a) (d x) else d x

variable {d d' : Store} {a b n : ℕ}

@[simp] lemma length_readBytes (d : Store) (a n : ℕ) : (readBytes d a n).length = n := by
  simp [readBytes]

@[simp] lemma writeBytes_nil (d : Store) (a : ℕ) : writeBytes d a [] = d := by
  funext x
  simp [writeBytes]

lemma writeBytes_inside (d : Store) (a : ℕ) (bs : List UInt8) {i : ℕ} (h : i < bs.length) :
    writeBytes d a bs (a + i) = bs[i] := by
  simp [writeBytes, h]

/-- A write keeps every byte outside of its run. -/
lemma writeBytes_outside (d : Store) {a x : ℕ} (bs : List UInt8)
    (h : x < a ∨ a + bs.length ≤ x) : writeBytes d a bs x = d x := by
  rw [writeBytes]
  split_ifs with ha
  · rw [List.getD_eq_default]
    omega
  · rfl

/-- Two writes one behind the other are one write. -/
theorem writeBytes_append (d : Store) (a : ℕ) (xs ys : List UInt8) :
    writeBytes (writeBytes d a xs) (a + xs.length) ys = writeBytes d a (xs ++ ys) := by
  funext x
  by_cases hx : a + xs.length ≤ x
  · have hlong : xs.length ≤ x - a := by omega
    have hsub : x - (a + xs.length) = x - a - xs.length := by omega
    rw [writeBytes, if_pos hx, writeBytes_outside d xs (.inr hx), writeBytes, if_pos (by omega),
      hsub, List.getD_append_right _ _ _ _ hlong]
  · rw [writeBytes_outside _ ys (.inl (by omega))]
    by_cases ha : a ≤ x
    · rw [writeBytes, writeBytes, if_pos ha, if_pos ha, List.getD_append _ _ _ _ (by omega)]
    · rw [writeBytes, writeBytes, if_neg ha, if_neg ha]

/-- Two reads one behind the other are one read. -/
theorem readBytes_append (d : Store) (a m n : ℕ) :
    readBytes d a m ++ readBytes d (a + m) n = readBytes d a (m + n) := by
  simp only [readBytes, List.range_add, List.map_append, List.map_map]
  congr 1
  refine List.map_congr_left fun i _ => ?_
  simp [Nat.add_assoc]

theorem readBytes_congr (h : ∀ i < n, d' (a + i) = d (a + i)) :
    readBytes d' a n = readBytes d a n :=
  List.map_congr_left fun i hi => h i (List.mem_range.mp hi)

/-- What was written is read. -/
theorem readBytes_writeBytes (d : Store) (a : ℕ) (bs : List UInt8) :
    readBytes (writeBytes d a bs) a bs.length = bs := by
  apply List.ext_getElem
  · simp
  · intro i _ hi
    simp [readBytes, writeBytes_inside d a bs hi]

/-- The first bytes of a run that was copied. -/
theorem readBytes_writeBytes_prefix (d d' : Store) (a b : ℕ) {m n : ℕ} (h : m ≤ n) :
    readBytes (writeBytes d a (readBytes d' b n)) a m = readBytes d' b m :=
  List.map_congr_left fun i hi => by
    have hi' : i < (readBytes d' b n).length := by
      rw [length_readBytes]
      exact Nat.lt_of_lt_of_le (List.mem_range.mp hi) h
    rw [writeBytes_inside d a _ hi']
    simp [readBytes]

/-- A run of bytes apart from the one that was written is as before. -/
theorem readBytes_writeBytes_disjoint (d : Store) {bs : List UInt8}
    (h : a + bs.length ≤ b ∨ b + n ≤ a) : readBytes (writeBytes d a bs) b n = readBytes d b n :=
  readBytes_congr fun i hi => writeBytes_outside d bs (by omega)

/-! ## Words -/

def readWord (d : Store) (a : ℕ) : UInt32 := UInt32.ofNat (ofLittleEndian (readBytes d a 4))

def writeWord (d : Store) (a : ℕ) (v : UInt32) : Store := writeBytes d a (littleEndian 4 v.toNat)

@[simp] theorem readWord_writeWord (d : Store) (a : ℕ) (v : UInt32) :
    readWord (writeWord d a v) a = v := by
  have hread := readBytes_writeBytes d a (littleEndian 4 v.toNat)
  rw [length_littleEndian] at hread
  rw [readWord, writeWord, hread, ofLittleEndian_littleEndian 4 _ v.toNat_lt, UInt32.ofNat_toNat]

theorem readWord_writeBytes_disjoint (d : Store) {bs : List UInt8}
    (h : a + bs.length ≤ b ∨ b + 4 ≤ a) : readWord (writeBytes d a bs) b = readWord d b := by
  rw [readWord, readBytes_writeBytes_disjoint d h, readWord]

theorem readWord_writeWord_disjoint (d : Store) (v : UInt32) (h : a + 4 ≤ b ∨ b + 4 ≤ a) :
    readWord (writeWord d a v) b = readWord d b :=
  readWord_writeBytes_disjoint d (by rwa [length_littleEndian])

theorem readBytes_writeWord_disjoint (d : Store) (v : UInt32) (h : a + 4 ≤ b ∨ b + n ≤ a) :
    readBytes (writeWord d a v) b n = readBytes d b n :=
  readBytes_writeBytes_disjoint d (by rwa [length_littleEndian])

end Sgos.ByteStore
