import Mathlib.Algebra.Group.Nat.Defs
import Mathlib.Data.Nat.Log
import Sgos.LinkedChain
import Sgos.Machine

/-!
# The block allocators

`mm_alloc`, `mm_free` of the kernel and `malloc`, `free` of the user library. Both keep one
descriptor (`node_t`) in front of every block; `prev` and `next` link the descriptors in address
order, `hash_prev` and `hash_next` those of free blocks in a bucket of `free_table`. The memory is
read as a descriptor at every address.
-/
namespace Sgos.Allocator
open LinkedChain

/-- `sizeof(node_t)`. -/
def SIZEOF_NODE : UInt32 := 24
def FREE_NODE : UInt32 := 1

structure Heap where
  prev : Ptr → Option Ptr
  next : Ptr → Option Ptr
  hashPrev : Ptr → Option Ptr
  hashNext : Ptr → Option Ptr
  nodeAttribute : Ptr → UInt32
  size : Ptr → UInt32
  freeTable : ℕ → Option Ptr
  firstNode : Option Ptr

def isFreeNode (s : Heap) (nod : Ptr) : Bool := s.nodeAttribute nod &&& FREE_NODE ≠ 0

def makeFree (s : Heap) (nod : Ptr) : Heap :=
  { s with nodeAttribute := Function.update s.nodeAttribute nod (s.nodeAttribute nod ||| FREE_NODE) }

def makeOccupied (s : Heap) (nod : Ptr) : Heap :=
  { s with nodeAttribute := Function.update s.nodeAttribute nod (s.nodeAttribute nod &&& ~~~FREE_NODE) }

/-- `HASH_APPEND( i, free_table[k] )`. -/
def hashAppend (s : Heap) (i : Ptr) (k : ℕ) : Heap :=
  let l := s.freeTable k
  { s with
    hashNext := Function.update s.hashNext i l
    hashPrev :=
      match l with
      | some y => Function.update (Function.update s.hashPrev i none) y (some i)
      | none => Function.update s.hashPrev i none
    freeTable := Function.update s.freeTable k (some i) }

/-- `HASH_DELETE( i, free_table[k] )`. -/
def hashDelete (s : Heap) (i : Ptr) (k : ℕ) : Heap :=
  let s :=
    match s.hashPrev i with
    | some p => { s with hashNext := Function.update s.hashNext p (s.hashNext i) }
    | none => { s with freeTable := Function.update s.freeTable k (s.hashNext i) }
  match s.hashNext i with
  | some n => { s with hashPrev := Function.update s.hashPrev n (s.hashPrev i) }
  | none => s

/-- The loop of `calc_hash_index`; a word is halved at most 32 times. -/
def halvings : ℕ → UInt32 → ℕ
  | 0, _ => 0
  | fuel + 1, k => if k > 1 then halvings fuel (k >>> 1) + 1 else 0

def calcHashIndex (maxHashEntry : ℕ) (k : UInt32) : ℕ :=
  let i := halvings 32 (k >>> 5)
  if i ≥ maxHashEntry then maxHashEntry - 1 else i

/-- The loop counts the binary digits behind the first one. -/
lemma halvings_eq_log (fuel : ℕ) (k : UInt32) (h : k.toNat < 2 ^ fuel) :
    halvings fuel k = Nat.log 2 k.toNat := by
  induction fuel generalizing k with
  | zero =>
    rw [Nat.lt_one_iff.mp h, Nat.log_zero_right]
    rfl
  | succ fuel ih =>
    rw [halvings]
    split_ifs with hk
    · have hhalf : (k >>> 1).toNat = k.toNat / 2 := by
        rw [UInt32.toNat_shiftRight]
        exact Nat.shiftRight_eq_div_pow _ 1
      have htwo : 2 ≤ k.toNat := UInt32.lt_iff_toNat_lt.mp hk
      rw [ih _ (by omega), hhalf, Nat.log_of_one_lt_of_le Nat.one_lt_two htwo]
    · have hone : k.toNat < 2 := by
        by_contra hlt
        exact hk (UInt32.lt_iff_toNat_lt.mpr (Nat.not_lt.mp hlt))
      exact (Nat.log_of_lt hone).symm

theorem calcHashIndex_eq_log (maxHashEntry : ℕ) (k : UInt32) :
    calcHashIndex maxHashEntry k = min (Nat.log 2 (k.toNat / 32)) (maxHashEntry - 1) := by
  have hshift : (k >>> 5).toNat = k.toNat / 32 := by
    rw [UInt32.toNat_shiftRight]
    exact Nat.shiftRight_eq_div_pow _ 5
  rw [calcHashIndex, halvings_eq_log 32 _ (k >>> 5).toNat_lt, hshift]
  split_ifs with h <;> omega

/-! ## The algorithm of both allocators -/

/-- What sets the two allocators apart: the number of buckets, and how the rest of a block is
computed and compared with 32. -/
structure Variant where
  maxHashEntry : ℕ
  rest : UInt32 → UInt32 → UInt32
  splits : UInt32 → Bool
  two_le : 2 ≤ maxHashEntry
  rest_eq : ∀ size siz, rest size siz = size - siz
  le_of_splits : ∀ r, splits r → 32 ≤ r.toNat

/-- The search in one bucket. -/
def searchBucket (s : Heap) (siz : UInt32) (j : ℕ) : Option Ptr :=
  search s.hashNext (fun nod => siz ≤ s.size nod) addressSpace (s.freeTable j)

/-- The first bucket from `i` on that has a block, and the block. -/
def searchTable (maxHashEntry : ℕ) (s : Heap) (siz : UInt32) (i : ℕ) : Option (ℕ × Ptr) :=
  (List.range' i (maxHashEntry - i)).findSome? fun j => (searchBucket s siz j).map (j, ·)

/-- The end of `nod`, from `m` bytes on, becomes a free block. -/
def splitNode (v : Variant) (s : Heap) (nod : Ptr) (siz m rest : UInt32) : Heap :=
  let nod2 := nod + m
  let s := { s with
    size := Function.update (Function.update s.size nod2 (rest - SIZEOF_NODE)) nod siz
    next := Function.update s.next nod2 (s.next nod) }
  let s :=
    match s.next nod2 with
    | some n => { s with prev := Function.update s.prev n (some nod2) }
    | none => s
  let s := { s with
    next := Function.update s.next nod (some nod2)
    prev := Function.update s.prev nod2 (some nod) }
  makeFree (hashAppend s nod2 (calcHashIndex v.maxHashEntry rest)) nod2

/-- The critical section of `mm_alloc` and `malloc`. -/
def allocate (v : Variant) (s : Heap) (siz : UInt32) : Option Ptr × Heap :=
  let m := siz + SIZEOF_NODE
  match searchTable v.maxHashEntry s siz (calcHashIndex v.maxHashEntry m) with
  | none => (none, s)
  | some (j, nod) =>
      let rest := v.rest (s.size nod) siz
      let s := makeOccupied (hashDelete s nod j) nod
      let s := if v.splits rest then splitNode v s nod siz m rest else s
      (some (nod + SIZEOF_NODE), s)

/-- `merge`: `b` is joined to `a`; `c` is the one that is not being freed. -/
def merge (v : Variant) (s : Heap) (a b c : Ptr) : Heap :=
  let s := hashDelete s c (calcHashIndex v.maxHashEntry (s.size c + SIZEOF_NODE))
  let s := { s with
    size := Function.update s.size a (s.size a + (s.size b + SIZEOF_NODE))
    next := Function.update s.next a (s.next b) }
  match s.next a with
  | some n => { s with prev := Function.update s.prev n (some a) }
  | none => s

/-- Joins a free block to the one before it. -/
def mergePrev (v : Variant) (s : Heap) (nod : Ptr) : Ptr × Heap :=
  match s.prev nod with
  | some p => if isFreeNode s p then (p, merge v s p nod p) else (nod, s)
  | none => (nod, s)

/-- Joins a free block to the one behind it. -/
def mergeNext (v : Variant) (s : Heap) (nod : Ptr) : Heap :=
  match s.next nod with
  | some n => if isFreeNode s n then merge v s nod n n else s
  | none => s

/-- The critical section of `mm_free` and `free`. -/
def coalesce (v : Variant) (s : Heap) (nod : Ptr) : Heap :=
  let (nod, s) := mergePrev v s nod
  let s := mergeNext v s nod
  hashAppend s nod (calcHashIndex v.maxHashEntry (s.size nod + SIZEOF_NODE))

/-- One free block over the whole arena. -/
def initBlock (v : Variant) (s : Heap) (addr size : UInt32) : Heap :=
  let s := { s with
    freeTable := fun _ => none
    firstNode := none
    prev := Function.update s.prev addr none
    next := Function.update s.next addr none
    size := Function.update s.size addr (size - SIZEOF_NODE) }
  { makeFree (hashAppend s addr (v.maxHashEntry - 1)) addr with firstNode := some addr }

/-! ## The kernel's allocator -/

/-- The rest is an `int`. -/
def kernelVariant : Variant where
  maxHashEntry := 15
  rest size siz := size - siz
  splits rest := rest.toInt32 ≥ 32
  two_le := by decide
  rest_eq _ _ := rfl
  le_of_splits r h := by
    have hint := Int32.le_iff_toInt_le.mp (of_decide_eq_true h)
    have hr : r.toInt32.toInt = r.toBitVec.toInt := rfl
    rw [hr, BitVec.toInt_eq_toNat_cond, show (32 : Int32).toInt = 32 from rfl] at hint
    rw [← UInt32.toNat_toBitVec]
    split_ifs at hint <;> omega

def mmInitBlock (s : Heap) (addr size : UInt32) : Heap := initBlock kernelVariant s addr size

def mmAlloc (s : Heap) (siz : UInt32) : Option Ptr × Heap :=
  if siz = 0 then (none, s) else allocate kernelVariant s siz

def mmFree (s : Heap) (p : Option Ptr) : UInt32 × Heap :=
  match p with
  | none => (0, s)
  | some p =>
      let nod := p - SIZEOF_NODE
      if isFreeNode s nod then (0, s)
      else (s.size nod, coalesce kernelVariant (makeFree s nod) nod)

/-! ## The library's allocator -/

def libraryVariant : Variant where
  maxHashEntry := 19
  rest size siz := size + SIZEOF_NODE - (siz + SIZEOF_NODE)
  splits rest := rest ≥ 32
  two_le := by decide
  rest_eq size siz := by grind
  le_of_splits r h := UInt32.le_iff_toNat_le.mp (of_decide_eq_true h)

/-- The statics of the library. -/
structure Library where
  heap : Heap
  mutex : Int32

/-- The loop gets through when the decremented mutex is zero; a single thread that finds it
otherwise puts it back and sleeps for ever. -/
def lock (s : Library) : Option Library :=
  if s.mutex - 1 = 0 then some { s with mutex := s.mutex - 1 } else none

def unlock (s : Library) : Library := { s with mutex := s.mutex + 1 }

/-- `__allocation_init`; `mem` is what `SysAllocateMemory` returns. Without memory the process
exits. -/
def allocationInit (s : Library) (mem : Option Ptr) : Library :=
  match mem with
  | none => { s with heap := { s.heap with freeTable := fun _ => none } }
  | some p => { heap := initBlock libraryVariant s.heap p (256 * 1024 * 1024), mutex := 1 }

/-- `none` is a call that does not return. -/
def malloc (s : Library) (mem : Option Ptr) (siz : UInt32) : Option (Option Ptr × Library) :=
  if siz = 0 then some (none, s)
  else do
    let s := if s.heap.firstNode = none then allocationInit s mem else s
    if s.heap.firstNode = none then none
    let s ← lock s
    let (p, heap) := allocate libraryVariant s.heap (if siz < 8 then 8 else siz)
    return (p, unlock { s with heap })

def free (s : Library) (p : Option Ptr) : Option Library :=
  match p with
  | none => some s
  | some p =>
      let nod := p - SIZEOF_NODE
      if isFreeNode s.heap nod then some s
      else do
        let s ← lock { s with heap := makeFree s.heap nod }
        return unlock { s with heap := coalesce libraryVariant s.heap nod }

end Sgos.Allocator
