import Sgos.LinkedChain
import Sgos.Machine

/-!
# Identifiers of spaces and threads

The creation of address spaces in `kernel/mm/space.c` and of threads in `kernel/tm/thread.c`, and
the lookups by identifier. Spaces form a tree; the threads of a space form a list. Descriptors are
blocks of the kernel heap and are never given back.
-/
namespace Sgos.Identifier
open LinkedChain

structure KSpace where
  spaceId : UInt32
  userId : UInt32
  prev : Option Ptr
  next : Option Ptr
  parent : Option Ptr
  child : Option Ptr
  firstThread : Option Ptr
  deriving DecidableEq, Repr

structure KThread where
  threadId : UInt32
  space : Ptr
  prev : Option Ptr
  next : Option Ptr
  deriving DecidableEq, Repr

/-- The heap read as spaces and as threads, the two counters, and the created descriptors in
the order of their creation. -/
structure State where
  space : Ptr → KSpace
  thread : Ptr → KThread
  firstSpace : Ptr
  spaceId : UInt16
  threadId : UInt16
  spaces : List Ptr
  threads : List Ptr

namespace State

def live (s : State) : List Ptr := s.spaces ++ s.threads

def setSpace (s : State) (p : Ptr) (sp : KSpace) : State :=
  { s with space := Function.update s.space p sp }

def setThread (s : State) (p : Ptr) (thr : KThread) : State :=
  { s with thread := Function.update s.thread p thr }

def modifySpace (s : State) (p : Ptr) (f : KSpace → KSpace) : State :=
  s.setSpace p (f (s.space p))

def modifyThread (s : State) (p : Ptr) (f : KThread → KThread) : State :=
  s.setThread p (f (s.thread p))

end State

def generateSpaceId (s : State) : UInt32 × State :=
  (s.spaceId.toUInt32, { s with spaceId := s.spaceId + 4 })

/-- The thread counter skips the multiples of 4. -/
def nextThreadId (n : UInt16) : UInt16 := if (n + 1) % 4 = 0 then n + 1 + 1 else n + 1

/-- The space is in the upper half of a thread's identifier. -/
def generateThreadId (s : State) (space : Ptr) : UInt32 × State :=
  ((s.space space).spaceId <<< 16 ||| s.threadId.toUInt32,
    { s with threadId := nextThreadId s.threadId })

/-- The first space and its direct children are searched. -/
def mmGetSpaceById (s : State) (spid : UInt32) : Option Ptr :=
  if (s.space s.firstSpace).spaceId = spid then some s.firstSpace
  else
    search (fun p => (s.space p).next) (fun p => (s.space p).spaceId = spid) addressSpace
      (s.space s.firstSpace).child

/-- `cur` is the running thread. -/
def tmGetThreadById (s : State) (cur : Ptr) (tid : UInt32) : Option Ptr :=
  if (s.thread cur).threadId = tid then some cur
  else
    match mmGetSpaceById s (tid >>> 16) with
    | none => none
    | some space =>
        search (fun p => (s.thread p).next) (fun p => (s.thread p).threadId = tid) addressSpace
          (s.space space).firstThread

/-- `directory` says whether an area and a page for the page directory could be had; if not, the
descriptor is given back. -/
def mmCreateSpace (s : State) (block : Option Ptr) (directory : Bool) (parent : Option Ptr) :
    Option Ptr × State :=
  match parent, mmAllocateKernelMemory s.live block with
  | none, _ | _, none => (none, s)
  | some parent, some space =>
      if directory = false then (none, s)
      else
        let r := generateSpaceId { s with spaces := s.spaces ++ [space] }
        let s := r.2.setSpace space
          { spaceId := r.1
            userId := (s.space parent).userId
            prev := none
            next := (s.space parent).child
            parent := some parent
            child := none
            firstThread := none }
        let s := match (s.space parent).child with
          | some c => s.modifySpace c ({ · with prev := some space })
          | none => s
        (some space, s.modifySpace parent ({ · with child := some space }))

def tmCreateThread (s : State) (block : Option Ptr) (space : Ptr) : Option Ptr × State :=
  match mmAllocateKernelMemory s.live block with
  | none => (none, s)
  | some thr =>
      let r := generateThreadId { s with threads := s.threads ++ [thr] } space
      let s := r.2.setThread thr
        { threadId := r.1
          space := space
          prev := none
          next := (s.space space).firstThread }
      let s := match (s.space space).firstThread with
        | some t => s.modifyThread t ({ · with prev := some thr })
        | none => s
      (some thr, s.modifySpace space ({ · with firstThread := some thr }))

/-- The kernel after `MmInitializeSpaceManagement`, `MmInitializeKernelMemoryPool`, which numbers
the first space, and `TmInitializeThreadManagement`. The heap may hold anything. -/
def initial (space : Ptr → KSpace) (thread : Ptr → KThread) (firstSpace : Ptr) : State :=
  let r := generateSpaceId ⟨space, thread, firstSpace, 0, 1, [firstSpace], []⟩
  r.2.setSpace firstSpace
    { spaceId := r.1, userId := 0, prev := none, next := none, parent := none, child := none,
      firstThread := none }

/-! ## Numbers -/

/-- What the space counter shows after `n` spaces. -/
def spaceNumber (n : ℕ) : UInt16 := UInt16.ofNat (4 * n)

/-- What the thread counter shows after `n` threads. -/
def threadNumber (n : ℕ) : UInt16 := UInt16.ofNat (4 * (n / 3) + n % 3 + 1)

lemma spaceNumber_succ (n : ℕ) : spaceNumber n + 4 = spaceNumber (n + 1) := by
  simp [spaceNumber, Nat.mul_add]

lemma threadNumber_succ (n : ℕ) : nextThreadId (threadNumber n) = threadNumber (n + 1) := by
  have hmod : ((threadNumber n + 1) % 4 = 0) ↔ n % 3 = 2 := by
    rw [← UInt16.toNat_inj]
    simp only [threadNumber, UInt16.toNat_mod, UInt16.toNat_add, UInt16.toNat_ofNat',
      UInt16.reduceToNat]
    omega
  rw [nextThreadId, ← UInt16.toNat_inj]
  split_ifs with h
  · rw [hmod] at h
    simp only [threadNumber, UInt16.toNat_add, UInt16.toNat_ofNat', UInt16.reduceToNat]
    omega
  · rw [hmod] at h
    simp only [threadNumber, UInt16.toNat_add, UInt16.toNat_ofNat', UInt16.reduceToNat]
    omega

/-- The space counter comes back after 16384 spaces. -/
lemma spaceNumber_inj {m n : ℕ} : spaceNumber m = spaceNumber n ↔ m % 16384 = n % 16384 := by
  rw [← UInt16.toNat_inj]
  simp only [spaceNumber, UInt16.toNat_ofNat']
  omega

lemma threadNumber_toNat (n : ℕ) :
    (threadNumber n).toNat = 4 * (n % 49152 / 3) + n % 49152 % 3 + 1 := by
  have hdiv : n % 49152 / 3 = n / 3 % 16384 := Nat.mod_mul_right_div_self n 3 16384
  have hmod : n % 49152 % 3 = n % 3 := Nat.mod_mod_of_dvd n (by decide)
  rw [threadNumber, UInt16.toNat_ofNat', hdiv, hmod]
  omega

/-- The thread counter comes back after 49152 threads. -/
lemma threadNumber_inj {m n : ℕ} : threadNumber m = threadNumber n ↔ m % 49152 = n % 49152 := by
  rw [← UInt16.toNat_inj, threadNumber_toNat, threadNumber_toNat]
  omega

/-- The identifier of a thread, from the number of its space and its own. -/
def packed (spid tid : UInt16) : UInt32 := spid.toUInt32 <<< 16 ||| tid.toUInt32

lemma packed_toNat (spid tid : UInt16) :
    (packed spid tid).toNat = spid.toNat * 65536 + tid.toNat := by
  have hs := spid.toNat_lt
  have ht : tid.toNat < 2 ^ 16 := tid.toNat_lt
  have hlt : spid.toNat <<< 16 < 2 ^ 32 := by
    rw [Nat.shiftLeft_eq]
    omega
  rw [packed, UInt32.toNat_or, UInt32.toNat_shiftLeft]
  simp only [UInt16.toNat_toUInt32, UInt32.reduceToNat, Nat.reduceMod]
  rw [Nat.mod_eq_of_lt hlt, ← Nat.shiftLeft_add_eq_or_of_lt ht, Nat.shiftLeft_eq]

lemma packed_shiftRight (spid tid : UInt16) : packed spid tid >>> 16 = spid.toUInt32 := by
  have ht := tid.toNat_lt
  rw [← UInt32.toNat_inj, UInt32.toNat_shiftRight, packed_toNat]
  simp only [UInt16.toNat_toUInt32, UInt32.reduceToNat, Nat.reduceMod, Nat.shiftRight_eq_div_pow]
  omega

lemma packed_inj {a b c d : UInt16} : packed a b = packed c d ↔ a = c ∧ b = d := by
  have hb := b.toNat_lt
  have hd := d.toNat_lt
  rw [← UInt32.toNat_inj, packed_toNat, packed_toNat, ← UInt16.toNat_inj, ← UInt16.toNat_inj]
  omega

end Sgos.Identifier
