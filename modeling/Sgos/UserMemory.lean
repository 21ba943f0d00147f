import Sgos.CopyOnWrite
import Sgos.KernelMemory
import Sgos.VirtualMemoryListed

/-!
# Memory of user spaces

`kernel/mm/usermemory.c`: areas of a space, recorded in the area list behind a count of their
bytes. Of the page tables only the number of pages matters that `MmAcquirePhysicalPage` can serve
before it fails.
-/
namespace Sgos.UserMemory
open GuardedRun LinkedChain VirtualMemory
open CopyOnWrite (ALLOC_VIRTUAL)
open DemandPaging (ALLOC_LAZY)
open Paging (PAGE_ATTR_USER PAGE_ATTR_PRESENT)

/-- A space: its counts, and its areas. -/
structure State where
  info : KMemoryInformation
  memory : Memory

/-- What the rest of the machine contributes to an allocation: the block for the descriptor, what
it held before, and the number of pages that are to be had. -/
structure Supply where
  block : Option Ptr
  stale : KVirtualMemoryAllocation
  frames : ℕ
  deriving DecidableEq

/-- The bytes for which pages were acquired. -/
def mmAcquireMultiplePhysicalPages (siz : UInt32) (frames : ℕ) : UInt32 :=
  siz - UInt32.ofNat ((siz >>> 12).toNat - frames) * PAGE_SIZE

/-- The address of a new area, and the list with it. -/
def allocateArea (m : Memory) (supply : Supply) (addr siz attr flag : UInt32) : UInt32 × Memory :=
  ((mmAllocateKernelMemory m.live supply.block).elim 0 fun buf =>
      (mmAllocateVirtualMemory (m.withBlock buf supply.stale) (some buf) addr siz attr flag).1,
    VirtualMemory.step m (.allocate supply.block supply.stale addr siz attr flag))

def setAllocated (info : KMemoryInformation) (allocated : Int32) : KMemoryInformation :=
  { info with userMemoryAllocated := allocated }

def mmFreeUserMemory (s : State) (p : UInt32) : State :=
  let siz := (mmFreeVirtualMemory s.memory.state p).1
  ⟨setAllocated s.info (refund s.info.userMemoryAllocated siz),
    VirtualMemory.step s.memory (.free p)⟩

/-- Pages are acquired at once, and the number of bytes is negative as an `int`. -/
def Negative (siz flag : UInt32) (frames : ℕ) : Prop :=
  flag &&& ALLOC_VIRTUAL = 0 ∧ flag &&& ALLOC_LAZY = 0 ∧
    (mmAcquireMultiplePhysicalPages siz frames).toInt32 < 0

instance (siz flag : UInt32) (frames : ℕ) : Decidable (Negative siz flag frames) :=
  inferInstanceAs (Decidable (_ ∧ _ ∧ _))

def mmAllocateUserMemoryAddress (s : State) (supply : Supply) (addr siz pattr flag : UInt32) :
    UInt32 × State :=
  let allocated := s.info.userMemoryAllocated + siz.toInt32
  let info := setAllocated s.info allocated
  if allocated > info.userMemoryCapacity then
    (0, { s with info := setAllocated info (allocated - siz.toInt32) })
  else
    let pattr := pattr ||| (PAGE_ATTR_USER ||| PAGE_ATTR_PRESENT)
    let (ptr, memory) := allocateArea s.memory supply addr siz pattr flag
    if ptr = 0 then (0, ⟨setAllocated info (allocated - siz.toInt32), memory⟩)
    else if Negative siz flag supply.frames then (0, mmFreeUserMemory ⟨info, memory⟩ ptr)
    else (ptr, ⟨info, memory⟩)

def mmAllocateUserMemory (s : State) (supply : Supply) (siz attr flag : UInt32) :
    UInt32 × State :=
  mmAllocateUserMemoryAddress s supply 0 siz attr (flag ||| ALLOC_RANDOM)

/-! ## Calls as events -/

inductive Event
  | allocateAddress (supply : Supply) (addr siz pattr flag : UInt32)
  | allocate (supply : Supply) (siz attr flag : UInt32)
  | free (p : UInt32)
  deriving DecidableEq

def step (s : State) : Event → State
  | .allocateAddress supply addr siz pattr flag =>
      (mmAllocateUserMemoryAddress s supply addr siz pattr flag).2
  | .allocate supply siz attr flag => (mmAllocateUserMemory s supply siz attr flag).2
  | .free p => mmFreeUserMemory s p

/-- A space just created. -/
def started (heap : Ptr → KVirtualMemoryAllocation) : State :=
  ⟨mmInitializeSpaceBasicInformation, initial heap 0x100000 0xC0000000⟩

/-- The sum of the sizes of the live areas. -/
def total (m : Memory) : ℕ := (m.live.map fun x => (m.state.heap x).virtualSize.toNat).sum

/-- The recorded areas are the live ones, and the count is the sum of their sizes, which stays
within the limit. -/
structure QuotaKept (s : State) : Prop where
  recorded : ∃ xs : List Ptr, xs.Perm s.memory.live ∧
    Visits s.memory.state.next s.memory.state.vm.firstAllocation xs
  allocated_eq : s.info.userMemoryAllocated.toInt = total s.memory
  le_capacity : total s.memory ≤ 1073741824

/-! ## When a request keeps the count -/

/-- What an accepted request meets: its address is not null, and the sum stays below 2GB, or else
the area is given back. -/
structure AcceptedOk (s : VirtualMemory.State) (buf : Ptr) (allocated : Int32) (frames : ℕ)
    (addr siz flag : UInt32) : Prop where
  link : LinkOk s buf addr siz flag
  address : candidate s addr siz flag ≠ 0
  count : allocated.toInt + siz.toNat < 2147483648 ∨
    Negative siz flag frames ∧ FoundAgain s addr siz flag

/-- A request is refused by the limit, for its size or by the placement, or meets the above. -/
def RequestOk (s : State) (supply : Supply) (addr siz flag : UInt32) : Prop :=
  s.info.userMemoryAllocated + siz.toInt32 > s.info.userMemoryCapacity ∨
    ∀ buf, mmAllocateKernelMemory s.memory.live supply.block = some buf →
      let placing := s.memory.withBlock buf supply.stale
      siz < PAGE_SIZE ∨ siz % PAGE_SIZE ≠ 0 ∨ Refused placing addr siz flag ∨
        AcceptedOk placing buf s.info.userMemoryAllocated supply.frames addr siz flag

def StepOk (s : State) : Event → Prop
  | .allocateAddress supply addr siz _ flag => RequestOk s supply addr siz flag
  | .allocate supply siz _ flag => RequestOk s supply 0 siz (flag ||| ALLOC_RANDOM)
  | .free _ => True

end Sgos.UserMemory
