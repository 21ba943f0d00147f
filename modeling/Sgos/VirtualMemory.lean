import Sgos.GuardedRun
import Sgos.LinkedChain
import Sgos.Machine

/-!
# Virtual areas

The area list of `kernel/mm/virtual.c`. A `KVirtualMemory` records the areas of one address range
in a doubly linked list with a pointer to each end; `mmAllocateVirtualMemory` places an area at a
fixed address, in the first gap from below, or in the first gap from above. Addresses are 32-bit
words and every sum and difference of the search wraps.
-/
namespace Sgos.VirtualMemory
open LinkedChain

def ALLOC_RANDOM : UInt32 := 8
def ALLOC_HIGHMEM : UInt32 := 16

structure KVirtualMemoryAllocation where
  next : Option Ptr
  prev : Option Ptr
  virtualAddress : UInt32
  virtualSize : UInt32
  memoryAttribute : UInt32
  allocationFlag : UInt32
  deriving DecidableEq, Repr

/-- `AccessLock` is left out: the calls considered run one after the other. -/
structure KVirtualMemory where
  firstAllocation : Option Ptr
  lastAllocation : Option Ptr
  lowerLimit : UInt32
  upperLimit : UInt32
  deriving DecidableEq, Repr

/-- The kernel heap, read as area nodes, and one `KVirtualMemory`. -/
structure State where
  heap : Ptr → KVirtualMemoryAllocation
  vm : KVirtualMemory

namespace State

def next (s : State) (p : Ptr) : Option Ptr := (s.heap p).next
def prev (s : State) (p : Ptr) : Option Ptr := (s.heap p).prev

/-- First address of an area. -/
def beg (s : State) (p : Ptr) : ℕ := (s.heap p).virtualAddress.toNat

/-- First address after an area, in unbounded arithmetic. -/
def fin (s : State) (p : Ptr) : ℕ :=
  (s.heap p).virtualAddress.toNat + (s.heap p).virtualSize.toNat

def write (s : State) (p : Ptr) (v : KVirtualMemoryAllocation) : State :=
  { s with heap := Function.update s.heap p v }

def setNext (s : State) (p : Ptr) (v : Option Ptr) : State :=
  s.write p { s.heap p with next := v }

def setPrev (s : State) (p : Ptr) (v : Option Ptr) : State :=
  s.write p { s.heap p with prev := v }

def setArea (s : State) (p : Ptr) (addr size attr flag : UInt32) : State :=
  s.write p { s.heap p with
    virtualAddress := addr, virtualSize := size, memoryAttribute := attr, allocationFlag := flag }

def setFirst (s : State) (v : Option Ptr) : State :=
  { s with vm := { s.vm with firstAllocation := v } }

def setLast (s : State) (v : Option Ptr) : State :=
  { s with vm := { s.vm with lastAllocation := v } }

end State

def mmInitializeVirtualMemory (heap : Ptr → KVirtualMemoryAllocation) (beg fin : UInt32) :
    State :=
  ⟨heap, ⟨none, none, beg, fin⟩⟩

def insertPreviousVma (s : State) (vma : Ptr) (next : Option Ptr) : State :=
  let s := s.setNext vma next
  match next with
  | some n =>
      let s := match s.prev n with
        | some p => s.setNext p (some vma)
        | none => s.setFirst (some vma)
      let s := s.setPrev vma (s.prev n)
      s.setPrev n (some vma)
  | none =>
      let s := s.setPrev vma s.vm.lastAllocation
      let s := match s.vm.lastAllocation with
        | some l => s.setNext l (some vma)
        | none => s.setFirst (some vma)
      s.setLast (some vma)

/-- The insertion written out in the top-down placement. It writes neither `vma->prev` nor
`LastAllocation`. -/
def insertFirstVma (s : State) (vma : Ptr) : State :=
  let s := s.setNext vma s.vm.firstAllocation
  let s := match s.vm.firstAllocation with
    | some f => s.setPrev f (some vma)
    | none => s
  s.setFirst (some vma)

/-- `vma->VirtualAddress + vma->VirtualSize`. -/
def areaEnd (s : State) (x : Ptr) : UInt32 := (s.heap x).virtualAddress + (s.heap x).virtualSize

/-- The top-down loop stops above an area that ends at or below the candidate address. -/
def fitsAbove (s : State) (addr : UInt32) (x : Ptr) : Bool := areaEnd s x ≤ addr

/-- The bottom-up loop stops below an area that starts at or above the end of the candidate. -/
def fitsBelow (s : State) (size addr : UInt32) (x : Ptr) : Bool :=
  (s.heap x).virtualAddress ≥ addr + size

/-- The top-down loop: the candidate address and the area it fits above. -/
def highSearch (s : State) (size : UInt32) : UInt32 × Option Ptr :=
  walk s.prev (fitsAbove s) (fun _ x => (s.heap x).virtualAddress - size)
    addressSpace (s.vm.upperLimit - size) s.vm.lastAllocation

/-- The bottom-up loop: the candidate address and the area it fits below. -/
def lowSearch (s : State) (size : UInt32) : UInt32 × Option Ptr :=
  walk s.next (fitsBelow s size) (fun _ x => areaEnd s x)
    addressSpace s.vm.lowerLimit s.vm.firstAllocation

/-- The loop for a fixed address: the first area that does not start below it. -/
def fixedSearch (s : State) (addr : UInt32) : Option Ptr :=
  search s.next (fun x => !decide ((s.heap x).virtualAddress < addr))
    addressSpace s.vm.firstAllocation

/-- The three placements: the chosen address and the state with the node linked in, or `none`
for the jump to `BAD`. -/
def placeVma (s : State) (vmabuf : Ptr) (addr size flag : UInt32) : Option (UInt32 × State) :=
  if flag &&& ALLOC_RANDOM ≠ 0 then
    if flag &&& ALLOC_HIGHMEM ≠ 0 then
      match highSearch s size with
      | (addr, some vma) => some (addr, insertPreviousVma s vmabuf (s.next vma))
      | (addr, none) =>
          if addr < s.vm.lowerLimit then none
          else
            some (addr, insertFirstVma s vmabuf)
    else
      match lowSearch s size with
      | (addr, some vma) => some (addr, insertPreviousVma s vmabuf (some vma))
      | (addr, none) =>
          if addr + size > s.vm.upperLimit then none
          else some (addr, insertPreviousVma s vmabuf none)
  else
    if addr < s.vm.lowerLimit ∨ addr + size > s.vm.upperLimit then none
    else
      match fixedSearch s addr with
      | some vma =>
          if addr + size > (s.heap vma).virtualAddress then none
          else some (addr, insertPreviousVma s vmabuf (some vma))
      | none => some (addr, insertPreviousVma s vmabuf none)

/-- The call once `MmAllocateKernelMemory` has returned the node `buf`. -/
def allocateVma (s : State) (buf : Ptr) (addr size attr flag : UInt32) :
    Option (UInt32 × State) :=
  if size < PAGE_SIZE ∨ size % PAGE_SIZE ≠ 0 then none
  else (placeVma s buf addr size flag).map fun r => (r.1, r.2.setArea buf r.1 size attr flag)

/-- `vmabuf` is the result of `MmAllocateKernelMemory`. A null result is address 0. -/
def mmAllocateVirtualMemory (s : State) (vmabuf : Option Ptr) (addr size attr flag : UInt32) :
    UInt32 × State :=
  match vmabuf with
  | none => (0, s)
  | some buf => (allocateVma s buf addr size attr flag).getD (0, s)

def mmGetVmaByAddress (s : State) (addr : UInt32) : Option Ptr :=
  search s.prev
    (fun x => (s.heap x).virtualAddress ≤ addr && addr < areaEnd s x)
    addressSpace s.vm.lastAllocation

/-- The removal in `MmFreeVirtualMemory`. -/
def removeVma (s : State) (vma : Ptr) : State :=
  let s := match s.prev vma with
    | some p => s.setNext p (s.next vma)
    | none => s.setFirst (s.next vma)
  match s.next vma with
  | some n => s.setPrev n (s.prev vma)
  | none => s.setLast (s.prev vma)

/-- Returns the size of the freed area. -/
def mmFreeVirtualMemory (s : State) (p : UInt32) : UInt32 × State :=
  match mmGetVmaByAddress s p with
  | some vma => ((s.heap vma).virtualSize, removeVma s vma)
  | none => (0, s)

/-! ## Calls as events -/

inductive Event
  | allocate (block : Option Ptr) (stale : KVirtualMemoryAllocation)
      (addr size attr flag : UInt32)
  | free (p : UInt32)
  deriving DecidableEq, Repr

/-- An area list together with the kernel-heap blocks that hold its nodes. -/
structure Memory where
  state : State
  live : List Ptr

/-- The state a placement starts from: the new block still holds its old contents. -/
def Memory.withBlock (m : Memory) (p : Ptr) (stale : KVirtualMemoryAllocation) : State :=
  m.state.write p stale

def step (m : Memory) : Event → Memory
  | .allocate block stale addr size attr flag =>
      match mmAllocateKernelMemory m.live block with
      | none => ⟨(mmAllocateVirtualMemory m.state none addr size attr flag).2, m.live⟩
      | some buf =>
          let s := m.withBlock buf stale
          ⟨(mmAllocateVirtualMemory s (some buf) addr size attr flag).2,
            if (allocateVma s buf addr size attr flag).isSome then buf :: m.live else m.live⟩
  | .free p =>
      ⟨(mmFreeVirtualMemory m.state p).2,
        match mmGetVmaByAddress m.state p with
        | some vma => m.live.erase vma
        | none => m.live⟩

end Sgos.VirtualMemory
