import Sgos.Identifier
import Sgos.KernelMemory
import Sgos.PhysicalMemory
import Sgos.UserPages
import Sgos.VirtualMemoryPlacement
import Sgos.VirtualMemoryRuns

/-!
# The creation of a space

`MmCreateSpace` of `kernel/mm/space.c`. A space needs a block of the kernel heap for its descriptor,
an area of kernel addresses with a block for its node, and a frame for its page directory. The last
failure is reported as a count of bytes that is not negative, and so goes unnoticed; the directory
is then cleared through a page that is not mapped. The pages of the kernel heap itself, which are
mapped on demand, are taken as present.
-/
namespace Sgos.SpaceCreation
open Paging
open VirtualMemory (ALLOC_RANDOM KVirtualMemory KVirtualMemoryAllocation AreaList BestAt allocateVma
  mmFreeVirtualMemory mmGetVmaByAddress)

structure KPageDirectory where
  virtualAddress : UInt32
  physicalAddress : UInt32
  deriving DecidableEq, Repr

structure KSpace extends Identifier.KSpace where
  magic : UInt32
  pageDirectory : KPageDirectory
  memoryInformation : KMemoryInformation
  virtualMemory : KVirtualMemory

def SPACE_MAGIC : UInt32 := 0xFF0B46FC

/-- A descriptor after `RtlZeroMemory`. -/
def KSpace.zero : KSpace where
  spaceId := 0
  userId := 0
  prev := none
  next := none
  parent := none
  child := none
  firstThread := none
  magic := 0
  pageDirectory := ⟨0, 0⟩
  memoryInformation := ⟨0, 0, 0, 0⟩
  virtualMemory := ⟨none, none, 0, 0⟩

/-- `areas` is `KernelVirtualMemory`. Among the blocks in use counts the first space, which is
static. -/
structure Kernel where
  space : Ptr → KSpace
  firstSpace : Ptr
  currentSpace : Ptr
  spaceId : UInt16
  areas : VirtualMemory.State
  paging : Paging.State
  live : List Ptr

namespace Kernel

def modifySpace (k : Kernel) (p : Ptr) (f : KSpace → KSpace) : Kernel :=
  { k with space := Function.update k.space p (f (k.space p)) }

/-- `MmFreeKernelMemory`. -/
def release (k : Kernel) (p : Ptr) : Kernel := { k with live := k.live.erase p }

end Kernel

/-- A call that meets an error of the kernel ends the calling thread, and does not return. -/
inductive Outcome
  | returned (space : Option Ptr) (k : Kernel)
  | terminated (k : Kernel)

/-- The loop over the `count` pages that are left. -/
def acquirePages (s : Paging.State) (space : Ptr) (siz attr flag : UInt32) :
    ℕ → UInt32 → Int32 × Paging.State
  | 0, _ => (siz.toInt32, s)
  | count + 1, addr =>
      match mmAcquirePhysicalPage s space addr attr flag with
      | (result, s) =>
          if result ≠ 0 then ((siz - UInt32.ofNat (count + 1) * PAGE_SIZE).toInt32, s)
          else acquirePages s space siz attr flag count (addr + PAGE_SIZE)

def mmAcquireMultiplePhysicalPages (s : Paging.State) (space : Ptr)
    (addr siz attr flag : UInt32) : Int32 × Paging.State :=
  acquirePages s space siz attr flag (siz.toNat / 4096) addr

/-- `MmAllocateVirtualMemory` in the area list of the kernel. -/
def allocateKernelArea (k : Kernel) (vmabuf : Option Ptr) (stale : KVirtualMemoryAllocation)
    (addr size attr flag : UInt32) : UInt32 × Kernel :=
  match mmAllocateKernelMemory k.live vmabuf with
  | none => (0, k)
  | some buf =>
      let areas := k.areas.write buf stale
      match allocateVma areas buf addr size attr flag with
      | none => (0, { k with areas := areas })
      | some (addr, areas) => (addr, { k with areas := areas, live := buf :: k.live })

/-- `MmFreeVirtualMemory` in the area list of the kernel. -/
def freeKernelArea (k : Kernel) (p : UInt32) : Kernel :=
  let k' := { k with areas := (mmFreeVirtualMemory k.areas p).2 }
  match mmGetVmaByAddress k.areas p with
  | some vma => k'.release vma
  | none => k'

/-- The words that the directory is filled with. -/
def fillDirectory (k : Kernel) (space : Ptr) : Kernel :=
  { k with paging := { k.paging with
    dir := Function.update k.paging.dir space fun i =>
      if i.val < 768 then .zero else k.paging.dir k.firstSpace i } }

/-- The directory is written through its page. Where this is not present, the fault handler finds
no lazy area and ends the thread. -/
def arInitializePageDirectory (k : Kernel) (space : Ptr) : Option Kernel :=
  if k.paging.translate k.currentSpace (k.space space).pageDirectory.virtualAddress = none then none
  else some (fillDirectory k space)

/-- The part of the creation after the directory has been filled. -/
def linkSpace (k : Kernel) (space parent : Ptr) : Kernel :=
  let k := { k.modifySpace space fun sp => { sp with
    spaceId := k.spaceId.toUInt32
    memoryInformation := mmInitializeSpaceBasicInformation
    virtualMemory := ⟨none, none, 0x00100000, KERNEL_BASE⟩ } with spaceId := k.spaceId + 4 }
  let k := k.modifySpace space fun sp => { sp with
    userId := (k.space parent).userId
    parent := some parent
    next := (k.space parent).child }
  let k := match (k.space parent).child with
    | some c => k.modifySpace c fun sp => { sp with prev := some space }
    | none => k
  k.modifySpace parent fun sp => { sp with child := some space }

/-- The part after the frame of the directory has been asked for. -/
def finishSpace (k : Kernel) (space parent : Ptr) : Outcome :=
  match arInitializePageDirectory k space with
  | none => .terminated k
  | some k => .returned (some space) (linkSpace k space parent)

/-- The part after the area for the directory has been allocated at `addr`. -/
def createDirectory (k : Kernel) (space parent : Ptr) (addr : UInt32) : Outcome :=
  let k := k.modifySpace space fun sp => { sp with
    pageDirectory := { sp.pageDirectory with virtualAddress := addr } }
  let acquired := mmAcquireMultiplePhysicalPages k.paging k.currentSpace addr PAGE_SIZE
    PAGE_ATTR_WRITE MAP_ATTRIBUTE
  let k := { k with paging := acquired.2 }
  if acquired.1 < 0 then .returned none ((freeKernelArea k addr).release space)
  else
    let queried := arQueryPageInformation k.paging k.firstSpace addr
    let k := { k with paging := queried.2 }
    let k := match queried.1 with
      | some (phys, _) => k.modifySpace space fun sp => { sp with
          pageDirectory := { sp.pageDirectory with physicalAddress := phys } }
      | none => k
    finishSpace k space parent

/-- The descriptor of a new space, cleared and marked. -/
def describeSpace (k : Kernel) (space : Ptr) : Kernel :=
  { k.modifySpace space fun _ => { KSpace.zero with magic := SPACE_MAGIC } with
    live := space :: k.live }

def mmCreateSpace (k : Kernel) (block vmabuf : Option Ptr) (stale : KVirtualMemoryAllocation)
    (parent : Option Ptr) : Outcome :=
  match parent, mmAllocateKernelMemory k.live block with
  | none, _ | _, none => .returned none k
  | some parent, some space =>
      let area := allocateKernelArea (describeSpace k space) vmabuf stale 0 PAGE_SIZE
        PAGE_ATTR_WRITE ALLOC_RANDOM
      if area.1 = 0 then .returned none (area.2.release space)
      else createDirectory area.2 space parent area.1

/-! ## What is claimed -/

/-- The new space has a mapped directory with no entry of its own below the kernel and the kernel's
entries above, and is the first child of its parent. -/
structure Created (k k' : Kernel) (parent space : Ptr) : Prop where
  mapped : k'.paging.translate k'.currentSpace (k'.space space).pageDirectory.virtualAddress =
    some (frameOf (k'.space space).pageDirectory.physicalAddress)
  user : ∀ i : Index, i.val < 768 → k'.paging.dir space i = .zero
  kernel : ∀ i : Index, 768 ≤ i.val → k'.paging.dir space i = k'.paging.dir k'.firstSpace i
  parent_eq : (k'.space space).parent = some parent
  child_eq : (k'.space parent).child = some space
  next_eq : (k'.space space).next = (k.space parent).child
  prev_eq : (k'.space space).prev = none
  sibling : ∀ c, (k.space parent).child = some c → (k'.space c).prev = some space

/-- Areas, blocks, counters of frames and spaces are as before. -/
structure Unchanged (k k' : Kernel) : Prop where
  live : k'.live = k.live
  vm : k'.areas.vm = k.areas.vm
  areas : ∀ x, VirtualMemory.Recorded k.areas x → k'.areas.heap x = k.areas.heap x
  frames : k'.paging.pageRef = k.paging.pageRef
  spaces : ∀ p ∈ k.live, k'.space p = k.space p

/-- The call returns a new space, or null and has changed nothing. -/
def AllOrNothing (k : Kernel) (parent : Option Ptr) : Outcome → Prop
  | .returned (some space) k' => ∃ p, parent = some p ∧ Created k k' p space
  | .returned none k' => Unchanged k k'
  | .terminated _ => False

/-- The area list of the kernel is in order, its tables are shared by all directories, and the
parent is a space of the tree. -/
structure Ok (k : Kernel) (parent : Option Ptr) : Prop where
  areas : VirtualMemory.Inv ⟨k.areas, k.live⟩
  lower : k.areas.vm.lowerLimit = 0xC0400000
  upper : k.areas.vm.upperLimit = 0xE0000000
  paging : Sound k.paging
  tables : ∀ i : Index, 768 < i.val → k.paging.dir k.firstSpace i ≠ .zero ∧
    (k.paging.dir k.firstSpace i).physicalAddress ≠ bootTable
  shared : ∀ i : Index, 768 ≤ i.val →
    k.paging.dir k.currentSpace i = k.paging.dir k.firstSpace i
  first : k.firstSpace ∈ k.live
  current : k.currentSpace ∈ k.live
  parent : ∀ p, parent = some p → p ∈ k.live ∧ ∀ c, (k.space p).child = some c → c ∈ k.live

/-- All but the frame can be had, and the page for the directory is not mapped from before. -/
def Starves (k : Kernel) (block vmabuf parent : Option Ptr) : Prop :=
  parent ≠ none ∧ NoFrame k.paging ∧
    (∃ space, mmAllocateKernelMemory k.live block = some space ∧
      mmAllocateKernelMemory (space :: k.live) vmabuf ≠ none) ∧
    ∃ addr : UInt32, BestAt k.areas PAGE_SIZE ALLOC_RANDOM addr.toNat ∧
      k.paging.translate k.currentSpace addr = none

end Sgos.SpaceCreation
