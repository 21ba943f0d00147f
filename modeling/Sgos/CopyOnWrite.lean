import Sgos.DemandPaging
import Sgos.SharedSlots

/-!
# Copy on write

`MmSwapMultiplePhysicalPages` and `MmDuplicateMultiplePhysicalPages` of `kernel/mm/physical.c` with
the areas they look at, and write accesses with the fault of a read-only page. `MmGetVmaByAddress`
finds the same areas throughout a run; their flags change.
-/
namespace Sgos.CopyOnWrite
open GuardedRun Paging SharedSlots
open DemandPaging (pageOf wordOf)
open VirtualMemory (KVirtualMemoryAllocation)

def ALLOC_VIRTUAL : UInt32 := 1
def ALLOC_SWAP : UInt32 := 4
def PAGE_SIZE : UInt32 := 0x1000
def KERNEL_MEMORY_END : UInt32 := 0xE0000000

/-- `MmGetVmaByAddress` on the list of a space, named by its directory, and on the list of the
kernel. -/
structure Areas where
  user : Ptr → UInt32 → Option Ptr
  kernel : UInt32 → Option Ptr

structure State where
  paging : Paging.State
  heap : Ptr → KVirtualMemoryAllocation

def setFlag (s : State) (vma : Ptr) (flag : UInt32) : State :=
  { s with heap := Function.update s.heap vma { s.heap vma with allocationFlag := flag } }

def flagOf (s : State) (vma : Ptr) : UInt32 := (s.heap vma).allocationFlag

/-- `addr+siz > vma->VirtualAddress+vma->VirtualSize`. -/
def exceeds (s : State) (vma : Ptr) (addr siz : UInt32) : Prop :=
  addr + siz > (s.heap vma).virtualAddress + (s.heap vma).virtualSize

instance (s : State) (vma : Ptr) (addr siz : UInt32) : Decidable (exceeds s vma addr siz) :=
  inferInstanceAs (Decidable (_ > _))

/-! ## Several pages -/

def swapPages (flag : UInt32) :
    ℕ → Paging.State → Ptr → UInt32 → Ptr → UInt32 → Paging.State
  | 0, s, _, _, _, _ => s
  | count + 1, s, destSp, destAddr, srcSp, srcAddr =>
      swapPages flag count (mmSwapPhysicalPage s destSp destAddr srcSp srcAddr flag) destSp
        (destAddr + PAGE_SIZE) srcSp (srcAddr + PAGE_SIZE)

/-- The checks before pages are swapped. An address without an area stops the kernel; here the call
fails. -/
def checkSwap (areas : Areas) (s : State) (destSp : Ptr) (destAddr : UInt32) (srcSp : Ptr)
    (srcAddr siz : UInt32) : Bool :=
  if destAddr % PAGE_SIZE ≠ 0 ∨ srcAddr % PAGE_SIZE ≠ 0 ∨ siz % PAGE_SIZE ≠ 0 then false
  else
    match areas.user srcSp srcAddr, areas.user destSp destAddr with
    | some src, some dest =>
        if flagOf s src &&& ALLOC_SWAP = 0 ∨ exceeds s src srcAddr siz then false
        else if flagOf s dest &&& ALLOC_SWAP = 0 ∨ exceeds s dest destAddr siz then false
        else true
    | _, _ => false

def mmSwapMultiplePhysicalPages (areas : Areas) (s : State) (destSp : Ptr) (destAddr : UInt32)
    (srcSp : Ptr) (srcAddr siz flag : UInt32) : UInt32 × State :=
  if checkSwap areas s destSp destAddr srcSp srcAddr siz then
    let count := (siz >>> 12).toNat
    (siz, { s with paging := swapPages flag count s.paging destSp destAddr srcSp srcAddr })
  else (0, s)

/-- The pages left behind a page that cannot be shared, and the state. -/
def duplicatePages : ℕ → Paging.State → Ptr → UInt32 → Ptr → UInt32 → ℕ × Paging.State
  | 0, s, _, _, _, _ => (0, s)
  | count + 1, s, destSp, destAddr, srcSp, srcAddr =>
      let (result, s) := mmDuplicatePhysicalPage s destSp destAddr srcSp srcAddr
      if result < 0 then (count + 1, s)
      else
        duplicatePages count s destSp (destAddr + PAGE_SIZE) srcSp (srcAddr + PAGE_SIZE)

/-- The checks before pages are shared: the area of the destination, if they pass, and the areas
with the new flags. -/
def checkDuplicate (areas : Areas) (s : State) (destSp : Ptr) (destAddr : UInt32) (srcSp : Ptr)
    (srcAddr siz : UInt32) : Option Ptr × State :=
  if destAddr % PAGE_SIZE ≠ 0 ∨ srcAddr % PAGE_SIZE ≠ 0 ∨ siz % PAGE_SIZE ≠ 0 then (none, s)
  else
    match areas.user srcSp srcAddr with
    | none => (none, s)
    | some src =>
        if (s.heap src).memoryAttribute &&& PAGE_ATTR_WRITE = 0 ∨ exceeds s src srcAddr siz then
          (none, s)
        else
          let s := setFlag s src (flagOf s src ||| PAGE_ATTR_COPYONWRITE)
          match areas.user destSp destAddr with
          | none => (none, s)
          | some dest =>
              if (s.heap dest).memoryAttribute &&& PAGE_ATTR_WRITE = 0 ∨
                  exceeds s dest destAddr siz ∨ flagOf s dest &&& ALLOC_VIRTUAL = 0 then (none, s)
              else (some dest, setFlag s dest (flagOf s dest ||| PAGE_ATTR_COPYONWRITE))

def mmDuplicateMultiplePhysicalPages (areas : Areas) (s : State) (destSp : Ptr)
    (destAddr : UInt32) (srcSp : Ptr) (srcAddr siz : UInt32) : UInt32 × State :=
  match checkDuplicate areas s destSp destAddr srcSp srcAddr siz with
  | (none, s) => (0, s)
  | (some dest, s) =>
      let (left, paging) :=
        duplicatePages (siz >>> 12).toNat s.paging destSp destAddr srcSp srcAddr
      let s := { s with paging }
      if left ≠ 0 then (siz - UInt32.ofNat left * PAGE_SIZE, s)
      else (siz, setFlag s dest (flagOf s dest &&& ~~~ALLOC_VIRTUAL))

/-! ## Accesses -/

/-- The area that the fault handler finds. -/
def vmaOf (areas : Areas) (s : State) (space : Ptr) (addr : UInt32) :
    Option KVirtualMemoryAllocation :=
  (if KERNEL_BASE ≤ addr ∧ addr < KERNEL_MEMORY_END then areas.kernel addr
    else areas.user space addr).map s.heap

/-- A write to a present page: a store, or the fault of a read-only page. -/
def write (areas : Areas) (s : State) (space : Ptr) (addr : UInt32) (value : PageTable) : State :=
  let e := s.paging.entry space (pageOf addr)
  if e.present then
    if e.write then { s with paging := s.paging.setEntry e.physicalAddress (wordOf addr) value }
    else { s with
      paging := (mmHandleReadOnlyPageFault s.paging space addr (vmaOf areas s space addr)).2 }
  else s

/-- Swaps exchange addresses only, as in all services. -/
inductive Event
  | acquire (space : Ptr) (addr attr flag : UInt32)
  | release (space : Ptr) (addr : UInt32)
  | duplicate (destSp : Ptr) (destAddr : UInt32) (srcSp : Ptr) (srcAddr siz : UInt32)
  | swap (destSp : Ptr) (destAddr : UInt32) (srcSp : Ptr) (srcAddr siz : UInt32)
  | write (space : Ptr) (addr : UInt32) (value : PageTable)

def step (areas : Areas) (s : State) : Event → State
  | .acquire space addr attr flag =>
      { s with paging := (mmAcquirePhysicalPage s.paging space addr attr flag).2 }
  | .release space addr => { s with paging := mmReleasePhysicalPage s.paging space addr }
  | .duplicate destSp destAddr srcSp srcAddr siz =>
      (mmDuplicateMultiplePhysicalPages areas s destSp destAddr srcSp srcAddr siz).2
  | .swap destSp destAddr srcSp srcAddr siz =>
      (mmSwapMultiplePhysicalPages areas s destSp destAddr srcSp srcAddr siz MAP_ADDRESS).2
  | .write space addr value => write areas s space addr value

/-! ## The law -/

/-- What an entry maps, and whether it may be written. -/
def slotOf (e : PageTable) : Option (Frame × Bool) :=
  if e.present then some (e.physicalAddress, e.write) else none

open Classical in
/-- The entries of all tables, apart from the window. -/
noncomputable def view (s : Paging.State) (x : Frame × Index) : Option (Frame × Bool) :=
  if s.IsTable x.1 ∧ ¬IsWindow x.1 x.2 then slotOf (s.seen x.1 x.2) else none

/-- The place of the entry of a page that has a table. -/
def AtPage (s : Paging.State) (d : Ptr) (v : UInt32) (x : Frame × Index) : Prop :=
  s.dir d (dirIndex v) ≠ .zero ∧ x = ((s.dir d (dirIndex v)).physicalAddress, tableIndex v)

/-- No entry maps the frame, and it holds no table. -/
def Unused (s : Paging.State) (f : Frame) : Prop :=
  ¬s.IsTable f ∧ ∀ x b, view s x ≠ some (f, b)

/-- A mapping finds or makes a clean table in an unused frame. -/
def CleanMap (s : Paging.State) (d : Ptr) (v p a flag : UInt32) : Prop :=
  MapOk s d v p a flag ∧
    (s.dir d (dirIndex v) = .zero → ∀ t, (mmGetPhysicalPage s).1 = some t → Unused s t)

/-- The frame handed out is unused. -/
def AcquireOk (s : Paging.State) (space : Ptr) (addr attr flag : UInt32) : Prop :=
  ∀ f, (mmGetPhysicalPage s).1 = some f → Unused s f ∧
    CleanMap (mmGetPhysicalPage s).2 space addr (addrOf f) (attr ||| PAGE_ATTR_PRESENT)
      (MAP_ADDRESS ||| flag)

/-- There is a table for the source, and nothing at the destination. -/
def Shareable (s : Paging.State) (destSp : Ptr) (destAddr : UInt32) (srcSp : Ptr)
    (srcAddr : UInt32) : Prop :=
  s.dir srcSp (dirIndex srcAddr) ≠ .zero ∧ (s.entry destSp destAddr).present = false

/-- Both pages are mapped cleanly. -/
def DuplicateOk (s : Paging.State) (destSp : Ptr) (destAddr : UInt32) (srcSp : Ptr)
    (srcAddr : UInt32) : Prop :=
  Shareable s destSp destAddr srcSp srcAddr →
    let src := s.entry srcSp srcAddr
    let attr := src.attr &&& ~~~PAGE_ATTR_WRITE
    let s' := increasePhysicalPageReference (queried (queried s srcSp srcAddr) destSp destAddr)
      src.physicalAddress
    CleanMap s' destSp destAddr (addrOf src.physicalAddress) attr
        (MAP_ADDRESS ||| MAP_ATTRIBUTE) ∧
      ¬Reserved s srcSp srcAddr

def DuplicatesOk : ℕ → Paging.State → Ptr → UInt32 → Ptr → UInt32 → Prop
  | 0, _, _, _, _, _ => True
  | count + 1, s, destSp, destAddr, srcSp, srcAddr =>
      DuplicateOk s destSp destAddr srcSp srcAddr ∧
        (Shareable s destSp destAddr srcSp srcAddr →
          DuplicatesOk count (mmDuplicatePhysicalPage s destSp destAddr srcSp srcAddr).2 destSp
            (destAddr + PAGE_SIZE) srcSp (srcAddr + PAGE_SIZE))

/-- The entry `e` with the address of `e'`: if both are absent it becomes present. -/
def exchanged (e e' : PageTable) : PageTable :=
  mapEntry e (addrOf e'.physicalAddress) e'.attr MAP_ADDRESS

/-- What the two pages map behind the swap goes with what all others map, and with each other. -/
def SwapOk (s : Paging.State) (destSp : Ptr) (destAddr : UInt32) (srcSp : Ptr)
    (srcAddr : UInt32) : Prop :=
  let dest := s.entry destSp destAddr
  let src := s.entry srcSp srcAddr
  let s1 := queried (queried s destSp destAddr) srcSp srcAddr
  let s2 := arMapOnePage s1 destSp destAddr (addrOf src.physicalAddress) src.attr MAP_ADDRESS
  CleanMap s1 destSp destAddr (addrOf src.physicalAddress) src.attr MAP_ADDRESS ∧
    CleanMap s2 srcSp srcAddr (addrOf dest.physicalAddress) dest.attr MAP_ADDRESS ∧
    (∀ z, ¬AtPage s destSp destAddr z → ¬AtPage s srcSp srcAddr z →
      Compatible (slotOf (exchanged dest src)) (view s z) ∧
        Compatible (slotOf (exchanged (s2.entry srcSp srcAddr) dest)) (view s z)) ∧
    ((∀ z, AtPage s2 destSp destAddr z → ¬AtPage s2 srcSp srcAddr z) →
      Compatible (slotOf (exchanged dest src)) (slotOf (exchanged (s2.entry srcSp srcAddr) dest)))

def SwapsOk : ℕ → Paging.State → Ptr → UInt32 → Ptr → UInt32 → Prop
  | 0, _, _, _, _, _ => True
  | count + 1, s, destSp, destAddr, srcSp, srcAddr =>
      SwapOk s destSp destAddr srcSp srcAddr ∧
        SwapsOk count (mmSwapPhysicalPage s destSp destAddr srcSp srcAddr MAP_ADDRESS) destSp
          (destAddr + PAGE_SIZE) srcSp (srcAddr + PAGE_SIZE)

/-- A frame for a copy is unused, and a page that becomes writable without a copy is alone with
its frame. -/
def FaultOk (s : Paging.State) (space : Ptr) (page : UInt32) (area : KVirtualMemoryAllocation) :
    Prop :=
  let f := (s.entry space page).physicalAddress
  if getPhysicalPageReference s f > 1 then
    ∀ g, (mmGetPhysicalPage (queried s space page)).1 = some g → Unused s g
  else
    area.memoryAttribute &&& PAGE_ATTR_PRESENT ≠ 0 → area.memoryAttribute &&& PAGE_ATTR_WRITE ≠ 0 →
      ∀ z, ¬AtPage s space page z → ∀ b, view s z ≠ some (f, b)

/-- A store does not go to a page table, and a page that is not copied on write is left alone. -/
def WriteOk (areas : Areas) (s : State) (space : Ptr) (addr : UInt32) : Prop :=
  let page := pageOf addr
  let e := s.paging.entry space page
  e.present = true → ¬Reserved s.paging space page ∧
    if e.write then e.physicalAddress ≠ bootTable ∧ ¬s.paging.IsTable e.physicalAddress
    else ∀ area, vmaOf areas s space addr = some area →
      area.allocationFlag &&& PAGE_ATTR_COPYONWRITE ≠ 0 → FaultOk s.paging space page area

def StepOk (areas : Areas) (s : State) : Event → Prop
  | .acquire space addr attr flag => AcquireOk s.paging space addr attr flag
  | .release space addr => ¬Reserved s.paging space addr
  | .duplicate destSp destAddr srcSp srcAddr siz =>
      (checkDuplicate areas s destSp destAddr srcSp srcAddr siz).1 ≠ none →
        DuplicatesOk (siz >>> 12).toNat s.paging destSp destAddr srcSp srcAddr
  | .swap destSp destAddr srcSp srcAddr siz =>
      checkSwap areas s destSp destAddr srcSp srcAddr siz = true →
        SwapsOk (siz >>> 12).toNat s.paging destSp destAddr srcSp srcAddr
  | .write space addr _ => WriteOk areas s space addr

/-- The entries are isolated at the start. -/
structure Fresh (s : State) : Prop where
  sound : Sound s.paging
  isolated : Isolated (view s.paging)

end Sgos.CopyOnWrite
