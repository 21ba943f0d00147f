import Sgos.Machine
import Mathlib.Logic.Function.Basic

/-!
# Page tables and page frames

The two-level page tables of `kernel/arch/i386/mmu/map.c` and the frame counters of
`kernel/mm/physical.c`. Physical memory is read as frames of 1024 entries; a page directory is kept
beside it, one for each space. The kernel reaches a table through a temporary window, an entry of
the table in frame 0x301, and the page above the window is mapped as any other. Addresses are
page-aligned, as the assertions of the source demand. The flushing of the translation cache is left
out.
-/
namespace Sgos.Paging

abbrev Frame := Fin 1048576
abbrev Index := Fin 1024

def KERNEL_BASE : UInt32 := 0xC0000000
def PAGE_ATTR_PRESENT : UInt32 := 1
def PAGE_ATTR_WRITE : UInt32 := 2
def PAGE_ATTR_USER : UInt32 := 4
def MAP_ADDRESS : UInt32 := 2
def MAP_ATTRIBUTE : UInt32 := 4
def MAP_ZERO : UInt32 := 8

/-- `PHYS_ADDR_TO_PAGE_INDEX`. -/
def frameOf (physAddr : UInt32) : Frame :=
  ⟨physAddr.toNat / 4096, by have := physAddr.toNat_lt; omega⟩

/-- `PAGE_INDEX_TO_PHYS_ADDR`. -/
def addrOf (f : Frame) : UInt32 := UInt32.ofNat (f.val * 4096)

/-- `virt_addr >> 22`. -/
def dirIndex (virtAddr : UInt32) : Index :=
  ⟨virtAddr.toNat / 4194304, by have := virtAddr.toNat_lt; omega⟩

/-- `(virt_addr << 10) >> 22`. -/
def tableIndex (virtAddr : UInt32) : Index :=
  ⟨virtAddr.toNat / 4096 % 1024, Nat.mod_lt _ (by decide)⟩

/-- An entry of a table or a directory. `rest` holds the bits that no function here looks at. -/
structure PageTable where
  present : Bool
  write : Bool
  user : Bool
  rest : Fin 512
  physicalAddress : Frame
  deriving DecidableEq, Repr

namespace PageTable

def zero : PageTable := ⟨false, false, false, 0, 0⟩

/-- The assignment of a word to `v`. -/
def ofWord (v : UInt32) : PageTable where
  present := v &&& 1 ≠ 0
  write := v &&& 2 ≠ 0
  user := v &&& 4 ≠ 0
  rest := ⟨v.toNat / 8 % 512, Nat.mod_lt _ (by decide)⟩
  physicalAddress := frameOf v

/-- The attribute word of `ArQueryPageInformation`. -/
def attr (e : PageTable) : UInt32 :=
  (if e.user then PAGE_ATTR_USER else 0) ||| (if e.write then PAGE_ATTR_WRITE else 0) |||
    (if e.present then PAGE_ATTR_PRESENT else 0)

end PageTable

/-- `page_front`, the first frame that is counted. -/
def pageFront : ℕ := 0x400

structure State where
  mem : Frame → Index → PageTable
  dir : Ptr → Index → PageTable
  pageRef : Frame → UInt8
  totalPages : ℕ
  pageIt : ℕ

namespace State

def setRef (s : State) (f : Frame) (n : UInt8) : State :=
  { s with pageRef := Function.update s.pageRef f n }

def setEntry (s : State) (t : Frame) (i : Index) (e : PageTable) : State :=
  { s with mem := Function.update s.mem t (Function.update (s.mem t) i e) }

def setDir (s : State) (d : Ptr) (i : Index) (e : PageTable) : State :=
  { s with dir := Function.update s.dir d (Function.update (s.dir d) i e) }

end State

/-- A frame that is counted: neither below `page_front` nor beyond the memory. -/
def State.Managed (s : State) (f : Frame) : Prop := pageFront ≤ f.val ∧ f.val < s.totalPages

instance (s : State) (f : Frame) : Decidable (s.Managed f) := inferInstanceAs (Decidable (_ ∧ _))

/-! ## Frames -/

/-- The loop from index `i` over `n` counters, to the first that is zero. -/
def searchFree (pageRef : Frame → UInt8) : ℕ → ℕ → Option Frame
  | 0, _ => none
  | n + 1, i =>
      if h : i < 1048576 then
        if pageRef ⟨i, h⟩ = 0 then some ⟨i, h⟩ else searchFree pageRef n (i + 1)
      else none

/-- The search goes on from `page_it` and starts again at `page_front`. A failed call returns the
address 0, here `none`. `page_used` never changes. -/
def mmGetPhysicalPage (s : State) : Option Frame × State :=
  if s.totalPages = pageFront then (none, s)
  else
    let it := max s.pageIt pageFront
    match searchFree s.pageRef (s.totalPages - it) it with
    | some f => (some f, { s.setRef f (s.pageRef f + 1) with pageIt := f.val + 1 })
    | none =>
        match searchFree s.pageRef (it - pageFront) pageFront with
        | some f => (some f, { s.setRef f (s.pageRef f + 1) with pageIt := f.val + 1 })
        | none => (none, { s with pageIt := it })

def mmFreePhysicalPage (s : State) (f : Frame) : State :=
  if s.Managed f ∧ s.pageRef f ≠ 0 then s.setRef f (s.pageRef f - 1) else s

def increasePhysicalPageReference (s : State) (f : Frame) : State :=
  if s.Managed f ∧ s.pageRef f ≠ 0 then s.setRef f (s.pageRef f + 1) else s

def getPhysicalPageReference (s : State) (f : Frame) : UInt8 :=
  if s.Managed f then s.pageRef f else 0

/-! ## Tables -/

/-- The table that maps the first 4MB of kernel addresses. -/
def bootTable : Frame := 0x301

/-- The place of the window in that table. -/
def windowIndex : Index := 0x303

/-- The place of the page above the window. -/
def spillIndex : Index := 0x304

/-- The frame behind that page where the boot mapping puts it. -/
def spillFrame : Frame := 0x304

def windowEntry (physAddr : UInt32) : PageTable :=
  { PageTable.ofWord physAddr with present := true, write := true }

def arMapTemporaryPage (s : State) (physAddr : UInt32) : State :=
  s.setEntry bootTable windowIndex (windowEntry physAddr)

/-- The frame behind the page above the window. -/
def State.spill (s : State) : Frame := (s.mem bootTable spillIndex).physicalAddress

/-- The physical address and the attributes, or `none` where there is no table. -/
def arQueryPageInformation (s : State) (d : Ptr) (virtAddr : UInt32) :
    Option (UInt32 × UInt32) × State :=
  let de := s.dir d (dirIndex virtAddr)
  if de = .zero then (none, s)
  else
    let s := arMapTemporaryPage s (addrOf de.physicalAddress)
    let te := s.mem de.physicalAddress (tableIndex virtAddr)
    (some (addrOf te.physicalAddress, te.attr), s)

/-- `RtlZeroMemory32( te, 1024 )` from the entry `i` of the table `t` in the window: it clears the
rest of the table and runs on into the page above the window. -/
def zeroFrom (s : State) (t : Frame) (i : Index) : State :=
  { s with mem := fun f j =>
      if f = t ∧ i ≤ j then .zero else if f = s.spill ∧ j < i then .zero else s.mem f j }

def zeroFrame (s : State) (f : Frame) : State :=
  { s with mem := Function.update s.mem f fun _ => .zero }

/-- The new value of an entry. -/
def mapEntry (te : PageTable) (physAddr attr flag : UInt32) : PageTable :=
  let te :=
    if flag &&& MAP_ADDRESS ≠ 0 then
      { te with
        physicalAddress := frameOf physAddr
        present := te.present || attr &&& PAGE_ATTR_PRESENT = 0 }
    else te
  if flag &&& MAP_ATTRIBUTE ≠ 0 then
    { te with
      user := attr &&& PAGE_ATTR_USER ≠ 0
      write := attr &&& PAGE_ATTR_WRITE ≠ 0
      present := attr &&& PAGE_ATTR_PRESENT ≠ 0 }
  else te

/-- The directory entry of a new table. -/
def tableEntry (f : Frame) : PageTable :=
  { PageTable.ofWord (addrOf f) with user := true, write := true, present := true }

/-- The table of an address, in the window: `(newpage, table)`, or `none` if a table is missing and
there is no frame for one. -/
def openTable (s : State) (d : Ptr) (i : Index) : Option (Bool × Frame) × State :=
  if s.dir d i = .zero then
    match mmGetPhysicalPage s with
    | (none, s) => (none, s)
    | (some f, s) =>
        let s := s.setDir d i (tableEntry f)
        (some (true, f), arMapTemporaryPage s (addrOf f))
  else
    let f := (s.dir d i).physicalAddress
    (some (false, f), arMapTemporaryPage s (addrOf f))

def arMapOnePage (s : State) (d : Ptr) (virtAddr physAddr attr flag : UInt32) : State :=
  match openTable s d (dirIndex virtAddr) with
  | (none, s) => s
  | (some (newpage, t), s) =>
      let i := tableIndex virtAddr
      let s := if newpage then zeroFrom s t i else s
      let te := s.mem t i
      let s := s.setEntry t i (mapEntry te physAddr attr flag)
      if flag &&& MAP_ZERO ≠ 0 then
        let physAddr :=
          if flag &&& MAP_ADDRESS ≠ 0 then physAddr else addrOf te.physicalAddress
        zeroFrame (arMapTemporaryPage s physAddr) (frameOf physAddr)
      else s

/-! ## The boot mapping -/

/-- The boot table maps the first 4MB where the kernel starts; no frame is counted yet. `junk` is
what memory holds elsewhere. -/
def boot (totalPages : ℕ) (junk : Frame → Index → PageTable) : State where
  mem f i := if f = bootTable then ⟨true, true, false, 0, i.castLE (by decide)⟩ else junk f i
  dir _ i := if i = 768 then ⟨true, true, false, 0, bootTable⟩ else .zero
  pageRef _ := 0
  totalPages := totalPages
  pageIt := pageFront

end Sgos.Paging
