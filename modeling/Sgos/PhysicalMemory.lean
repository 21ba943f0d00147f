import Sgos.GuardedRun
import Sgos.PagingMap
import Sgos.VirtualMemory

/-!
# Page frames and their users

The operations of `kernel/mm/physical.c` that map, share and release single pages. A space is named
by its page directory.
-/
namespace Sgos.Paging
open VirtualMemory (KVirtualMemoryAllocation)

def PAGE_ATTR_COPYONWRITE : UInt32 := 0x800

def mmAcquirePhysicalPage (s : State) (space : Ptr) (addr attr flag : UInt32) : Int32 × State :=
  match mmGetPhysicalPage s with
  | (none, s) => (-ERR_NOMEM, s)
  | (some f, s) =>
      (0, arMapOnePage s space addr (addrOf f) (attr ||| PAGE_ATTR_PRESENT) (MAP_ADDRESS ||| flag))

def mmReleasePhysicalPage (s : State) (space : Ptr) (addr : UInt32) : State :=
  match arQueryPageInformation s space addr with
  | (none, s) => s
  | (some (physAddr, attr), s) =>
      let s := arMapOnePage s space addr 0 0 MAP_ATTRIBUTE
      if attr &&& PAGE_ATTR_PRESENT ≠ 0 then mmFreePhysicalPage s (frameOf physAddr) else s

/-- Without a table, address and attributes of a page are taken as 0. The call returns 0. -/
def mmSwapPhysicalPage (s : State) (destSp : Ptr) (destAddr : UInt32) (srcSp : Ptr)
    (srcAddr flag : UInt32) : State :=
  let dest := arQueryPageInformation s destSp destAddr
  let src := arQueryPageInformation dest.2 srcSp srcAddr
  let (paD, atD) := dest.1.getD (0, 0)
  let (paS, atS) := src.1.getD (0, 0)
  let s := arMapOnePage src.2 destSp destAddr paS atS flag
  arMapOnePage s srcSp srcAddr paD atD flag

def mmDuplicatePhysicalPage (s : State) (destSp : Ptr) (destAddr : UInt32) (srcSp : Ptr)
    (srcAddr : UInt32) : Int32 × State :=
  match arQueryPageInformation s srcSp srcAddr with
  | (none, s) => (-ERR_INVALID, s)
  | (some (paS, atS), s) =>
      let dest := arQueryPageInformation s destSp destAddr
      let (_, atD) := dest.1.getD (0, 0)
      if atD &&& PAGE_ATTR_PRESENT ≠ 0 then (-ERR_INVALID, dest.2)
      else
        let s := increasePhysicalPageReference dest.2 (frameOf paS)
        let atS := atS &&& ~~~PAGE_ATTR_WRITE
        let s := arMapOnePage s destSp destAddr paS atS (MAP_ADDRESS ||| MAP_ATTRIBUTE)
        (0, arMapOnePage s srcSp srcAddr paS atS (MAP_ADDRESS ||| MAP_ATTRIBUTE))

/-- The copy of a page through the window. -/
def State.copyFrame (s : State) (f g : Frame) : State :=
  { s with mem := Function.update s.mem f (s.mem g) }

/-- `vma` is the area of the address, as `MmGetVmaByAddress` finds it. Without a frame for the copy
the thread is terminated. -/
def mmHandleReadOnlyPageFault (s : State) (space : Ptr) (addr : UInt32)
    (vma : Option KVirtualMemoryAllocation) : Int32 × State :=
  match vma with
  | none => (0, s)
  | some vma =>
      if vma.allocationFlag &&& PAGE_ATTR_COPYONWRITE = 0 then (0, s)
      else
        let addr := addrOf (frameOf addr)
        match arQueryPageInformation s space addr with
        | (none, s) => (0, s)
        | (some (physAddr, _), s) =>
            if getPhysicalPageReference s (frameOf physAddr) > 1 then
              match mmGetPhysicalPage s with
              | (none, s) => (0, s)
              | (some f, s) =>
                  let s := (arMapTemporaryPage s (addrOf f)).copyFrame f (frameOf physAddr)
                  let s := arMapOnePage s space addr (addrOf f) vma.memoryAttribute
                    (MAP_ADDRESS ||| MAP_ATTRIBUTE)
                  -- the frame that is freed is the new one
                  (1, mmFreePhysicalPage s f)
            else (1, arMapOnePage s space addr 0 vma.memoryAttribute MAP_ATTRIBUTE)

/-! ## Calls as events -/

inductive Event
  | acquire (space : Ptr) (addr attr flag : UInt32)
  | release (space : Ptr) (addr : UInt32)
  | swap (destSp : Ptr) (destAddr : UInt32) (srcSp : Ptr) (srcAddr : UInt32)
  | duplicate (destSp : Ptr) (destAddr : UInt32) (srcSp : Ptr) (srcAddr : UInt32)
  | readOnlyFault (space : Ptr) (addr : UInt32) (vma : Option KVirtualMemoryAllocation)

def step (s : State) : Event → State
  | .acquire space addr attr flag => (mmAcquirePhysicalPage s space addr attr flag).2
  | .release space addr => mmReleasePhysicalPage s space addr
  | .swap destSp destAddr srcSp srcAddr =>
      mmSwapPhysicalPage s destSp destAddr srcSp srcAddr (MAP_ADDRESS ||| MAP_ATTRIBUTE)
  | .duplicate destSp destAddr srcSp srcAddr =>
      (mmDuplicatePhysicalPage s destSp destAddr srcSp srcAddr).2
  | .readOnlyFault space addr vma => (mmHandleReadOnlyPageFault s space addr vma).2

end Sgos.Paging
