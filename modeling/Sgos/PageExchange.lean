import Sgos.FileTransfer
import Sgos.RangeSwap

/-!
# The exchange of two pages

`MmSwapPhysicalPage` with `MAP_ADDRESS` exchanges what two pages hold, as the transfer of files takes
it to do.
-/
namespace Sgos.PageExchange
open ByteStore FileTransfer Paging RangeSwap

/-- What a present page holds: `bytes` reads a frame. -/
def held (bytes : Frame → List UInt8) (s : Paging.State) (d : Ptr) (v : UInt32) :
    Option (List UInt8) :=
  (s.translate d v).map bytes

variable {s : Paging.State} {d d' : Ptr} {v v' : UInt32}

/-- The swap of the transfer, on the page of the open file and the first page of the service. -/
theorem swap_pages (hs : Sound s) (ht : UserTables s) (hv : UserPage v) (hv' : UserPage v')
    (hne : (d, v) ≠ (d', v')) (bytes : Frame → List UInt8) {sys : System}
    (hpage : held bytes s d v = some (readBytes sys.page 0 FileTransfer.PAGE_SIZE))
    (hpages : held bytes s d' v' = some (readBytes sys.pages 0 FileTransfer.PAGE_SIZE)) :
    let s' := mmSwapPhysicalPage s d v d' v' MAP_ADDRESS
    let sys' := sysSwapMemory sys FileTransfer.PAGE_SIZE
    held bytes s' d v = some (readBytes sys'.page 0 FileTransfer.PAGE_SIZE) ∧
      held bytes s' d' v' = some (readBytes sys'.pages 0 FileTransfer.PAGE_SIZE) := by
  have hpresent : ∀ {d v l}, held bytes s d v = some l → (s.entry d v).present = true := by
    intro d v l hl
    by_contra habsent
    rw [held, translate_eq_none.mpr (Bool.not_eq_true _ ▸ habsent)] at hl
    cases hl
  have hswapped := swap_present hs ht hv hv' hne (hpresent hpage) (hpresent hpages)
  have hfirst := hswapped.translate (d, v) hv.aligned
  have hsecond := hswapped.translate (d', v') hv'.aligned
  rw [Equiv.swap_apply_left] at hfirst
  rw [Equiv.swap_apply_right] at hsecond
  dsimp only at hfirst hsecond ⊢
  rw [held, held, hfirst, hsecond, sysSwapMemory_page, sysSwapMemory_pages,
    readBytes_writeBytes_prefix _ _ _ _ le_rfl, readBytes_writeBytes_prefix _ _ _ _ le_rfl]
  exact ⟨hpages, hpage⟩

end Sgos.PageExchange
