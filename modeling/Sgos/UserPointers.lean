import Sgos.Paging
import Sgos.VirtualMemory

/-!
# Pointers in system calls

The checks that `Api_Send`, `Api_Receive` and `Api_InvokeBiosService` (`kernel/tm/sys.c`) and
`ArInvokeBiosService` (`kernel/arch/i386/cpu/vm86.c`) make before they use a pointer of the caller.
The sums of the checks wrap, and so do not bound the object for a pointer or a size near the end of
the address space.
-/
namespace Sgos.UserPointers
open LinkedChain VirtualMemory
open Paging (KERNEL_BASE)

def sizeofMessage : UInt32 := 64
def sizeofContext : UInt32 := 68

/-- What a system call goes on with after its checks. -/
inductive Call
  | ipcCall (msg timeout : UInt32)
  | ipcReceive (msg timeout : UInt32)
  | biosService (interrupt context : UInt32)

def apiSend (msg timeout : UInt32) : Except Int32 Call :=
  if msg + sizeofMessage ≥ KERNEL_BASE then .error (-ERR_WRONGARG)
  else .ok (.ipcCall msg timeout)

def apiReceive (msg timeout : UInt32) : Except Int32 Call :=
  if msg + sizeofMessage ≥ KERNEL_BASE then .error (-ERR_WRONGARG)
  else .ok (.ipcReceive msg timeout)

def arInvokeBiosService (interrupt context siz : UInt32) : Except Int32 Call :=
  if siz < sizeofContext then .error (-ERR_WRONGARG) else .ok (.biosService interrupt context)

/-- `s` is the area list of the current space. -/
def apiInvokeBiosService (s : State) (interrupt context contextSize : UInt32) :
    Except Int32 Call :=
  match mmGetVmaByAddress s context with
  | none => .error (-ERR_WRONGARG)
  | some vma =>
      if areaEnd s vma < context + contextSize then .error (-ERR_WRONGARG)
      else arInvokeBiosService interrupt context contextSize

/-- The object ends at or below the base of the kernel. -/
def UserObject (addr size : UInt32) : Prop := addr.toNat + size.toNat ≤ KERNEL_BASE.toNat

/-- An area of the list that ends before the address space does holds the object. -/
def AreaObject (s : State) (addr size : UInt32) : Prop :=
  ∃ x, Reaches s.prev s.vm.lastAllocation x ∧ s.beg x ≤ addr.toNat ∧
    addr.toNat + size.toNat ≤ s.fin x ∧ s.fin x < addressSpace

/-- The object that a call works on is where the caller may have it. -/
def Call.Valid (s : State) : Call → Prop
  | ipcCall msg _ => UserObject msg sizeofMessage
  | ipcReceive msg _ => UserObject msg sizeofMessage
  | biosService _ context => AreaObject s context sizeofContext

def Safe (s : State) (r : Except Int32 Call) : Prop := ∀ call, r = .ok call → call.Valid s

lemma message_size : sizeofMessage.toNat = 64 := rfl

lemma kernel_base : KERNEL_BASE.toNat = 3221225472 := rfl

/-! ## Messages -/

variable {msg context siz : UInt32}

/-- The check passes below the kernel, and again where the sum wraps. -/
lemma message_passes_iff : ¬msg + sizeofMessage ≥ KERNEL_BASE ↔
    msg.toNat + sizeofMessage.toNat < KERNEL_BASE.toNat ∨
      addressSpace ≤ msg.toNat + sizeofMessage.toNat := by
  have hmsg := msg.toNat_lt
  rw [ge_iff_le, UInt32.le_iff_toNat_le, UInt32.toNat_add, message_size, kernel_base, addressSpace]
  omega

lemma userObject_iff (h : ¬msg + sizeofMessage ≥ KERNEL_BASE) :
    UserObject msg sizeofMessage ↔ msg.toNat + sizeofMessage.toNat < addressSpace := by
  have hpass := message_passes_iff.mp h
  unfold UserObject
  rw [message_size, kernel_base, addressSpace] at *
  omega

/-- A pointer that the sum wraps for gets past the check. -/
lemma passes_of_wraps (h : ¬msg.toNat + sizeofMessage.toNat < addressSpace) :
    ¬msg + sizeofMessage ≥ KERNEL_BASE :=
  message_passes_iff.mpr (.inr (not_lt.mp h))

lemma message_safe_iff {s : State} {call : Call}
    (hvalid : call.Valid s ↔ UserObject msg sizeofMessage) :
    Safe s (if msg + sizeofMessage ≥ KERNEL_BASE then .error (-ERR_WRONGARG) else .ok call) ↔
      msg.toNat + sizeofMessage.toNat < addressSpace := by
  constructor
  · intro hsafe
    by_contra hwraps
    have hpass := passes_of_wraps hwraps
    rw [if_neg hpass] at hsafe
    exact hwraps ((userObject_iff hpass).mp (hvalid.mp (hsafe call rfl)))
  · intro hfits c hc
    split_ifs at hc with hpass
    cases hc
    exact hvalid.mpr ((userObject_iff hpass).mpr hfits)

lemma apiSend_safe_iff (s : State) (timeout : UInt32) :
    Safe s (apiSend msg timeout) ↔ msg.toNat + sizeofMessage.toNat < addressSpace :=
  message_safe_iff Iff.rfl

lemma apiReceive_safe_iff (s : State) (timeout : UInt32) :
    Safe s (apiReceive msg timeout) ↔ msg.toNat + sizeofMessage.toNat < addressSpace :=
  message_safe_iff Iff.rfl

/-! ## Contexts -/

/-- The area that is found holds the address, and its end does not wrap. -/
lemma found_area {s : State} {vma : Ptr} (h : mmGetVmaByAddress s context = some vma) :
    Reaches s.prev s.vm.lastAllocation vma ∧ s.beg vma ≤ context.toNat ∧
      context.toNat < (areaEnd s vma).toNat ∧ (areaEnd s vma).toNat = s.fin vma := by
  obtain ⟨htest, hreach⟩ := search_some h fun y hy => .head hy
  rw [Bool.and_eq_true, decide_eq_true_iff, decide_eq_true_iff, UInt32.le_iff_toNat_le,
    UInt32.lt_iff_toNat_lt] at htest
  refine ⟨hreach, htest.1, htest.2, ?_⟩
  have haddr := (s.heap vma).virtualAddress.toNat_lt
  have hsize := (s.heap vma).virtualSize.toNat_lt
  unfold areaEnd State.fin at *
  rw [UInt32.toNat_add] at htest ⊢
  omega

/-- A size that reaches beyond the address space gets past the check of the end. -/
lemma end_passes {s : State} {vma : Ptr} (h : mmGetVmaByAddress s context = some vma)
    (hwraps : addressSpace ≤ context.toNat + siz.toNat) : ¬areaEnd s vma < context + siz := by
  obtain ⟨-, -, hend, -⟩ := found_area h
  have hcontext := context.toNat_lt
  have hsiz := siz.toNat_lt
  rw [UInt32.lt_iff_toNat_lt, UInt32.toNat_add]
  unfold addressSpace at hwraps
  omega

/-- Without wrapping, the check puts the context into the area that is found. -/
lemma areaObject_of_fits {s : State} {vma : Ptr} (h : mmGetVmaByAddress s context = some vma)
    (hfits : context.toNat + siz.toNat < addressSpace) (hend : ¬areaEnd s vma < context + siz)
    (hsiz : ¬siz < sizeofContext) : AreaObject s context sizeofContext := by
  obtain ⟨hreach, hbeg, -, hfin⟩ := found_area h
  have hlt := (areaEnd s vma).toNat_lt
  rw [UInt32.lt_iff_toNat_lt, toNat_add_of_lt hfits, hfin] at hend
  rw [UInt32.lt_iff_toNat_lt] at hsiz
  refine ⟨vma, hreach, hbeg, by omega, ?_⟩
  rw [← hfin]
  exact hlt

lemma apiInvokeBiosService_safe_iff (s : State) (interrupt : UInt32) :
    Safe s (apiInvokeBiosService s interrupt context siz) ↔
      context.toNat + siz.toNat < addressSpace ∨ siz < sizeofContext ∨
        mmGetVmaByAddress s context = none ∨ AreaObject s context sizeofContext := by
  unfold apiInvokeBiosService
  cases hvma : mmGetVmaByAddress s context with
  | none => simp [Safe]
  | some vma =>
    dsimp only
    unfold arInvokeBiosService
    constructor
    · intro hsafe
      by_cases hfits : context.toNat + siz.toNat < addressSpace
      · exact .inl hfits
      · by_cases hsiz : siz < sizeofContext
        · exact .inr (.inl hsiz)
        · rw [if_neg (end_passes hvma (not_lt.mp hfits)), if_neg hsiz] at hsafe
          exact .inr (.inr (.inr (hsafe _ rfl)))
    · intro hcond call hcall
      split_ifs at hcall with hend hsiz
      cases hcall
      rcases hcond with hfits | hsmall | hnone | harea
      · exact areaObject_of_fits hvma hfits hend hsiz
      · exact absurd hsmall hsiz
      · cases hnone
      · exact harea

/-- The checks keep the object where the caller may have it exactly for the pointers and sizes whose
sums do not wrap, those that are refused in any case, and a context whose area happens to go on. -/
theorem pointers_safe_iff (s : State) (msg timeout interrupt context siz : UInt32) :
    (Safe s (apiSend msg timeout) ∧ Safe s (apiReceive msg timeout) ∧
        Safe s (apiInvokeBiosService s interrupt context siz)) ↔
      msg.toNat + sizeofMessage.toNat < addressSpace ∧
        (context.toNat + siz.toNat < addressSpace ∨ siz < sizeofContext ∨
          mmGetVmaByAddress s context = none ∨ AreaObject s context sizeofContext) := by
  rw [apiSend_safe_iff, apiReceive_safe_iff, apiInvokeBiosService_safe_iff]
  exact ⟨fun h => h.2, fun h => ⟨h.1, h⟩⟩

/-- A space with one area, the page behind the first megabyte. -/
def oneArea : State where
  heap _ := ⟨none, none, 0x100000, 0x1000, 0, 0⟩
  vm := ⟨some 1, some 1, 0x100000, KERNEL_BASE⟩

/-- A message at the end of the address space is accepted, and so is a context at the end of an area
with the largest size. -/
theorem not_pointers_safe : ¬(∀ s msg timeout, Safe s (apiSend msg timeout)) ∧
    ¬∀ s interrupt context siz, Safe s (apiInvokeBiosService s interrupt context siz) := by
  constructor
  · intro hall
    have hsafe := (apiSend_safe_iff oneArea 0).mp (hall oneArea 0xFFFFFFF0 0)
    exact absurd hsafe (by decide)
  · intro hall
    have hcall : apiInvokeBiosService oneArea 0x10 0x100FF0 0xFFFFFFFF =
        .ok (.biosService 0x10 0x100FF0) := by
      have hfound : mmGetVmaByAddress oneArea 0x100FF0 = some 1 := by decide +kernel
      have hend : ¬areaEnd oneArea 1 < 0x100FF0 + 0xFFFFFFFF := by decide
      unfold apiInvokeBiosService
      rw [hfound]
      dsimp only
      rw [if_neg hend]
      rfl
    obtain ⟨x, -, -, hend, -⟩ := hall _ _ _ _ _ hcall
    have hpast : ¬(0x100FF0 : UInt32).toNat + sizeofContext.toNat ≤ 0x101000 := by decide
    exact hpast hend

end Sgos.UserPointers
