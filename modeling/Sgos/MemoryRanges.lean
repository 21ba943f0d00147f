import Sgos.CopyOnWrite
import Sgos.VirtualMemoryLookup

/-!
# Ranges of pages and the areas around them

`MmMapMemory`, `MmSwapMultiplePhysicalPages` and `MmDuplicateMultiplePhysicalPages` of
`kernel/mm/physical.c` with the lists in which they look up their areas. Where one of them reads
through a null pointer, it has no value. All three compare 32-bit sums.
-/
namespace Sgos.MemoryRanges
open Paging CopyOnWrite
open VirtualMemory (KVirtualMemory KVirtualMemoryAllocation mmGetVmaByAddress Linking Contains)

/-- The page `k` pages behind an address. -/
def nth (addr : UInt32) (k : ℕ) : UInt32 := addr + UInt32.ofNat (k * 4096)

/-- The pages that a loop over `count` pages goes through. -/
def pages (count : ℕ) (addr : UInt32) : List UInt32 := (List.range count).map (nth addr)

/-- The area lists of the spaces, of the kernel and of the global range. -/
structure Lists where
  user : Ptr → KVirtualMemory
  kernel : KVirtualMemory
  global : KVirtualMemory

section Calls
variable (l : Lists) (s : CopyOnWrite.State)

def areas : Areas where
  user space addr := mmGetVmaByAddress ⟨s.heap, l.user space⟩ addr
  kernel addr := mmGetVmaByAddress ⟨s.heap, l.kernel⟩ addr

/-- The range of an address, for a space. -/
def listOf (space : Ptr) (addr : UInt32) : KVirtualMemory :=
  if KERNEL_BASE ≤ addr ∧ addr < KERNEL_MEMORY_END then l.kernel
  else if addr < KERNEL_BASE then l.user space
  else l.global

def arMapMultiplePages (attr flag : UInt32) :
    ℕ → Paging.State → Ptr → UInt32 → UInt32 → Paging.State
  | 0, s, _, _, _ => s
  | count + 1, s, space, virtAddr, physAddr =>
      arMapMultiplePages attr flag count (arMapOnePage s space virtAddr physAddr attr flag) space
        (virtAddr + CopyOnWrite.PAGE_SIZE) (physAddr + CopyOnWrite.PAGE_SIZE)

/-- What refuses a range in an area found for it. -/
def Unmappable (vma : Ptr) (virtAddr size : UInt32) : Prop :=
  flagOf s vma &&& ALLOC_VIRTUAL = 0 ∨ exceeds s vma virtAddr size

instance (vma : Ptr) (virtAddr size : UInt32) : Decidable (Unmappable s vma virtAddr size) :=
  inferInstanceAs (Decidable (_ ∨ _))

def mmMapMemory (space : Ptr) (virtAddr physAddr size attr flag : UInt32) :
    Int32 × CopyOnWrite.State :=
  match mmGetVmaByAddress ⟨s.heap, listOf l space virtAddr⟩ virtAddr with
  | none => (-ERR_INVALID, s)
  | some vma =>
      if Unmappable s vma virtAddr size then (-ERR_INVALID, s)
      else
        let query := arQueryPageInformation s.paging space virtAddr
        let (_, qAttr) := query.1.getD (0, 0)
        if qAttr &&& PAGE_ATTR_PRESENT ≠ 0 then (-ERR_INVALID, { s with paging := query.2 })
        else
          let attr := attr ||| (s.heap vma).memoryAttribute
          (0, { s with
            paging := arMapMultiplePages attr (flag ||| MAP_ATTRIBUTE) (size >>> 12).toNat query.2
              space virtAddr physAddr })

/-- An area that a range cannot be swapped in. -/
def Unswappable (vma : Ptr) (addr siz : UInt32) : Prop :=
  flagOf s vma &&& ALLOC_SWAP = 0 ∨ exceeds s vma addr siz

instance (vma : Ptr) (addr siz : UInt32) : Decidable (Unswappable s vma addr siz) :=
  inferInstanceAs (Decidable (_ ∨ _))

def Misaligned (destAddr srcAddr siz : UInt32) : Prop :=
  destAddr % CopyOnWrite.PAGE_SIZE ≠ 0 ∨ srcAddr % CopyOnWrite.PAGE_SIZE ≠ 0 ∨
    siz % CopyOnWrite.PAGE_SIZE ≠ 0

instance (destAddr srcAddr siz : UInt32) : Decidable (Misaligned destAddr srcAddr siz) :=
  inferInstanceAs (Decidable (_ ∨ _ ∨ _))

def mmSwapMultiplePhysicalPages (destSp : Ptr) (destAddr : UInt32) (srcSp : Ptr)
    (srcAddr siz flag : UInt32) : Option (UInt32 × CopyOnWrite.State) :=
  if Misaligned destAddr srcAddr siz then some (0, s)
  else do
    let src ← mmGetVmaByAddress ⟨s.heap, l.user srcSp⟩ srcAddr
    if Unswappable s src srcAddr siz then some (0, s)
    else
      let dest ← mmGetVmaByAddress ⟨s.heap, l.user destSp⟩ destAddr
      if Unswappable s dest destAddr siz then some (0, s)
      else
        let count := (siz >>> 12).toNat
        some (siz, { s with paging := swapPages flag count s.paging destSp destAddr srcSp srcAddr })

/-- An area that cannot be shared, or whose range is too short. -/
def Unwritable (vma : Ptr) (addr siz : UInt32) : Prop :=
  (s.heap vma).memoryAttribute &&& PAGE_ATTR_WRITE = 0 ∨ exceeds s vma addr siz

instance (vma : Ptr) (addr siz : UInt32) : Decidable (Unwritable s vma addr siz) :=
  inferInstanceAs (Decidable (_ ∨ _))

/-- The loop over the pages, and what follows it. -/
def sharePages (dest : Ptr) (destSp : Ptr) (destAddr : UInt32) (srcSp : Ptr)
    (srcAddr siz : UInt32) : UInt32 × CopyOnWrite.State :=
  let (left, paging) := duplicatePages (siz >>> 12).toNat s.paging destSp destAddr srcSp srcAddr
  let s := { s with paging }
  if left ≠ 0 then (siz - UInt32.ofNat left * CopyOnWrite.PAGE_SIZE, s)
  else (siz, setFlag s dest (flagOf s dest &&& ~~~ALLOC_VIRTUAL))

/-- An area is marked for copies on write. -/
def mark (vma : Ptr) : CopyOnWrite.State := setFlag s vma (flagOf s vma ||| PAGE_ATTR_COPYONWRITE)

def mmDuplicateMultiplePhysicalPages (destSp : Ptr) (destAddr : UInt32) (srcSp : Ptr)
    (srcAddr siz : UInt32) : Option (UInt32 × CopyOnWrite.State) :=
  if Misaligned destAddr srcAddr siz then some (0, s)
  else do
    let src ← mmGetVmaByAddress ⟨s.heap, l.user srcSp⟩ srcAddr
    if Unwritable s src srcAddr siz then some (0, s)
    else
      let s := mark s src
      let dest ← mmGetVmaByAddress ⟨s.heap, l.user destSp⟩ destAddr
      if Unwritable s dest destAddr siz ∨ flagOf s dest &&& ALLOC_VIRTUAL = 0 then some (0, s)
      else some (sharePages (mark s dest) dest destSp destAddr srcSp srcAddr siz)

end Calls

/-! ## The pages of a range -/

lemma nth_zero (addr : UInt32) : nth addr 0 = addr := by
  rw [nth, Nat.zero_mul]
  exact UInt32.add_zero addr

lemma nth_succ (addr : UInt32) (k : ℕ) : nth addr (k + 1) = nth (addr + CopyOnWrite.PAGE_SIZE) k := by
  have hsum : UInt32.ofNat ((k + 1) * 4096) = CopyOnWrite.PAGE_SIZE + UInt32.ofNat (k * 4096) := by
    rw [Nat.succ_mul, Nat.add_comm, UInt32.ofNat_add]
    congr 1
  rw [nth, nth, hsum, UInt32.add_assoc]

lemma pages_succ (count : ℕ) (addr : UInt32) :
    pages (count + 1) addr = addr :: pages count (addr + CopyOnWrite.PAGE_SIZE) := by
  rw [pages, List.range_succ_eq_map, List.map_cons, List.map_map, nth_zero]
  exact congrArg (List.cons addr) (List.map_congr_left fun k _ => nth_succ addr k)

lemma toNat_nth {addr : UInt32} {k : ℕ} (h : addr.toNat + k * 4096 < addressSpace) :
    (nth addr k).toNat = addr.toNat + k * 4096 := by
  have hk : (UInt32.ofNat (k * 4096)).toNat = k * 4096 := by
    rw [UInt32.toNat_ofNat']
    exact Nat.mod_eq_of_lt (by simp only [addressSpace] at h; omega)
  rw [nth, toNat_add_of_lt (by omega), hk]

lemma toNat_count (siz : UInt32) : (siz >>> 12).toNat = siz.toNat / 4096 := by
  rw [UInt32.toNat_shiftRight]
  exact Nat.shiftRight_eq_div_pow _ _

/-- The loops go through the pages of the ranges, one after the other. -/
theorem arMapMultiplePages_eq (attr flag : UInt32) (count : ℕ) (s : Paging.State) (space : Ptr)
    (virtAddr physAddr : UInt32) :
    arMapMultiplePages attr flag count s space virtAddr physAddr =
      ((pages count virtAddr).zip (pages count physAddr)).foldl
        (fun s x => arMapOnePage s space x.1 x.2 attr flag) s := by
  induction count generalizing s virtAddr physAddr with
  | zero => rfl
  | succ count ih => rw [arMapMultiplePages, ih, pages_succ, pages_succ, List.zip_cons_cons, List.foldl_cons]

theorem swapPages_eq (flag : UInt32) (count : ℕ) (s : Paging.State) (destSp : Ptr)
    (destAddr : UInt32) (srcSp : Ptr) (srcAddr : UInt32) :
    swapPages flag count s destSp destAddr srcSp srcAddr =
      ((pages count destAddr).zip (pages count srcAddr)).foldl
        (fun s x => mmSwapPhysicalPage s destSp x.1 srcSp x.2 flag) s := by
  induction count generalizing s destAddr srcAddr with
  | zero => rfl
  | succ count ih => rw [swapPages, ih, pages_succ, pages_succ, List.zip_cons_cons, List.foldl_cons]

theorem duplicatePages_eq (count : ℕ) (s : Paging.State) (destSp : Ptr) (destAddr : UInt32)
    (srcSp : Ptr) (srcAddr : UInt32) :
    ∃ n, (duplicatePages count s destSp destAddr srcSp srcAddr).2 =
      (((pages count destAddr).zip (pages count srcAddr)).take n).foldl
        (fun s x => (mmDuplicatePhysicalPage s destSp x.1 srcSp x.2).2) s := by
  induction count generalizing s destAddr srcAddr with
  | zero => exact ⟨0, rfl⟩
  | succ count ih =>
    rw [duplicatePages, pages_succ, pages_succ, List.zip_cons_cons]
    dsimp only
    split_ifs
    · exact ⟨1, rfl⟩
    · obtain ⟨n, hn⟩ := ih (mmDuplicatePhysicalPage s destSp destAddr srcSp srcAddr).2
        (destAddr + CopyOnWrite.PAGE_SIZE) (srcAddr + CopyOnWrite.PAGE_SIZE)
      exact ⟨n + 1, hn⟩

/-! ## Ranges that stay inside -/

/-- The range does not wrap, and its pages lie in the area. -/
structure StaysInside (s : VirtualMemory.State) (vma : Ptr) (addr siz : UInt32) : Prop where
  noWrap : addr.toNat + siz.toNat < addressSpace
  inside : ∀ page ∈ pages (siz >>> 12).toNat addr, Contains s vma page

/-- All lists are linked, and no area ends beyond the address space. -/
def Linked (l : Lists) (s : CopyOnWrite.State) : Prop :=
  ∀ vm, vm = l.kernel ∨ vm = l.global ∨ (∃ space, vm = l.user space) →
    ∃ xs, Linking ⟨s.heap, vm⟩ xs

/-- A range that passes the comparison stays inside unless it wraps. -/
lemma staysInside_iff {s : CopyOnWrite.State} {vm : KVirtualMemory} {xs : List Ptr} {vma : Ptr}
    {addr siz : UInt32} (h : Linking ⟨s.heap, vm⟩ xs)
    (hvma : mmGetVmaByAddress ⟨s.heap, vm⟩ addr = some vma) (hfits : ¬exceeds s vma addr siz) :
    StaysInside ⟨s.heap, vm⟩ vma addr siz ↔ addr.toNat + siz.toNat < addressSpace := by
  obtain ⟨hmem, hbeg, -⟩ := h.found hvma
  refine ⟨fun hstays => hstays.noWrap, fun hwrap => ⟨hwrap, fun page hpage => ?_⟩⟩
  have hend : (VirtualMemory.areaEnd ⟨s.heap, vm⟩ vma).toNat =
      VirtualMemory.State.fin ⟨s.heap, vm⟩ vma := toNat_add_of_lt (h.noWrap vma hmem)
  have hle : addr + siz ≤ VirtualMemory.areaEnd ⟨s.heap, vm⟩ vma := UInt32.not_lt.mp hfits
  rw [UInt32.le_iff_toNat_le, toNat_add_of_lt hwrap, hend] at hle
  obtain ⟨k, hk, rfl⟩ := List.mem_map.mp hpage
  rw [List.mem_range, toNat_count] at hk
  have hin : k * 4096 < siz.toNat := by omega
  rw [Contains, toNat_nth (by omega)]
  exact ⟨hbeg.trans (Nat.le_add_right _ _), by omega⟩

section Law
variable (l : Lists) (s : CopyOnWrite.State)

/-- A mapping that is not refused stays inside the area of its first page. -/
def MapInside (space : Ptr) (virtAddr physAddr size attr flag : UInt32) : Prop :=
  (mmMapMemory l s space virtAddr physAddr size attr flag).1 < 0 ∨
    ∃ vma, mmGetVmaByAddress ⟨s.heap, listOf l space virtAddr⟩ virtAddr = some vma ∧
      StaysInside ⟨s.heap, listOf l space virtAddr⟩ vma virtAddr size

/-- A swap reads no missing area, and where its checks pass it stays inside both areas. -/
def SwapInside (destSp : Ptr) (destAddr : UInt32) (srcSp : Ptr) (srcAddr siz flag : UInt32) :
    Prop :=
  mmSwapMultiplePhysicalPages l s destSp destAddr srcSp srcAddr siz flag ≠ none ∧
    ∀ src dest, mmGetVmaByAddress ⟨s.heap, l.user srcSp⟩ srcAddr = some src →
      mmGetVmaByAddress ⟨s.heap, l.user destSp⟩ destAddr = some dest →
      ¬Misaligned destAddr srcAddr siz → ¬Unswappable s src srcAddr siz →
      ¬Unswappable s dest destAddr siz →
        StaysInside ⟨s.heap, l.user srcSp⟩ src srcAddr siz ∧
          StaysInside ⟨s.heap, l.user destSp⟩ dest destAddr siz

/-- What refuses the destination of a duplicate. -/
def Unshareable (vma : Ptr) (addr siz : UInt32) : Prop :=
  Unwritable s vma addr siz ∨ flagOf s vma &&& ALLOC_VIRTUAL = 0

/-- The same for a duplicate. -/
def DuplicateInside (destSp : Ptr) (destAddr : UInt32) (srcSp : Ptr) (srcAddr siz : UInt32) :
    Prop :=
  mmDuplicateMultiplePhysicalPages l s destSp destAddr srcSp srcAddr siz ≠ none ∧
    ∀ src dest, mmGetVmaByAddress ⟨s.heap, l.user srcSp⟩ srcAddr = some src →
      mmGetVmaByAddress ⟨s.heap, l.user destSp⟩ destAddr = some dest →
      ¬Misaligned destAddr srcAddr siz → ¬Unwritable s src srcAddr siz →
      ¬Unshareable s dest destAddr siz →
        StaysInside ⟨s.heap, l.user srcSp⟩ src srcAddr siz ∧
          StaysInside ⟨s.heap, l.user destSp⟩ dest destAddr siz

/-- The sum of address and size does not wrap. -/
def NoWrap (addr siz : UInt32) : Prop := addr.toNat + siz.toNat < addressSpace

/-- The range does not wrap, or is refused. -/
def MapOk (space : Ptr) (virtAddr size : UInt32) : Prop :=
  NoWrap virtAddr size ∨
    ∀ vma, mmGetVmaByAddress ⟨s.heap, listOf l space virtAddr⟩ virtAddr = some vma →
      Unmappable s vma virtAddr size ∨ (s.paging.entry space virtAddr).present = true

/-- The areas that are looked up exist, and ranges that the checks let through do not wrap. -/
def SwapOk (destSp : Ptr) (destAddr : UInt32) (srcSp : Ptr) (srcAddr siz : UInt32) : Prop :=
  Misaligned destAddr srcAddr siz ∨
    ∃ src, mmGetVmaByAddress ⟨s.heap, l.user srcSp⟩ srcAddr = some src ∧
      (Unswappable s src srcAddr siz ∨
        ∃ dest, mmGetVmaByAddress ⟨s.heap, l.user destSp⟩ destAddr = some dest ∧
          (Unswappable s dest destAddr siz ∨ NoWrap srcAddr siz ∧ NoWrap destAddr siz))

def DuplicateOk (destSp : Ptr) (destAddr : UInt32) (srcSp : Ptr) (srcAddr siz : UInt32) : Prop :=
  Misaligned destAddr srcAddr siz ∨
    ∃ src, mmGetVmaByAddress ⟨s.heap, l.user srcSp⟩ srcAddr = some src ∧
      (Unwritable s src srcAddr siz ∨
        ∃ dest, mmGetVmaByAddress ⟨s.heap, l.user destSp⟩ destAddr = some dest ∧
          (Unshareable s dest destAddr siz ∨ NoWrap srcAddr siz ∧ NoWrap destAddr siz))

end Law

section Law
variable {l : Lists} {s : CopyOnWrite.State}

theorem mapInside_iff (h : Linked l s) (space : Ptr) (virtAddr physAddr size attr flag : UInt32) :
    MapInside l s space virtAddr physAddr size attr flag ↔ MapOk l s space virtAddr size := by
  have hlist : ∃ xs, Linking ⟨s.heap, listOf l space virtAddr⟩ xs := by
    apply h
    unfold listOf
    split_ifs
    · exact .inl rfl
    · exact .inr (.inr ⟨space, rfl⟩)
    · exact .inr (.inl rfl)
  obtain ⟨xs, hxs⟩ := hlist
  have hneg : -ERR_INVALID < 0 := by decide
  unfold MapInside MapOk mmMapMemory
  cases hvma : mmGetVmaByAddress ⟨s.heap, listOf l space virtAddr⟩ virtAddr with
  | none => exact iff_of_true (.inl hneg) (.inr fun vma he => by cases he)
  | some vma =>
    have hquery := query_getD s.paging space virtAddr
    dsimp only
    split_ifs with hbad hpresent
    · refine iff_of_true (.inl hneg) (.inr fun v he => ?_)
      cases he
      exact .inl hbad
    · refine iff_of_true (.inl hneg) (.inr fun v he => ?_)
      cases he
      rw [hquery] at hpresent
      exact .inr (by simpa [attr_and_present] using hpresent)
    · have hzero : ¬(0 : Int32) < 0 := by decide
      have hfits := fun he => hbad (.inr he)
      have habsent : ¬(s.paging.entry space virtAddr).present = true := by
        rw [hquery] at hpresent
        simpa [attr_and_present] using hpresent
      constructor
      · rintro (hlt | ⟨v, he, hstays⟩)
        · exact absurd hlt hzero
        · exact .inl hstays.noWrap
      · rintro (hwrap | hall)
        · exact .inr ⟨vma, rfl, (staysInside_iff hxs hvma hfits).mpr hwrap⟩
        · rcases hall vma rfl with hunmap | hp
          · exact absurd hunmap hbad
          · exact absurd hp habsent

theorem swapInside_iff (h : Linked l s) (destSp : Ptr) (destAddr : UInt32) (srcSp : Ptr)
    (srcAddr siz flag : UInt32) :
    SwapInside l s destSp destAddr srcSp srcAddr siz flag ↔
      SwapOk l s destSp destAddr srcSp srcAddr siz := by
  obtain ⟨xs, hxs⟩ := h (l.user srcSp) (.inr (.inr ⟨srcSp, rfl⟩))
  obtain ⟨ys, hys⟩ := h (l.user destSp) (.inr (.inr ⟨destSp, rfl⟩))
  unfold SwapInside SwapOk mmSwapMultiplePhysicalPages
  by_cases halign : Misaligned destAddr srcAddr siz
  · exact iff_of_true ⟨by simp [halign], fun _ _ _ _ hno => absurd halign hno⟩ (.inl halign)
  simp only [halign, if_false, false_or, not_false_eq_true, true_implies]
  cases hsrc : mmGetVmaByAddress ⟨s.heap, l.user srcSp⟩ srcAddr with
  | none => simp
  | some src =>
    by_cases hunsrc : Unswappable s src srcAddr siz
    · refine iff_of_true ⟨by simp [hunsrc], fun v d hv _ hno => ?_⟩ ⟨src, rfl, .inl hunsrc⟩
      cases hv
      exact absurd hunsrc hno
    cases hdest : mmGetVmaByAddress ⟨s.heap, l.user destSp⟩ destAddr with
    | none => simp [hunsrc]
    | some dest =>
      by_cases hundest : Unswappable s dest destAddr siz
      · simp [hundest]
      have hsrcIff := staysInside_iff hxs hsrc fun he => hunsrc (.inr he)
      have hdestIff := staysInside_iff hys hdest fun he => hundest (.inr he)
      simp [hunsrc, hundest, hsrcIff, hdestIff, NoWrap]

lemma mark_self (src : Ptr) : (mark s src).heap src =
    { s.heap src with allocationFlag := flagOf s src ||| PAGE_ATTR_COPYONWRITE } :=
  Function.update_self _ _ _

lemma mark_of_ne {src x : Ptr} (hx : x ≠ src) : (mark s src).heap x = s.heap x :=
  Function.update_of_ne hx _ _

/-- A mark changes flags alone. -/
lemma mark_lookup (src : Ptr) (vm : KVirtualMemory) (addr : UInt32) :
    mmGetVmaByAddress ⟨(mark s src).heap, vm⟩ addr = mmGetVmaByAddress ⟨s.heap, vm⟩ addr := by
  have hread : ∀ {α : Type} (f : KVirtualMemoryAllocation → α),
      (∀ v flag, f { v with allocationFlag := flag } = f v) →
      ∀ x, f ((mark s src).heap x) = f (s.heap x) := by
    intro α f hf x
    by_cases hx : x = src
    · rw [hx, mark_self]
      exact hf _ _
    · rw [mark_of_ne hx]
  have hprev : VirtualMemory.State.prev ⟨(mark s src).heap, vm⟩ =
      VirtualMemory.State.prev ⟨s.heap, vm⟩ := funext (hread (·.prev) fun _ _ => rfl)
  have htest : ∀ x, (((mark s src).heap x).virtualAddress ≤ addr &&
      addr < VirtualMemory.areaEnd ⟨(mark s src).heap, vm⟩ x) =
        ((s.heap x).virtualAddress ≤ addr && addr < VirtualMemory.areaEnd ⟨s.heap, vm⟩ x) :=
    hread (fun v => v.virtualAddress ≤ addr && addr < v.virtualAddress + v.virtualSize)
      fun _ _ => rfl
  unfold mmGetVmaByAddress
  simp only [hprev, htest]

lemma mark_unwritable (src vma : Ptr) (addr siz : UInt32) :
    Unwritable (mark s src) vma addr siz ↔ Unwritable s vma addr siz := by
  unfold Unwritable exceeds
  by_cases hv : vma = src
  · rw [hv, mark_self]
  · rw [mark_of_ne hv]

lemma mark_unshareable (src vma : Ptr) (addr siz : UInt32) :
    Unwritable (mark s src) vma addr siz ∨ flagOf (mark s src) vma &&& ALLOC_VIRTUAL = 0 ↔
      Unshareable s vma addr siz := by
  have hflag : flagOf (mark s src) vma &&& ALLOC_VIRTUAL = flagOf s vma &&& ALLOC_VIRTUAL := by
    by_cases hv : vma = src
    · have hnone : ALLOC_VIRTUAL &&& PAGE_ATTR_COPYONWRITE = 0 := by decide
      rw [hv, flagOf, mark_self]
      dsimp only
      rw [UInt32.and_comm, and_or_distrib_left, hnone, UInt32.or_zero, UInt32.and_comm]
    · rw [flagOf, mark_of_ne hv, flagOf]
  rw [Unshareable, mark_unwritable, hflag]

theorem duplicateInside_iff (h : Linked l s) (destSp : Ptr) (destAddr : UInt32) (srcSp : Ptr)
    (srcAddr siz : UInt32) :
    DuplicateInside l s destSp destAddr srcSp srcAddr siz ↔
      DuplicateOk l s destSp destAddr srcSp srcAddr siz := by
  obtain ⟨xs, hxs⟩ := h (l.user srcSp) (.inr (.inr ⟨srcSp, rfl⟩))
  obtain ⟨ys, hys⟩ := h (l.user destSp) (.inr (.inr ⟨destSp, rfl⟩))
  unfold DuplicateInside DuplicateOk mmDuplicateMultiplePhysicalPages
  by_cases halign : Misaligned destAddr srcAddr siz
  · exact iff_of_true ⟨by simp [halign], fun _ _ _ _ hno => absurd halign hno⟩ (.inl halign)
  simp only [halign, if_false, false_or, not_false_eq_true, true_implies]
  cases hsrc : mmGetVmaByAddress ⟨s.heap, l.user srcSp⟩ srcAddr with
  | none => simp
  | some src =>
    by_cases hunsrc : Unwritable s src srcAddr siz
    · refine iff_of_true ⟨by simp [hunsrc], fun v d hv _ hno => ?_⟩ ⟨src, rfl, .inl hunsrc⟩
      cases hv
      exact absurd hunsrc hno
    cases hdest : mmGetVmaByAddress ⟨s.heap, l.user destSp⟩ destAddr with
    | none => simp [hunsrc, mark_lookup, hdest]
    | some dest =>
      by_cases hundest : Unshareable s dest destAddr siz
      · simp [hunsrc, mark_lookup, hdest, mark_unshareable, hundest]
      have hsrcIff := staysInside_iff hxs hsrc fun he => hunsrc (.inr he)
      have hdestIff := staysInside_iff hys hdest fun he => hundest (.inl (.inr he))
      simp [hunsrc, mark_lookup, hdest, mark_unshareable, hundest, hsrcIff, hdestIff, NoWrap]

variable (l s) in
lemma checkSwap_eq (destSp srcSp : Ptr) (destAddr srcAddr siz : UInt32) :
    checkSwap (areas l s) s destSp destAddr srcSp srcAddr siz =
      if Misaligned destAddr srcAddr siz then false
      else
        match mmGetVmaByAddress ⟨s.heap, l.user srcSp⟩ srcAddr,
          mmGetVmaByAddress ⟨s.heap, l.user destSp⟩ destAddr with
        | some src, some dest =>
            if Unswappable s src srcAddr siz then false
            else if Unswappable s dest destAddr siz then false else true
        | _, _ => false := rfl

/-- Where no missing area is read, the calls are those of `CopyOnWrite`. -/
theorem mmSwapMultiplePhysicalPages_eq {destSp srcSp : Ptr} {destAddr srcAddr siz flag : UInt32}
    {r : UInt32 × CopyOnWrite.State}
    (h : mmSwapMultiplePhysicalPages l s destSp destAddr srcSp srcAddr siz flag = some r) :
    CopyOnWrite.mmSwapMultiplePhysicalPages (areas l s) s destSp destAddr srcSp srcAddr siz flag =
      r := by
  unfold mmSwapMultiplePhysicalPages at h
  rw [CopyOnWrite.mmSwapMultiplePhysicalPages, checkSwap_eq]
  by_cases halign : Misaligned destAddr srcAddr siz
  · simpa [halign] using h
  cases hsrc : mmGetVmaByAddress ⟨s.heap, l.user srcSp⟩ srcAddr with
  | none => simp [halign, hsrc] at h
  | some src =>
    by_cases hunsrc : Unswappable s src srcAddr siz
    · cases hdest : mmGetVmaByAddress ⟨s.heap, l.user destSp⟩ destAddr <;>
        simpa [halign, hsrc, hunsrc] using h
    cases hdest : mmGetVmaByAddress ⟨s.heap, l.user destSp⟩ destAddr with
    | none => simp [halign, hsrc, hdest, hunsrc] at h
    | some dest =>
      by_cases hundest : Unswappable s dest destAddr siz <;>
        simpa [halign, hsrc, hdest, hunsrc, hundest] using h

variable (l s) in
lemma checkDuplicate_eq (destSp srcSp : Ptr) (destAddr srcAddr siz : UInt32) :
    checkDuplicate (areas l s) s destSp destAddr srcSp srcAddr siz =
      if Misaligned destAddr srcAddr siz then (none, s)
      else
        match mmGetVmaByAddress ⟨s.heap, l.user srcSp⟩ srcAddr with
        | none => (none, s)
        | some src =>
            if Unwritable s src srcAddr siz then (none, s)
            else
              match mmGetVmaByAddress ⟨s.heap, l.user destSp⟩ destAddr with
              | none => (none, mark s src)
              | some dest =>
                  if (((mark s src).heap dest).memoryAttribute &&& PAGE_ATTR_WRITE = 0 ∨
                      exceeds (mark s src) dest destAddr siz ∨
                      flagOf (mark s src) dest &&& ALLOC_VIRTUAL = 0) then (none, mark s src)
                  else (some dest, mark (mark s src) dest) := rfl

theorem mmDuplicateMultiplePhysicalPages_eq {destSp srcSp : Ptr} {destAddr srcAddr siz : UInt32}
    {r : UInt32 × CopyOnWrite.State}
    (h : mmDuplicateMultiplePhysicalPages l s destSp destAddr srcSp srcAddr siz = some r) :
    CopyOnWrite.mmDuplicateMultiplePhysicalPages (areas l s) s destSp destAddr srcSp srcAddr siz =
      r := by
  unfold mmDuplicateMultiplePhysicalPages at h
  rw [CopyOnWrite.mmDuplicateMultiplePhysicalPages, checkDuplicate_eq]
  by_cases halign : Misaligned destAddr srcAddr siz
  · simpa [halign] using h
  cases hsrc : mmGetVmaByAddress ⟨s.heap, l.user srcSp⟩ srcAddr with
  | none => simp [halign, hsrc] at h
  | some src =>
    by_cases hunsrc : Unwritable s src srcAddr siz
    · simpa [halign, hsrc, hunsrc] using h
    cases hdest : mmGetVmaByAddress ⟨s.heap, l.user destSp⟩ destAddr with
    | none => simp [halign, hsrc, mark_lookup, hdest, hunsrc] at h
    | some dest =>
      have hor : (((mark s src).heap dest).memoryAttribute &&& PAGE_ATTR_WRITE = 0 ∨
          exceeds (mark s src) dest destAddr siz ∨
          flagOf (mark s src) dest &&& ALLOC_VIRTUAL = 0) ↔ Unshareable s dest destAddr siz := by
        rw [← mark_unshareable src, Unwritable, or_assoc]
      by_cases hundest : Unshareable s dest destAddr siz
      · simpa [halign, hsrc, mark_lookup, hdest, hunsrc, hor, mark_unshareable, hundest] using h
      · simp only [halign, hsrc, mark_lookup, hdest, hunsrc, hor, mark_unshareable, hundest, if_false,
          Option.bind_eq_bind, Option.bind_some, Option.some.injEq] at h ⊢
        exact h

/-- All three calls stay inside the areas of their first pages, and read no missing area, exactly
if the areas they look up exist and no range wraps that their checks let through. -/
theorem ranges_inside_iff (h : Linked l s) (destSp srcSp : Ptr)
    (destAddr srcAddr physAddr siz attr flag : UInt32) :
    (MapInside l s destSp destAddr physAddr siz attr flag ↔ MapOk l s destSp destAddr siz) ∧
      (SwapInside l s destSp destAddr srcSp srcAddr siz flag ↔
        SwapOk l s destSp destAddr srcSp srcAddr siz) ∧
      (DuplicateInside l s destSp destAddr srcSp srcAddr siz ↔
        DuplicateOk l s destSp destAddr srcSp srcAddr siz) :=
  ⟨mapInside_iff h destSp destAddr physAddr siz attr flag,
    swapInside_iff h destSp destAddr srcSp srcAddr siz flag,
    duplicateInside_iff h destSp destAddr srcSp srcAddr siz⟩

end Law

/-- Every space has one area of two pages. -/
def oneArea : CopyOnWrite.State where
  paging := boot 0x1000 fun _ _ => .zero
  heap _ := ⟨none, none, 0x100000, 0x2000, 7, ALLOC_VIRTUAL ||| ALLOC_SWAP⟩

def oneList : Lists where
  user _ := ⟨some 16, some 16, 0x100000, 0xC0000000⟩
  kernel := ⟨none, none, 0xC0400000, 0xE0000000⟩
  global := ⟨none, none, 0xE0000000, 0xE0400000⟩

lemma oneArea_linked : Linked oneList oneArea := by
  rintro vm (rfl | rfl | ⟨space, rfl⟩)
  · exact ⟨[], ⟨⟨LinkedChain.Chain.nil, rfl⟩, by simp⟩⟩
  · exact ⟨[], ⟨⟨LinkedChain.Chain.nil, rfl⟩, by simp⟩⟩
  · exact ⟨[16], ⟨⟨⟨rfl, by decide, rfl, rfl, trivial⟩, rfl⟩, fun x _ => by
      exact (show 0x100000 + 0x2000 < addressSpace by decide)⟩⟩

theorem ranges_inside_iff_onePage :
    (MapInside oneList oneArea 1 0x100000 0x400000 0x1000 7 MAP_ADDRESS ↔
        MapOk oneList oneArea 1 0x100000 0x1000) ∧
      (SwapInside oneList oneArea 1 0x100000 2 0x101000 0x1000 MAP_ADDRESS ↔
        SwapOk oneList oneArea 1 0x100000 2 0x101000 0x1000) ∧
      (DuplicateInside oneList oneArea 1 0x100000 2 0x101000 0x1000 ↔
        DuplicateOk oneList oneArea 1 0x100000 2 0x101000 0x1000) :=
  ranges_inside_iff oneArea_linked 1 2 0x100000 0x101000 0x400000 0x1000 7 MAP_ADDRESS

/-- A range that ends where the address space does is taken for one that ends at 0. -/
theorem not_ranges_inside :
    ¬∀ (l : Lists) (s : CopyOnWrite.State) (destSp srcSp : Ptr)
      (destAddr srcAddr physAddr siz attr flag : UInt32), Linked l s →
        MapInside l s destSp destAddr physAddr siz attr flag ∧
          SwapInside l s destSp destAddr srcSp srcAddr siz flag ∧
          DuplicateInside l s destSp destAddr srcSp srcAddr siz := by
  intro h
  obtain ⟨-, ⟨-, hswap⟩, -⟩ := h oneList oneArea 1 2 0x100000 0x100000 0x400000 0xFFF00000 7
    MAP_ADDRESS oneArea_linked
  have hstays := hswap 16 16 (by decide +kernel) (by decide +kernel) (by decide) (by decide)
    (by decide)
  exact absurd hstays.1.noWrap (by decide)

end Sgos.MemoryRanges
