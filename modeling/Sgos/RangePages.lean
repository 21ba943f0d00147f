import Mathlib.Data.Finset.Card
import Sgos.MemoryRanges
import Sgos.SpaceCreation
import Sgos.UserMemory
import Sgos.UserPages

/-!
# Mapping and acquiring ranges of user pages

`MmMapMemory` maps the pages of a user range one by one; `MmAcquireMultiplePhysicalPages` gives
each page of a range a frame of its own as long as frames last, and
`MmReleaseMultiplePhysicalPages` gives them back.
-/
namespace Sgos.RangePages
open Paging MemoryRanges
open CopyOnWrite (KERNEL_MEMORY_END)
open VirtualMemory (mmGetVmaByAddress)
open SpaceCreation (acquirePages mmAcquireMultiplePhysicalPages)

def releasePages : ℕ → Paging.State → Ptr → UInt32 → Paging.State
  | 0, s, _, _ => s
  | count + 1, s, space, addr =>
      releasePages count (mmReleasePhysicalPage s space addr) space (addr + CopyOnWrite.PAGE_SIZE)

def mmReleaseMultiplePhysicalPages (s : Paging.State) (space : Ptr) (addr siz : UInt32) :
    Paging.State :=
  releasePages (siz >>> 12).toNat s space addr

/-! ## Ranges below the kernel -/

/-- The pages of the range lie below the kernel. -/
structure UserRange (addr : UInt32) (count : ℕ) : Prop where
  aligned : Aligned addr
  below : addr.toNat + count * 4096 ≤ KERNEL_BASE.toNat

section Ranges
variable {addr : UInt32} {count k : ℕ}

lemma UserRange.toNat_nth (h : UserRange addr count) (hk : k < count) :
    (nth addr k).toNat = addr.toNat + k * 4096 := by
  have hbelow := h.below
  have hbase : KERNEL_BASE.toNat < addressSpace := by decide
  apply MemoryRanges.toNat_nth
  omega

lemma UserRange.page (h : UserRange addr count) (hk : k < count) : UserPage (nth addr k) := by
  have haligned : addr.toNat % 4096 = 0 := h.aligned
  have hbelow := h.below
  have hnth := h.toNat_nth hk
  refine ⟨?_, ?_⟩
  · rw [Aligned, hnth]
    omega
  · rw [UInt32.lt_iff_toNat_lt, hnth]
    omega

lemma UserRange.tail (h : UserRange addr (count + 1)) :
    UserRange (addr + CopyOnWrite.PAGE_SIZE) count := by
  have haligned : addr.toNat % 4096 = 0 := h.aligned
  have hbelow := h.below
  have hbase : KERNEL_BASE.toNat < addressSpace := by decide
  have hsize : CopyOnWrite.PAGE_SIZE.toNat = 4096 := by decide
  have hsum : (addr + CopyOnWrite.PAGE_SIZE).toNat = addr.toNat + 4096 := by
    rw [toNat_add_of_lt (by omega), hsize]
  refine ⟨?_, ?_⟩
  · rw [Aligned, hsum]
    omega
  · rw [hsum]
    omega

lemma UserRange.nth_inj (h : UserRange addr count) {j : ℕ} (hj : j < count) (hk : k < count)
    (he : nth addr j = nth addr k) : j = k := by
  have heq := congrArg UInt32.toNat he
  rw [h.toNat_nth hj, h.toNat_nth hk] at heq
  omega

/-- The pages of a range are its first one and those of the rest. -/
lemma nth_cases (p : UInt32 → Prop) :
    (∀ k < count + 1, p (nth addr k)) ↔
      p addr ∧ ∀ k < count, p (nth (addr + CopyOnWrite.PAGE_SIZE) k) := by
  constructor
  · intro h
    refine ⟨?_, fun k hk => ?_⟩
    · have hzero := h 0 (Nat.succ_pos _)
      rwa [nth_zero] at hzero
    · rw [← nth_succ]
      exact h (k + 1) (Nat.succ_lt_succ hk)
  · rintro ⟨hzero, hsucc⟩ k hk
    cases k with
    | zero => rwa [nth_zero]
    | succ k =>
      rw [nth_succ]
      exact hsucc k (Nat.lt_of_succ_lt_succ hk)

end Ranges

/-! ## Mapping a range -/

/-- From `s` to `s'` the pages of a range are mapped to frames in a row, with the same attributes;
only where a table is missing and no frame is free, a page is not mapped. -/
structure MapsRange (s s' : Paging.State) (d : Ptr) (virtAddr physAddr attr : UInt32)
    (count : ℕ) : Prop where
  sound : Sound s'
  tables : UserTables s'
  dir : ∀ d' i, s.dir d' i ≠ .zero → s'.dir d' i = s.dir d' i
  mapped : ∀ k < count, s'.dir d (dirIndex (nth virtAddr k)) ≠ .zero →
    (s'.entry d (nth virtAddr k)).physicalAddress = frameOf (nth physAddr k) ∧
      (s'.entry d (nth virtAddr k)).attr = attr &&& 7
  missing : ∀ k < count, s'.dir d (dirIndex (nth virtAddr k)) = .zero → NoFrame s'
  others : ∀ d' w, Aligned w → s.dir d' (dirIndex w) ≠ .zero →
    ¬(d' = d ∧ ∃ k < count, w = nth virtAddr k) → s'.entry d' w = s.entry d' w
  full : NoFrame s → s'.dir = s.dir ∧ NoFrame s'

section Mapping
variable {s : Paging.State} {d : Ptr} {virtAddr physAddr attr flag : UInt32} {count : ℕ}

/-- Without a free frame no table is added. -/
lemma arMapOnePage_full (hs : Sound s) (ht : UserTables s) {v : UInt32} (hv : UserPage v)
    (hzero : flag &&& MAP_ZERO = 0) (hfull : NoFrame s) (p a : UInt32) :
    (arMapOnePage s d v p a flag).dir = s.dir ∧ NoFrame (arMapOnePage s d v p a flag) := by
  by_cases htable : s.dir d (dirIndex v) = .zero
  · have hmoved := unmoved_full (d := d) p a flag hs htable hfull
    exact ⟨hmoved.dir, hmoved.noFrame.mpr hfull⟩
  · obtain ⟨hmapped, hdir, href⟩ := mapped_table (d := d) p a flag hs ht hv htable
      fun z hz => zeroedFrame_none hzero _ _ hz
    refine ⟨hdir, fun f hf => ?_⟩
    rw [State.Managed, hmapped.totalPages] at hf
    rw [href]
    exact hfull f hf

/-- After its turn a page is mapped, or it has no table and no frame is free. -/
lemma arMapOnePage_cases (hs : Sound s) (ht : UserTables s) {v : UInt32} (hv : UserPage v)
    (haddress : flag &&& MAP_ADDRESS ≠ 0) (hattribute : flag &&& MAP_ATTRIBUTE ≠ 0)
    (hzero : flag &&& MAP_ZERO = 0) (p a : UInt32) :
    let s' := arMapOnePage s d v p a flag
    (s'.dir d (dirIndex v) ≠ .zero ∧ (s'.entry d v).physicalAddress = frameOf p ∧
        (s'.entry d v).attr = a &&& 7) ∨
      (s'.dir d (dirIndex v) = .zero ∧ NoFrame s') := by
  intro s'
  by_cases hroom : s.dir d (dirIndex v) ≠ .zero ∨ ¬NoFrame s
  · have hmapped := mapped_of_room p a flag hs ht hv hroom fun z hz => zeroedFrame_none hzero _ _ hz
    refine .inl ⟨hmapped.table, ?_, ?_⟩
    · rw [hmapped.slot, mapEntry_frame haddress]
    · rw [hmapped.slot, attr_mapEntry haddress hattribute]
  · rw [not_or, not_not, not_not] at hroom
    obtain ⟨hdir, hno⟩ := arMapOnePage_full (d := d) hs ht hv hzero hroom.2 p a
    refine .inr ⟨?_, hno⟩
    rw [hdir]
    exact hroom.1

lemma arMapMultiplePages_maps (hs : Sound s) (ht : UserTables s) (h : UserRange virtAddr count)
    (haddress : flag &&& MAP_ADDRESS ≠ 0) (hattribute : flag &&& MAP_ATTRIBUTE ≠ 0)
    (hzero : flag &&& MAP_ZERO = 0) :
    MapsRange s (arMapMultiplePages attr flag count s d virtAddr physAddr) d virtAddr physAddr
      attr count := by
  induction count generalizing s virtAddr physAddr with
  | zero =>
    exact ⟨hs, ht, fun _ _ _ => rfl, fun k hk => absurd hk (Nat.not_lt_zero k),
      fun k hk => absurd hk (Nat.not_lt_zero k), fun _ _ _ _ _ => rfl, fun hfull => ⟨rfl, hfull⟩⟩
  | succ count ih =>
    have hv : UserPage virtAddr := by
      have hpage := h.page (Nat.succ_pos count)
      rwa [nth_zero] at hpage
    have hfirst := arMapOnePage_extends (d := d) physAddr attr flag hs ht hv
      fun z hz => zeroedFrame_none hzero _ _ hz
    have hcases := arMapOnePage_cases (d := d) hs ht hv haddress hattribute hzero physAddr attr
    have hfull := fun hno => arMapOnePage_full (d := d) hs ht hv hzero hno physAddr attr
    have hrest := @ih _ _ (physAddr + CopyOnWrite.PAGE_SIZE) hfirst.sound hfirst.tables
      h.tail
    rw [arMapMultiplePages]
    generalize arMapOnePage s d virtAddr physAddr attr flag = s1 at hfirst hcases hfull hrest
    generalize arMapMultiplePages attr flag count s1 d (virtAddr + CopyOnWrite.PAGE_SIZE)
      (physAddr + CopyOnWrite.PAGE_SIZE) = s2 at hrest ⊢
    have hapart : ∀ k < count, virtAddr ≠ nth (virtAddr + CopyOnWrite.PAGE_SIZE) k := by
      intro k hk he
      rw [← nth_succ] at he
      have hzero := h.nth_inj (Nat.succ_pos count) (Nat.succ_lt_succ hk)
        ((nth_zero virtAddr).trans he)
      exact absurd hzero (Nat.succ_ne_zero k).symm
    refine ⟨hrest.sound, hrest.tables, ?_, ?_, ?_, ?_, ?_⟩
    · intro d' i hi
      have hkept := hfirst.dir d' i hi
      exact (hrest.dir d' i (by rwa [hkept])).trans hkept
    · intro k hk htable
      cases k with
      | zero =>
        rw [nth_zero] at htable ⊢
        rcases hcases with ⟨htable', hframe, hattr⟩ | ⟨hnone, hno⟩
        · have hentry := hrest.others d virtAddr hv.aligned htable' fun hin =>
            hin.2.elim fun k hk => hapart k hk.1 hk.2
          rw [nth_zero, hentry]
          exact ⟨hframe, hattr⟩
        · rw [(hrest.full hno).1] at htable
          exact absurd hnone htable
      | succ k =>
        rw [nth_succ] at htable ⊢
        rw [nth_succ]
        exact hrest.mapped k (Nat.lt_of_succ_lt_succ hk) htable
    · intro k hk hmissing
      cases k with
      | zero =>
        rw [nth_zero] at hmissing
        rcases hcases with ⟨htable', -⟩ | ⟨-, hno⟩
        · rw [hrest.dir _ _ htable'] at hmissing
          exact absurd hmissing htable'
        · exact (hrest.full hno).2
      | succ k =>
        rw [nth_succ] at hmissing
        exact hrest.missing k (Nat.lt_of_succ_lt_succ hk) hmissing
    · intro d' w hw htable hnot
      have hne : (d', w) ∉ ({(d, virtAddr)} : Set (Ptr × UInt32)) := by
        rintro ⟨rfl, rfl⟩
        exact hnot ⟨rfl, 0, Nat.succ_pos _, (nth_zero _).symm⟩
      rw [← hfirst.others d' w hw htable hne]
      refine hrest.others d' w hw (hfirst.table htable) ?_
      rintro ⟨hd, k, hk, he⟩
      exact hnot ⟨hd, k + 1, Nat.succ_lt_succ hk, by rw [he, nth_succ]⟩
    · intro hno
      obtain ⟨hone, hno'⟩ := hfull hno
      obtain ⟨hall, hlast⟩ := hrest.full hno'
      exact ⟨hall.trans hone, hlast⟩

/-- What does not move the pages before a range is mapped does not matter. -/
lemma MapsRange.of_unmoved {s1 s' : Paging.State} (h : Unmoved s s1)
    (hmaps : MapsRange s1 s' d virtAddr physAddr attr count) :
    MapsRange s s' d virtAddr physAddr attr count where
  sound := hmaps.sound
  tables := hmaps.tables
  dir d' i hi := by
    rw [← h.dir] at hi ⊢
    exact hmaps.dir d' i hi
  mapped := hmaps.mapped
  missing := hmaps.missing
  others d' w hw htable hnot := by
    rw [← h.entry]
    exact hmaps.others d' w hw (by rwa [h.dir]) hnot
  full hno := by
    rw [← h.dir]
    exact hmaps.full (h.noFrame.mpr hno)

end Mapping

/-! ## `MmMapMemory` -/

section Call
variable {l : Lists} {s : CopyOnWrite.State} {space : Ptr}
  {virtAddr physAddr size attr flag : UInt32}

/-- A range below the kernel whose pages lie in an area below the kernel. -/
lemma userRange_of_staysInside {v : VirtualMemory.State} {vma : Ptr} (hv : Aligned virtAddr)
    (huser : virtAddr < KERNEL_BASE) (hstays : StaysInside v vma virtAddr size)
    (hbelow : v.fin vma ≤ KERNEL_BASE.toNat) : UserRange virtAddr (size >>> 12).toNat := by
  have haligned : virtAddr.toNat % 4096 = 0 := hv
  have hbase : KERNEL_BASE.toNat = 3221225472 := by decide
  have hlt : virtAddr.toNat < KERNEL_BASE.toNat := UInt32.lt_iff_toNat_lt.mp huser
  refine ⟨hv, ?_⟩
  cases hcount : (size >>> 12).toNat with
  | zero => omega
  | succ k =>
    have hpage : nth virtAddr k ∈ pages (size >>> 12).toNat virtAddr := by
      rw [hcount]
      exact List.mem_map.mpr ⟨k, List.mem_range.mpr (Nat.lt_succ_self k), rfl⟩
    obtain ⟨-, hend⟩ := hstays.inside _ hpage
    have hwrap := hstays.noWrap
    have hsize : (size >>> 12).toNat = size.toNat / 4096 := toNat_count size
    rw [MemoryRanges.toNat_nth (by omega)] at hend
    omega

lemma or_attribute (flag : UInt32) {m : UInt32} (hm : m &&& MAP_ATTRIBUTE = 0) :
    (flag ||| MAP_ATTRIBUTE) &&& m = flag &&& m := by
  rw [UInt32.and_comm, and_or_distrib_left, hm, UInt32.or_zero, UInt32.and_comm]

/-- The areas of the user list lie below the kernel. -/
def AreasBelow (l : Lists) (s : CopyOnWrite.State) (space : Ptr) : Prop :=
  ∀ addr vma, mmGetVmaByAddress ⟨s.heap, l.user space⟩ addr = some vma →
    VirtualMemory.State.fin ⟨s.heap, l.user space⟩ vma ≤ KERNEL_BASE.toNat

/-- A call for user memory that returns 0 has mapped its range, with the attributes of the area
added; one that returns an error leaves all pages as they were. -/
theorem mmMapMemory_mapsRange (hl : Linked l s) (hs : Sound s.paging) (ht : UserTables s.paging)
    (hbelow : AreasBelow l s space) (huser : virtAddr < KERNEL_BASE) (hv : Aligned virtAddr)
    (hwrap : NoWrap virtAddr size) (haddress : flag &&& MAP_ADDRESS ≠ 0)
    (hzero : flag &&& MAP_ZERO = 0) :
    let call := mmMapMemory l s space virtAddr physAddr size attr flag
    call.2.heap = s.heap ∧
      ((call.1 = -ERR_INVALID ∧ Unmoved s.paging call.2.paging) ∨
        (call.1 = 0 ∧ ∃ vma, mmGetVmaByAddress ⟨s.heap, l.user space⟩ virtAddr = some vma ∧
          MapsRange s.paging call.2.paging space virtAddr physAddr
            (attr ||| (s.heap vma).memoryAttribute) (size >>> 12).toNat)) := by
  have hlist : listOf l space virtAddr = l.user space := by
    have hnot : ¬(KERNEL_BASE ≤ virtAddr ∧ virtAddr < KERNEL_MEMORY_END) := fun hh =>
      absurd hh.1 (UInt32.not_le.mpr huser)
    rw [listOf, if_neg hnot, if_pos huser]
  have hstill : Unmoved s.paging s.paging := ⟨hs, rfl, rfl, rfl, fun _ _ => rfl⟩
  obtain ⟨xs, hxs⟩ := hl (l.user space) (.inr (.inr ⟨space, rfl⟩))
  unfold mmMapMemory
  rw [hlist]
  cases hvma : mmGetVmaByAddress ⟨s.heap, l.user space⟩ virtAddr with
  | none => exact ⟨rfl, .inl ⟨rfl, hstill⟩⟩
  | some vma =>
    have hquery := unmoved_query hs space virtAddr
    dsimp only
    split_ifs with hbad hpresent
    · exact ⟨rfl, .inl ⟨rfl, hstill⟩⟩
    · exact ⟨rfl, .inl ⟨rfl, hquery⟩⟩
    · have hstays := (staysInside_iff hxs hvma fun he => hbad (.inr he)).mpr hwrap
      have hrange := userRange_of_staysInside hv huser hstays (hbelow _ _ hvma)
      have hattribute : (flag ||| MAP_ATTRIBUTE) &&& MAP_ATTRIBUTE ≠ 0 := by
        rw [UInt32.or_comm, and_or_self]
        decide
      have hmaps := @arMapMultiplePages_maps _ space virtAddr physAddr
        (attr ||| (s.heap vma).memoryAttribute) _ _ hquery.sound (hquery.tables ht) hrange
        (by rwa [or_attribute flag (by decide)]) hattribute
        (by rwa [or_attribute flag (by decide)])
      exact ⟨rfl, .inr ⟨rfl, vma, rfl, hmaps.of_unmoved hquery⟩⟩

end Call

/-! ## Pages that are acquired and given back -/

/-- From `s` to `s'` the pages in `xs`, which were not present, have been acquired: each maps a
frame of its own that was free. -/
structure Acquired (s s' : Paging.State) (d : Ptr) (xs : Set UInt32) : Prop where
  sound : Sound s'
  tables : UserTables s'
  totalPages : s'.totalPages = s.totalPages
  dir : s'.dir = s.dir
  absent : ∀ v ∈ xs, UserPage v ∧ s.dir d (dirIndex v) ≠ .zero ∧ s.translate d v = none
  fresh : ∀ v ∈ xs, (s'.entry d v).present = true ∧ s.Managed (s'.entry d v).physicalAddress ∧
    s.pageRef (s'.entry d v).physicalAddress = 0 ∧
      s'.pageRef (s'.entry d v).physicalAddress = 1
  own : ∀ v ∈ xs, ∀ w ∈ xs,
    (s'.entry d v).physicalAddress = (s'.entry d w).physicalAddress → v = w
  counts : ∀ f, (∀ v ∈ xs, (s'.entry d v).physicalAddress ≠ f) → s'.pageRef f = s.pageRef f
  others : ∀ d' w, Aligned w → s.dir d' (dirIndex w) ≠ .zero → (d' = d → w ∉ xs) →
    s'.translate d' w = s.translate d' w

/-- The frames that are counted and free. -/
noncomputable def freeFrames (s : Paging.State) : Finset Frame :=
  open Classical in Finset.univ.filter fun f => s.Managed f ∧ s.pageRef f = 0

section Acquiring
variable {s s' : Paging.State} {d : Ptr} {v attr flag : UInt32} {xs : Set UInt32}

lemma mem_freeFrames {f : Frame} : f ∈ freeFrames s ↔ s.Managed f ∧ s.pageRef f = 0 := by
  simp [freeFrames]

lemma noFrame_iff : NoFrame s ↔ (freeFrames s).card = 0 := by
  rw [Finset.card_eq_zero, Finset.eq_empty_iff_forall_notMem]
  simp only [mem_freeFrames, not_and]
  rfl

lemma Acquired.refl (hs : Sound s) (ht : UserTables s) : Acquired s s d ∅ where
  sound := hs
  tables := ht
  totalPages := rfl
  dir := rfl
  absent v hv := absurd hv (Set.notMem_empty v)
  fresh v hv := absurd hv (Set.notMem_empty v)
  own v hv := absurd hv (Set.notMem_empty v)
  counts _ _ := rfl
  others _ _ _ _ _ := rfl

/-- What moves no page keeps what has been acquired. -/
lemma Acquired.unmoved {s1 : Paging.State} (h : Acquired s s' d xs) (hmoved : Unmoved s' s1) :
    Acquired s s1 d xs where
  sound := hmoved.sound
  tables := hmoved.tables h.tables
  totalPages := hmoved.totalPages.trans h.totalPages
  dir := hmoved.dir.trans h.dir
  absent := h.absent
  fresh v hv := by
    rw [hmoved.entry, hmoved.pageRef]
    exact h.fresh v hv
  own v hv w hw := by
    rw [hmoved.entry, hmoved.entry]
    exact h.own v hv w hw
  counts f hf := by
    rw [hmoved.pageRef]
    refine h.counts f fun v hv => ?_
    rw [← hmoved.entry]
    exact hf v hv
  others d' w hw htable hnot := by
    rw [translate_congr (hmoved.entry d' w)]
    exact h.others d' w hw htable hnot

/-- The entry of an acquired page maps the frame. -/
lemma new_maps {f g : Frame} {attr flag : UInt32} (hattribute : flag &&& MAP_ATTRIBUTE ≠ 0)
    (te : PageTable) :
    (mapEntry te (addrOf f) (attr ||| PAGE_ATTR_PRESENT) (MAP_ADDRESS ||| flag)).Maps g ↔
      g = f := by
  have hattribute' : (MAP_ADDRESS ||| flag) &&& MAP_ATTRIBUTE ≠ 0 := by
    rw [UInt32.and_comm, and_or_distrib_left, UInt32.and_comm MAP_ATTRIBUTE flag]
    rwa [show MAP_ATTRIBUTE &&& MAP_ADDRESS = 0 by decide, UInt32.zero_or]
  have hpresent : decide ((attr ||| PAGE_ATTR_PRESENT) &&& PAGE_ATTR_PRESENT ≠ 0) = true := by
    rw [decide_eq_true_iff, UInt32.or_comm, and_or_self]
    decide
  rw [mapEntry_both (address_flag flag) hattribute', PageTable.Maps, hpresent,
    frameOf_addrOf]
  exact ⟨fun h => h.2.symm, fun h => ⟨rfl, h.symm⟩⟩

/-- Where a frame is free, an acquired page gets one that was free, and nothing else changes. -/
lemma acquire_room (hs : Sound s) (ht : UserTables s) (hv : UserPage v)
    (htable : s.dir d (dirIndex v) ≠ .zero) (hattribute : flag &&& MAP_ATTRIBUTE ≠ 0)
    (hroom : ¬NoFrame s) :
    let call := mmAcquirePhysicalPage s d v attr flag
    call.1 = 0 ∧ ∃ f e, s.Managed f ∧ s.pageRef f = 0 ∧ PageTable.Maps e f ∧
      Mapped s call.2 d v e ∧ call.2.dir = s.dir ∧
      call.2.pageRef = Function.update s.pageRef f 1 := by
  obtain ⟨f, hf⟩ := Option.ne_none_iff_exists'.mp fun hnone => hroom ((get_none_iff hs).mp hnone)
  have hget : mmGetPhysicalPage s = (some f, (mmGetPhysicalPage s).2) := Prod.ext hf rfl
  obtain ⟨hmanaged, hfree, hsame, href, -⟩ := mmGetPhysicalPage_some hs.search hs.front hget
  have hcalm := calm_get hs hget
  have hclear := clearable_of_get hs ht hget
  have htables := get_tables hs ht hget
  unfold mmAcquirePhysicalPage
  rw [hget]
  generalize (mmGetPhysicalPage s).2 = g at hsame href hcalm hclear htables
  dsimp only
  obtain ⟨hmapped, hdir, href'⟩ := mapped_table (d := d) (addrOf f) (attr ||| PAGE_ATTR_PRESENT)
    (MAP_ADDRESS ||| flag) (hcalm.sound hs) htables hv (by rwa [hsame.dir])
    fun z hz => zeroedFrame_address _ _ hz ▸ hclear
  refine ⟨rfl, f, mapEntry (g.entry d v) (addrOf f) (attr ||| PAGE_ATTR_PRESENT)
    (MAP_ADDRESS ||| flag), hmanaged, hfree, ?_, ?_, hdir.trans hsame.dir, href'.trans href⟩
  · exact (new_maps hattribute _).mpr rfl
  · refine ⟨hmapped.sound, hmapped.tables, hmapped.totalPages.trans hsame.totalPages,
      fun d' i hi => ?_, hmapped.table, hmapped.slot, fun d' w hw htable' hne => ?_⟩
    · rw [← hsame.dir] at hi ⊢
      exact hmapped.dir d' i hi
    · rw [← hcalm.entry]
      exact hmapped.others d' w hw (by rwa [hsame.dir]) hne

lemma acquire_none (hs : Sound s) (hno : NoFrame s) :
    let call := mmAcquirePhysicalPage s d v attr flag
    call.1 ≠ 0 ∧ Unmoved s call.2 := by
  have hget : mmGetPhysicalPage s = (none, (mmGetPhysicalPage s).2) :=
    Prod.ext ((get_none_iff hs).mpr hno) rfl
  unfold mmAcquirePhysicalPage
  rw [hget]
  exact ⟨show -ERR_NOMEM ≠ 0 by decide, unmoved_get hs hget⟩

/-- An acquired page is added to those that were acquired before it. -/
lemma Acquired.acquire (h : Acquired s s' d xs) (hv : UserPage v)
    (htable : s.dir d (dirIndex v) ≠ .zero) (habsent : s.translate d v = none) (hnot : v ∉ xs)
    (hattribute : flag &&& MAP_ATTRIBUTE ≠ 0) (hroom : ¬NoFrame s') :
    let call := mmAcquirePhysicalPage s' d v attr flag
    call.1 = 0 ∧ Acquired s call.2 d (insert v xs) ∧
      (freeFrames call.2).card + 1 = (freeFrames s').card := by
  obtain ⟨hzero, f, e, hmanaged, hfree, hmaps, hmapped, hdir, href⟩ :=
    @acquire_room s' d v attr flag h.sound h.tables hv (by rwa [h.dir]) hattribute hroom
  refine ⟨hzero, ?_, ?_⟩
  · generalize (mmAcquirePhysicalPage s' d v attr flag).2 = s1 at hmapped hdir href
    have hkept : ∀ w ∈ xs, s1.entry d w = s'.entry d w := by
      intro w hw
      obtain ⟨hpage, htable', -⟩ := h.absent w hw
      refine hmapped.others d w hpage.aligned (by rwa [h.dir]) fun hh => ?_
      exact hnot (hh.2 ▸ hw)
    -- frames that were acquired before are no longer free
    have hold : ∀ w ∈ xs, (s'.entry d w).physicalAddress ≠ f := by
      rintro w hw rfl
      rw [(h.fresh w hw).2.2.2] at hfree
      exact absurd hfree (by decide)
    have hmanaged' : s.Managed f := by rwa [State.Managed, h.totalPages] at hmanaged
    have hfree' : s.pageRef f = 0 := by
      rw [← h.counts f hold]
      exact hfree
    refine ⟨hmapped.sound, hmapped.tables, hmapped.totalPages.trans h.totalPages,
      hdir.trans h.dir, ?_, ?_, ?_, ?_, ?_⟩
    · rintro w (rfl | hw)
      · exact ⟨hv, htable, habsent⟩
      · exact h.absent w hw
    · rintro w (rfl | hw)
      · rw [hmapped.slot, hmaps.2, href, Function.update_self]
        exact ⟨hmaps.1, hmanaged', hfree', rfl⟩
      · rw [hkept w hw, href, Function.update_of_ne (hold w hw)]
        exact h.fresh w hw
    · rintro w (rfl | hw) u (rfl | hu) he
      · rfl
      · rw [hmapped.slot, hmaps.2, hkept u hu] at he
        exact absurd he.symm (hold u hu)
      · rw [hmapped.slot, hmaps.2, hkept w hw] at he
        exact absurd he (hold w hw)
      · rw [hkept w hw, hkept u hu] at he
        exact h.own w hw u hu he
    · intro g hg
      have hne : g ≠ f := by
        rintro rfl
        refine hg v (Set.mem_insert v xs) ?_
        rw [hmapped.slot]
        exact hmaps.2
      rw [href, Function.update_of_ne hne]
      refine h.counts g fun w hw => ?_
      rw [← hkept w hw]
      exact hg w (Set.mem_insert_of_mem v hw)
    · intro d' w hw htable' hout
      have hne : ¬(d' = d ∧ w = v) := by
        rintro ⟨rfl, rfl⟩
        exact hout rfl (Set.mem_insert w xs)
      rw [translate_congr (hmapped.others d' w hw (by rwa [h.dir]) hne)]
      exact h.others d' w hw htable' fun hd hw => hout hd (Set.mem_insert_of_mem v hw)
  · have hset :
        freeFrames (mmAcquirePhysicalPage s' d v attr flag).2 = (freeFrames s').erase f := by
      ext g
      rw [Finset.mem_erase, mem_freeFrames, mem_freeFrames, State.Managed, hmapped.totalPages, href]
      by_cases hg : g = f
      · rw [hg, Function.update_self]
        simp
      · rw [Function.update_of_ne hg]
        simp [hg, State.Managed]
    rw [hset, Finset.card_erase_add_one (mem_freeFrames.mpr ⟨hmanaged, hfree⟩)]

/-- A released page is unmapped, and then its frame is given back if it was present. -/
lemma release_eq (hs : Sound s) (ht : UserTables s) (hv : UserPage v)
    (htable : s.dir d (dirIndex v) ≠ .zero) :
    ∃ s1 e, PageTable.present e = false ∧ Mapped s s1 d v e ∧ s1.dir = s.dir ∧
      s1.pageRef = s.pageRef ∧ mmReleasePhysicalPage s d v =
        if (s.entry d v).present = true then mmFreePhysicalPage s1 (s.entry d v).physicalAddress
        else s1 := by
  have hquery := unmoved_query hs d v
  obtain ⟨hmapped, hdir, href⟩ := mapped_table (d := d) 0 0 MAP_ATTRIBUTE hquery.sound
    (hquery.tables ht) hv (by rwa [hquery.dir]) fun z hz => zeroedFrame_none (by decide) _ _ hz
  refine ⟨_, _, ?_, ⟨hmapped.sound, hmapped.tables, hmapped.totalPages.trans hquery.totalPages,
    fun d' i hi => ?_, hmapped.table, hmapped.slot, fun d' w hw htable' hne => ?_⟩,
    hdir.trans hquery.dir, href.trans hquery.pageRef, ?_⟩
  · rw [mapEntry_attribute]
    rfl
  · rw [← hquery.dir] at hi ⊢
    exact hmapped.dir d' i hi
  · rw [← hquery.entry]
    exact hmapped.others d' w hw (by rwa [hquery.dir]) hne
  · unfold mmReleasePhysicalPage
    rw [query_some htable]
    dsimp only
    simp only [ne_eq, attr_and_present, Bool.not_eq_false, frameOf_addrOf]

/-- A page that was not acquired stays without a frame. -/
lemma Acquired.release_other (h : Acquired s s' d xs) (hv : UserPage v)
    (htable : s.dir d (dirIndex v) ≠ .zero) (habsent : s.translate d v = none) (hnot : v ∉ xs) :
    Acquired s (mmReleasePhysicalPage s' d v) d xs := by
  have hnone : (s'.entry d v).present = false := by
    apply translate_eq_none.mp
    rw [h.others d v hv.aligned htable fun _ => hnot]
    exact habsent
  obtain ⟨s1, e, he, hmapped, hdir, href, heq⟩ :=
    release_eq h.sound h.tables hv (by rwa [h.dir])
  rw [heq, hnone, if_neg Bool.false_ne_true]
  have hkept : ∀ w ∈ xs, s1.entry d w = s'.entry d w := by
    intro w hw
    obtain ⟨hpage, htable', -⟩ := h.absent w hw
    refine hmapped.others d w hpage.aligned (by rwa [h.dir]) fun hh => ?_
    exact hnot (hh.2 ▸ hw)
  refine ⟨hmapped.sound, hmapped.tables, hmapped.totalPages.trans h.totalPages, hdir.trans h.dir,
    h.absent, fun w hw => ?_, fun w hw u hu heq => ?_, fun f hf => ?_,
    fun d' w hw htable' hout => ?_⟩
  · rw [hkept w hw, href]
    exact h.fresh w hw
  · rw [hkept w hw, hkept u hu] at heq
    exact h.own w hw u hu heq
  · rw [href]
    refine h.counts f fun w hw => ?_
    rw [← hkept w hw]
    exact hf w hw
  · by_cases hpage : d' = d ∧ w = v
    · obtain ⟨rfl, rfl⟩ := hpage
      rw [habsent, translate_eq_none, hmapped.slot]
      exact he
    · rw [translate_congr (hmapped.others d' w hw (by rwa [h.dir]) hpage)]
      exact h.others d' w hw htable' hout

/-- A page that was acquired gives its frame back. -/
lemma Acquired.release_own (ht : UserTables s) (h : Acquired s s' d xs) (hv : v ∈ xs) :
    Acquired s (mmReleasePhysicalPage s' d v) d (xs \ {v}) := by
  obtain ⟨hpage, htable, habsent⟩ := h.absent v hv
  obtain ⟨hpresent, hmanaged, hfree, hone⟩ := h.fresh v hv
  obtain ⟨s1, e, he, hmapped, hdir, href, heq⟩ :=
    release_eq h.sound h.tables hpage (by rwa [h.dir])
  have htotal : s1.totalPages = s.totalPages := hmapped.totalPages.trans h.totalPages
  have hcounted : s1.Managed (s'.entry d v).physicalAddress ∧
      s1.pageRef (s'.entry d v).physicalAddress ≠ 0 := by
    rw [State.Managed, htotal, href, hone]
    exact ⟨hmanaged, by decide⟩
  have hcalm := calm_free hmapped.sound (s'.entry d v).physicalAddress
  have href' : (mmFreePhysicalPage s1 (s'.entry d v).physicalAddress).pageRef =
      Function.update s'.pageRef (s'.entry d v).physicalAddress 0 := by
    rw [mmFreePhysicalPage, if_pos hcounted, setRef_pageRef, href, hone]
    rfl
  rw [heq, if_pos hpresent]
  generalize mmFreePhysicalPage s1 (s'.entry d v).physicalAddress = s2 at hcalm href'
  have hdir2 : s2.dir = s.dir := hcalm.dir.trans (hdir.trans h.dir)
  have hentry : ∀ d' w, Aligned w → s.dir d' (dirIndex w) ≠ .zero → ¬(d' = d ∧ w = v) →
      s2.entry d' w = s'.entry d' w := by
    intro d' w hw htable' hne
    rw [hcalm.entry]
    exact hmapped.others d' w hw (by rwa [h.dir]) hne
  have hkept : ∀ w ∈ xs \ {v}, s2.entry d w = s'.entry d w := by
    intro w hw
    obtain ⟨hpage', htable', -⟩ := h.absent w hw.1
    exact hentry d w hpage'.aligned htable' fun hh => hw.2 hh.2
  have hdistinct : ∀ w ∈ xs \ {v},
      (s'.entry d w).physicalAddress ≠ (s'.entry d v).physicalAddress :=
    fun w hw heq => hw.2 (h.own w hw.1 v hv heq)
  refine ⟨hcalm.sound hmapped.sound, ?_, hcalm.totalPages.trans htotal, hdir2,
    fun w hw => h.absent w hw.1, fun w hw => ?_, fun w hw u hu heq => ?_, fun f hf => ?_,
    fun d' w hw htable' hout => ?_⟩
  · refine ⟨fun d' i hi => ?_, ?_, ?_⟩
    · rw [hdir2] at hi ⊢
      have htable' := h.tables.inUse d' i (by rwa [h.dir])
      rw [h.dir] at htable'
      -- the frame was free before, and a table is not
      have hne : (s.dir d' i).physicalAddress ≠ (s'.entry d v).physicalAddress := by
        intro heq
        rcases ht.inUse d' i hi with hlow | hused
        · rw [heq] at hlow
          exact absurd hmanaged.1 (not_le.mpr hlow)
        · rw [heq] at hused
          exact hused hfree
      rw [State.InUse, href', Function.update_of_ne hne]
      exact htable'
    · rw [hdir2]
      exact ht.own
    · rw [hdir2]
      exact ht.notBoot
  · rw [hkept w hw, href', Function.update_of_ne (hdistinct w hw)]
    exact h.fresh w hw.1
  · rw [hkept w hw, hkept u hu] at heq
    exact h.own w hw.1 u hu.1 heq
  · rw [href']
    by_cases hf' : f = (s'.entry d v).physicalAddress
    · rw [hf', Function.update_self, hfree]
    · rw [Function.update_of_ne hf']
      refine h.counts f fun w hw heq => ?_
      by_cases hwv : w = v
      · exact hf' (hwv ▸ heq.symm)
      · exact hf w ⟨hw, hwv⟩ (by rw [hkept w ⟨hw, hwv⟩]; exact heq)
  · by_cases hpage' : d' = d ∧ w = v
    · obtain ⟨rfl, rfl⟩ := hpage'
      rw [habsent, translate_eq_none, hcalm.entry, hmapped.slot]
      exact he
    · rw [translate_congr (hentry d' w hw htable' hpage')]
      exact h.others d' w hw htable' fun hd hw' => hout hd ⟨hw', fun hv' => hpage' ⟨hd, hv'⟩⟩

end Acquiring

/-! ## Ranges that are acquired and given back -/

/-- The pages of a range have tables, and none of them is present. -/
structure Vacant (s : Paging.State) (d : Ptr) (addr : UInt32) (count : ℕ) : Prop where
  range : UserRange addr count
  table : ∀ k < count, s.dir d (dirIndex (nth addr k)) ≠ .zero
  absent : ∀ k < count, s.translate d (nth addr k) = none

/-- The first `n` pages behind an address. -/
def firstPages (addr : UInt32) (n : ℕ) : Set UInt32 := {v | ∃ k < n, v = nth addr k}

section Ranges
variable {s s' : Paging.State} {d : Ptr} {addr attr flag siz : UInt32} {count : ℕ}
  {xs : Set UInt32}

lemma Vacant.head (h : Vacant s d addr (count + 1)) :
    UserPage addr ∧ s.dir d (dirIndex addr) ≠ .zero ∧ s.translate d addr = none := by
  have hpage := h.range.page (Nat.succ_pos count)
  have htable := h.table 0 (Nat.succ_pos count)
  have habsent := h.absent 0 (Nat.succ_pos count)
  rw [nth_zero] at hpage htable habsent
  exact ⟨hpage, htable, habsent⟩

lemma Vacant.tail (h : Vacant s d addr (count + 1)) :
    Vacant s d (addr + CopyOnWrite.PAGE_SIZE) count where
  range := h.range.tail
  table := ((nth_cases fun v => s.dir d (dirIndex v) ≠ .zero).mp h.table).2
  absent := ((nth_cases fun v => s.translate d v = none).mp h.absent).2

lemma firstPages_zero (addr : UInt32) : firstPages addr 0 = ∅ := by
  ext v
  simp [firstPages]

lemma firstPages_succ (addr : UInt32) (n : ℕ) :
    firstPages addr (n + 1) = insert addr (firstPages (addr + CopyOnWrite.PAGE_SIZE) n) := by
  ext v
  have hcases := @nth_cases addr n fun w => v ≠ w
  rw [← not_iff_not]
  simpa [firstPages] using hcases

/-- The loop acquires pages as long as frames last. -/
lemma Acquired.pages (h : Acquired s s' d xs) (hr : Vacant s d addr count)
    (hnot : ∀ k < count, nth addr k ∉ xs) (hattribute : flag &&& MAP_ATTRIBUTE ≠ 0) :
    let n := min count (freeFrames s').card
    (acquirePages s' d siz attr flag count addr).1 =
        (siz - UInt32.ofNat (count - n) * PAGE_SIZE).toInt32 ∧
      Acquired s (acquirePages s' d siz attr flag count addr).2 d (xs ∪ firstPages addr n) := by
  induction count generalizing s' addr xs with
  | zero =>
    have hsiz : siz = siz - UInt32.ofNat (0 - 0) * PAGE_SIZE := by
      rw [Nat.sub_zero, show UInt32.ofNat 0 * PAGE_SIZE = 0 by decide, UInt32.sub_zero]
    dsimp only
    rw [Nat.zero_min, firstPages_zero, Set.union_empty, ← hsiz]
    exact ⟨rfl, h⟩
  | succ count ih =>
    obtain ⟨hv, htable, habsent⟩ := hr.head
    have hfirst := hnot 0 (Nat.succ_pos count)
    rw [nth_zero] at hfirst
    dsimp only
    rw [acquirePages]
    by_cases hroom : NoFrame s'
    · obtain ⟨hfail, hmoved⟩ := @acquire_none s' d addr attr flag h.sound hroom
      dsimp only
      rw [if_pos hfail, noFrame_iff.mp hroom, Nat.min_zero, firstPages_zero, Set.union_empty]
      exact ⟨rfl, h.unmoved hmoved⟩
    · obtain ⟨hok, hacquired, hcard⟩ :=
        @Acquired.acquire s s' d addr attr flag xs h hv htable habsent hfirst hattribute hroom
      have hrest := ih hacquired hr.tail ?_
      · dsimp only at hrest ⊢
        have hmin : min (count + 1) (freeFrames s').card =
            min count (freeFrames (mmAcquirePhysicalPage s' d addr attr flag).2).card + 1 := by
          omega
        rw [if_neg (not_not.mpr hok), hmin, firstPages_succ, Nat.add_sub_add_right,
          Set.union_insert, ← Set.insert_union]
        exact hrest
      · intro k hk hin
        rw [← nth_succ] at hin
        rcases hin with heq | hin
        · have hzero := hr.range.nth_inj (Nat.succ_lt_succ hk) (Nat.succ_pos count)
            (heq.trans (nth_zero addr).symm)
          exact absurd hzero (Nat.succ_ne_zero k)
        · exact hnot (k + 1) (Nat.succ_lt_succ hk) hin

/-- The loop gives back what was acquired in its range. -/
lemma Acquired.releasePages (ht : UserTables s) (h : Acquired s s' d xs)
    (hr : Vacant s d addr count) (hsub : xs ⊆ firstPages addr count) :
    Acquired s (releasePages count s' d addr) d ∅ := by
  induction count generalizing s' addr xs with
  | zero =>
    rw [firstPages_zero, Set.subset_empty_iff] at hsub
    rw [← hsub]
    exact h
  | succ count ih =>
    obtain ⟨hv, htable, habsent⟩ := hr.head
    rw [firstPages_succ] at hsub
    rw [RangePages.releasePages]
    by_cases hin : addr ∈ xs
    · refine ih (h.release_own ht hin) hr.tail fun v hv => ?_
      exact (hsub hv.1).resolve_left hv.2
    · refine ih (h.release_other hv htable habsent hin) hr.tail fun v hv => ?_
      exact (hsub hv).resolve_left fun heq => hin (heq ▸ hv)

/-- From `s` to `s'` neither a counter nor a table nor a translation has changed. -/
structure Restored (s s' : Paging.State) : Prop where
  sound : Sound s'
  dir : s'.dir = s.dir
  pageRef : s'.pageRef = s.pageRef
  translate : ∀ d v, Aligned v → s'.translate d v = s.translate d v

end Ranges

/-! ## A space with one table -/

lemma oneArea_sound : Sound oneArea.paging := (boot_lawful (by decide) _).sound

lemma oneArea_below (space : Ptr) : AreasBelow oneList oneArea space := fun _ _ _ =>
  show 0x100000 + 0x2000 ≤ 0xC0000000 by decide

theorem mmMapMemory_mapsRange_onePage :
    let call := mmMapMemory oneList oneArea 1 0x100000 0x400000 0x1000 7 MAP_ADDRESS
    call.2.heap = oneArea.heap ∧
      ((call.1 = -ERR_INVALID ∧ Unmoved oneArea.paging call.2.paging) ∨
        (call.1 = 0 ∧ ∃ vma,
          mmGetVmaByAddress ⟨oneArea.heap, oneList.user 1⟩ 0x100000 = some vma ∧
            MapsRange oneArea.paging call.2.paging 1 0x100000 0x400000
              (7 ||| (oneArea.heap vma).memoryAttribute) ((0x1000 : UInt32) >>> 12).toNat)) :=
  mmMapMemory_mapsRange oneArea_linked oneArea_sound (boot_userTables _ _) (oneArea_below 1)
    (by decide) (by decide) (show 0x100000 + 0x1000 < addressSpace by decide) (by decide)
    (by decide)

end Sgos.RangePages
