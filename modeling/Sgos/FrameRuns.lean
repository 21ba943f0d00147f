import Sgos.FrameLaw

/-!
# Runs keep the frame law

When each operation on single pages keeps the law of frame counts, and the law over whole runs.
-/
namespace Sgos.Paging
open GuardedRun PointCount
open VirtualMemory (KVirtualMemoryAllocation)

/-- A present entry that maps a counted frame. -/
def Counted (s : State) (e : PageTable) : Prop := e.present = true ∧ s.Managed e.physicalAddress

/-- The state after a query. -/
def queried (s : State) (d : Ptr) (v : UInt32) : State := (arQueryPageInformation s d v).2

/-- A page is acquired where nothing counted is mapped, and its new entry is present. -/
def AcquireOk (s : State) (space : Ptr) (addr attr flag : UInt32) : Prop :=
  ∀ f, (mmGetPhysicalPage s).1 = some f →
    MapOk (mmGetPhysicalPage s).2 space addr (addrOf f) (attr ||| PAGE_ATTR_PRESENT)
        (MAP_ADDRESS ||| flag) ∧
      ¬ Counted s (s.entry space addr) ∧
      (mapEntry (s.entry space addr) (addrOf f) (attr ||| PAGE_ATTR_PRESENT)
        (MAP_ADDRESS ||| flag)).present = true

/-- Both mappings of a swap are sound. -/
def SwapOk (s : State) (destSp : Ptr) (destAddr : UInt32) (srcSp : Ptr) (srcAddr : UInt32) : Prop :=
  let dest := s.entry destSp destAddr
  let src := s.entry srcSp srcAddr
  let s := queried (queried s destSp destAddr) srcSp srcAddr
  MapOk s destSp destAddr (addrOf src.physicalAddress) src.attr (MAP_ADDRESS ||| MAP_ATTRIBUTE) ∧
    MapOk (arMapOnePage s destSp destAddr (addrOf src.physicalAddress) src.attr
        (MAP_ADDRESS ||| MAP_ATTRIBUTE))
      srcSp srcAddr (addrOf dest.physicalAddress) dest.attr (MAP_ADDRESS ||| MAP_ATTRIBUTE)

/-- A duplicate that is not refused: both mappings are sound, a present source has a counter that
can go up, and the frame of an absent one is free. -/
def DuplicateOk (s : State) (destSp : Ptr) (destAddr : UInt32) (srcSp : Ptr) (srcAddr : UInt32) :
    Prop :=
  s.dir srcSp (dirIndex srcAddr) ≠ .zero → (s.entry destSp destAddr).present = false →
    let src := s.entry srcSp srcAddr
    let attr := src.attr &&& ~~~PAGE_ATTR_WRITE
    let s' := increasePhysicalPageReference (queried (queried s srcSp srcAddr) destSp destAddr)
      src.physicalAddress
    MapOk s' destSp destAddr (addrOf src.physicalAddress) attr (MAP_ADDRESS ||| MAP_ATTRIBUTE) ∧
      MapOk (arMapOnePage s' destSp destAddr (addrOf src.physicalAddress) attr
          (MAP_ADDRESS ||| MAP_ATTRIBUTE))
        srcSp srcAddr (addrOf src.physicalAddress) attr (MAP_ADDRESS ||| MAP_ATTRIBUTE) ∧
      (s.Managed src.physicalAddress →
        if src.present then s.pageRef src.physicalAddress ≠ 255
        else s.pageRef src.physicalAddress = 0)

/-- A copy-on-write fault on a page with a table: no page is copied, and the entry of a counted
page that is not shared stays present or absent. -/
def ReadOnlyFaultOk (s : State) (space : Ptr) (addr : UInt32)
    (vma : Option KVirtualMemoryAllocation) : Prop :=
  let addr := addrOf (frameOf addr)
  ∀ area, vma = some area → area.allocationFlag &&& PAGE_ATTR_COPYONWRITE ≠ 0 →
    s.dir space (dirIndex addr) ≠ .zero →
      let e := s.entry space addr
      ¬ Reserved s space addr ∧
        if getPhysicalPageReference s e.physicalAddress > 1 then
          (mmGetPhysicalPage (queried s space addr)).1 = none
        else
          s.Managed e.physicalAddress →
            (e.present = true ↔ area.memoryAttribute &&& PAGE_ATTR_PRESENT ≠ 0)

def StepOk (s : State) : Event → Prop
  | .acquire space addr attr flag => AcquireOk s space addr attr flag
  | .release space addr => ¬ Reserved s space addr
  | .swap destSp destAddr srcSp srcAddr => SwapOk s destSp destAddr srcSp srcAddr
  | .duplicate destSp destAddr srcSp srcAddr => DuplicateOk s destSp destAddr srcSp srcAddr
  | .readOnlyFault space addr vma => ReadOnlyFaultOk s space addr vma

/-- The counters are right, and no mapped frame is handed out. -/
structure FrameLaw (s : State) : Prop where
  counts : ∀ f, s.Managed f →
    ((s.pageRef f).toNat : ℤ) = count (s.Maps f) + indicator (s.IsTable f)
  inUse : ∀ f x, s.Managed f → s.Maps f x → (mmGetPhysicalPage s).1 ≠ some f

/-- The shared frame and the new one of a write fault that copies its page. -/
def copies (s : State) : Event → Option (Frame × Frame)
  | .readOnlyFault space addr (some area) =>
      if area.allocationFlag &&& PAGE_ATTR_COPYONWRITE = 0 then none
      else
        match arQueryPageInformation s space (addrOf (frameOf addr)) with
        | (none, _) => none
        | (some (physAddr, _), s) =>
            if getPhysicalPageReference s (frameOf physAddr) > 1 then
              (mmGetPhysicalPage s).1.map (frameOf physAddr, ·)
            else none
  | _ => none

/-- A write fault that copies its page leaves the new frame with count one, and one less on the
shared frame. -/
def CopyLaw (s : State) (e : Event) : Prop :=
  ∀ old new, copies s e = some (old, new) →
    (step s e).pageRef new = 1 ∧ (step s e).pageRef old = s.pageRef old - 1

/-! ## Steps that leave the tables alone -/

/-- Directories and the entries of tables are the same. -/
structure Calm (s s' : State) : Prop where
  dir : s'.dir = s.dir
  totalPages : s'.totalPages = s.totalPages
  pageIt : s'.pageIt ≤ s'.totalPages
  seen : ∀ t i, s.IsTable t → s'.seen t i = s.seen t i
  spill : s'.spill = s.spill

section Calm
variable {s s' s'' : State}

lemma Calm.trans (h : Calm s s') (h' : Calm s' s'') : Calm s s'' where
  dir := h'.dir.trans h.dir
  totalPages := h'.totalPages.trans h.totalPages
  pageIt := h'.pageIt
  seen t i ht := (h'.seen t i ((isTable_congr h.dir t).mpr ht)).trans (h.seen t i ht)
  spill := h'.spill.trans h.spill

lemma Calm.isTable (h : Calm s s') (t : Frame) : s'.IsTable t ↔ s.IsTable t :=
  isTable_congr h.dir t

lemma Calm.managed (h : Calm s s') (f : Frame) : s'.Managed f ↔ s.Managed f := by
  rw [State.Managed, State.Managed, h.totalPages]

lemma Calm.reserved (h : Calm s s') (d : Ptr) (v : UInt32) : Reserved s' d v ↔ Reserved s d v := by
  rw [Reserved, Reserved, h.dir]

lemma Calm.entry (h : Calm s s') (d : Ptr) (v : UInt32) : s'.entry d v = s.entry d v := by
  by_cases hz : s.dir d (dirIndex v) = .zero
  · rw [entry_of_no_table (by rwa [h.dir]), entry_of_no_table hz]
  · rw [entry_of_table (by rwa [h.dir]), entry_of_table hz, h.dir, h.seen _ _ ⟨d, _, hz, rfl⟩]

lemma Calm.sound (h : Calm s s') (hs : Sound s) : Sound s' where
  search := h.pageIt
  front := by rw [h.totalPages]; exact hs.front
  spill := h.spill.trans hs.spill
  spillFree := by rw [h.isTable]; exact hs.spillFree

/-- Only the counter changes the balance. -/
lemma Calm.excess (h : Calm s s') (f : Frame) :
    s'.excess f = s.excess f + (s'.pageRef f).toNat - (s.pageRef f).toNat := by
  have hmaps : ∀ x, s'.Maps f x ↔ s.Maps f x := fun x => by
    rw [State.Maps, State.Maps, h.isTable]
    refine and_congr_right fun ht => ?_
    rw [h.seen _ _ ht]
  rw [State.excess, State.excess, count_congr hmaps, indicator_congr (h.isTable f)]
  omega

lemma calm_window (hs : Sound s) (p : UInt32) : Calm s (arMapTemporaryPage s p) where
  dir := rfl
  totalPages := rfl
  pageIt := hs.search
  seen t i _ := by rw [arMapTemporaryPage_seen_eq]
  spill := by rw [spill_eq_seen, spill_eq_seen, arMapTemporaryPage_seen_eq]

lemma calm_query (hs : Sound s) (d : Ptr) (v : UInt32) : Calm s (queried s d v) := by
  rw [queried, arQueryPageInformation]
  split_ifs
  · exact ⟨rfl, rfl, hs.search, fun _ _ _ => rfl, rfl⟩
  · exact calm_window hs _

lemma queried_pageRef (s : State) (d : Ptr) (v : UInt32) : (queried s d v).pageRef = s.pageRef := by
  rw [queried, arQueryPageInformation]
  split_ifs <;> rfl

lemma queried_reference (hs : Sound s) (d : Ptr) (v : UInt32) (f : Frame) :
    getPhysicalPageReference (queried s d v) f = getPhysicalPageReference s f := by
  simp only [getPhysicalPageReference, (calm_query hs d v).managed, queried_pageRef]

lemma setRef_pageRef (s : State) (f : Frame) (n : UInt8) :
    (s.setRef f n).pageRef = Function.update s.pageRef f n := rfl

lemma calm_setRef (hs : Sound s) (f : Frame) (n : UInt8) : Calm s (s.setRef f n) :=
  ⟨rfl, rfl, hs.search, fun _ _ _ => rfl, rfl⟩

lemma calm_free (hs : Sound s) (f : Frame) : Calm s (mmFreePhysicalPage s f) := by
  rw [mmFreePhysicalPage]
  split_ifs
  · exact calm_setRef hs _ _
  · exact ⟨rfl, rfl, hs.search, fun _ _ _ => rfl, rfl⟩

lemma calm_increase (hs : Sound s) (f : Frame) : Calm s (increasePhysicalPageReference s f) := by
  rw [increasePhysicalPageReference]
  split_ifs
  · exact calm_setRef hs _ _
  · exact ⟨rfl, rfl, hs.search, fun _ _ _ => rfl, rfl⟩

lemma calm_get (hs : Sound s) {f : Frame} (h : mmGetPhysicalPage s = (some f, s')) : Calm s s' := by
  obtain ⟨hmanaged, -, hsame, -, hit⟩ := mmGetPhysicalPage_some hs.search hs.front h
  refine ⟨hsame.dir, hsame.totalPages, ?_, fun t i _ => ?_, ?_⟩
  · rw [hit, hsame.totalPages]
    exact hmanaged.2
  · rw [State.seen, State.seen, hsame.mem]
  · rw [State.spill, State.spill, hsame.mem]

lemma calm_get_none (hs : Sound s) (h : mmGetPhysicalPage s = (none, s')) : Calm s s' := by
  obtain ⟨hsame, -, hit⟩ := mmGetPhysicalPage_none hs.search hs.front h
  refine ⟨hsame.dir, hsame.totalPages, hit, fun t i _ => ?_, ?_⟩
  · rw [State.seen, State.seen, hsame.mem]
  · rw [State.spill, State.spill, hsame.mem]

lemma excess_get (hs : Sound s) {f : Frame} (h : mmGetPhysicalPage s = (some f, s')) (g : Frame) :
    s'.excess g = s.excess g + indicator (g = f) := by
  obtain ⟨-, hfree, -, href, -⟩ := mmGetPhysicalPage_some hs.search hs.front h
  rw [(calm_get hs h).excess, href]
  by_cases hg : g = f
  · subst hg
    rw [Function.update_self, hfree, indicator_true rfl]
    simp
  · rw [Function.update_of_ne hg, indicator_false hg]
    omega

lemma excess_free (hs : Sound s) {f : Frame} (hm : s.Managed f) (href : s.pageRef f ≠ 0)
    (g : Frame) : (mmFreePhysicalPage s f).excess g = s.excess g - indicator (g = f) := by
  have hone : (s.pageRef f - 1).toNat + 1 = (s.pageRef f).toNat := by
    have hpos : (s.pageRef f).toNat ≠ 0 := fun hz => href (UInt8.toNat_inj.mp hz)
    have hle : (1 : UInt8) ≤ s.pageRef f := UInt8.le_iff_toNat_le.mpr (by
      rw [UInt8.toNat_one]; omega)
    rw [UInt8.toNat_sub_of_le _ _ hle, UInt8.toNat_one]
    omega
  rw [(calm_free hs f).excess, mmFreePhysicalPage, if_pos ⟨hm, href⟩, setRef_pageRef]
  by_cases hg : g = f
  · subst hg
    rw [Function.update_self, indicator_true rfl]
    omega
  · rw [Function.update_of_ne hg, indicator_false hg]
    omega

lemma free_of_unmanaged {f : Frame} (hm : ¬ s.Managed f) : mmFreePhysicalPage s f = s :=
  if_neg fun hh => hm hh.1

/-- A counter below its top goes up if its frame is counted and in use. -/
lemma excess_increase (hs : Sound s) {f : Frame} (htop : s.Managed f → s.pageRef f ≠ 255)
    (g : Frame) : (increasePhysicalPageReference s f).excess g =
      s.excess g + indicator ((s.Managed f ∧ s.pageRef f ≠ 0) ∧ g = f) := by
  by_cases hf : s.Managed f ∧ s.pageRef f ≠ 0
  · have hone : (s.pageRef f + 1).toNat = (s.pageRef f).toNat + 1 := by
      have hlt := (s.pageRef f).toNat_lt
      have hne : (s.pageRef f).toNat ≠ 255 := fun hz => htop hf.1 (UInt8.toNat_inj.mp hz)
      rw [UInt8.toNat_add, UInt8.toNat_one]
      omega
    rw [(calm_increase hs f).excess, increasePhysicalPageReference, if_pos hf, setRef_pageRef]
    by_cases hg : g = f
    · subst hg
      rw [Function.update_self, indicator_true ⟨hf, rfl⟩]
      omega
    · rw [Function.update_of_ne hg, indicator_false fun hh => hg hh.2]
      omega
  · rw [increasePhysicalPageReference, if_neg hf, indicator_false fun hh => hf hh.1, add_zero]

/-- A counter that goes up does not come to 0. -/
lemma increase_ref_zero {f : Frame} (htop : s.Managed f → s.pageRef f ≠ 255) {g : Frame}
    (h : (increasePhysicalPageReference s f).pageRef g = 0) : s.pageRef g = 0 := by
  rw [increasePhysicalPageReference] at h
  split_ifs at h with hf
  · rw [setRef_pageRef] at h
    by_cases hg : g = f
    · subst hg
      rw [Function.update_self] at h
      have hlt := (s.pageRef g).toNat_lt
      have hne : (s.pageRef g).toNat ≠ 255 := fun hz => htop hf.1 (UInt8.toNat_inj.mp hz)
      have hzero := congrArg UInt8.toNat h
      rw [UInt8.toNat_add, UInt8.toNat_one, UInt8.toNat_zero] at hzero
      omega
    · rwa [Function.update_of_ne hg] at h
  · exact h

end Calm

/-! ## Entries -/

section Entries
variable {s : State} {d : Ptr} {v : UInt32}

lemma query_none (h : s.dir d (dirIndex v) = .zero) : arQueryPageInformation s d v = (none, s) := by
  rw [arQueryPageInformation]
  exact if_pos h

lemma query_some (h : s.dir d (dirIndex v) ≠ .zero) :
    arQueryPageInformation s d v =
      (some (addrOf (s.entry d v).physicalAddress, (s.entry d v).attr), queried s d v) := by
  refine Prod.ext ?_ rfl
  rw [arQueryPageInformation_eq, lookup_eq_entry h, Option.map_some]

/-- Without a table, a query leaves the address and the attributes of an empty entry. -/
lemma query_getD (s : State) (d : Ptr) (v : UInt32) :
    (arQueryPageInformation s d v).1.getD (0, 0) =
      (addrOf (s.entry d v).physicalAddress, (s.entry d v).attr) := by
  by_cases h : s.dir d (dirIndex v) = .zero
  · have hzero : ((0 : UInt32), (0 : UInt32)) =
        (addrOf PageTable.zero.physicalAddress, PageTable.zero.attr) := by decide
    rw [query_none h, entry_of_no_table h, ← hzero, Option.getD_none]
  · rw [query_some h, Option.getD_some]

lemma entry_slot (h : s.dir d (dirIndex v) ≠ .zero) (hpage : ¬ Reserved s d v) {f : Frame}
    (hf : (s.entry d v).Maps f) :
    s.Maps f ((s.dir d (dirIndex v)).physicalAddress, tableIndex v) := by
  rw [entry_of_table h] at hf
  exact ⟨⟨d, _, h, rfl⟩, fun hw => hpage ⟨h, hw.1, .inl hw.2⟩, hf⟩

/-- A frame that a page maps is in use. -/
lemma entry_ref_ne_zero (hpage : ¬ Reserved s d v) {f : Frame} (hf : (s.entry d v).Maps f)
    (hbal : 0 ≤ s.excess f) : s.pageRef f ≠ 0 := by
  by_cases h : s.dir d (dirIndex v) = .zero
  · rw [entry_of_no_table h] at hf
    exact absurd hf (not_maps_zero f)
  · exact ref_ne_zero (entry_slot h hpage hf) hbal

/-- An entry made from what a query found maps what the queried entry maps. -/
lemma mapEntry_maps (te e : PageTable) {a : UInt32}
    (ha : a &&& PAGE_ATTR_PRESENT = e.attr &&& PAGE_ATTR_PRESENT) (f : Frame) :
    (mapEntry te (addrOf e.physicalAddress) a (MAP_ADDRESS ||| MAP_ATTRIBUTE)).Maps f ↔
      e.Maps f := by
  rw [mapEntry_both (by decide) (by decide), PageTable.Maps, PageTable.Maps, frameOf_addrOf, ha]
  refine and_congr_left fun _ => ?_
  rw [decide_eq_true_iff, ne_eq, attr_and_present, Bool.not_eq_false]

lemma and_write_present (a : UInt32) :
    a &&& ~~~PAGE_ATTR_WRITE &&& PAGE_ATTR_PRESENT = a &&& PAGE_ATTR_PRESENT := by
  rw [UInt32.and_assoc]
  rfl

lemma zeroedFrame_none {flag : UInt32} (h : flag &&& MAP_ZERO = 0) (te : PageTable) (p : UInt32)
    {z : Frame} (hz : zeroedFrame te p flag = some z) {q : Prop} : q := by
  rw [zeroedFrame, if_neg (not_not.mpr h)] at hz
  cases hz

lemma and_or_self (a b : UInt32) : (a ||| b) &&& a = a := by
  refine UInt32.toBitVec_inj.mp (BitVec.eq_of_getLsbD_eq fun i _ => ?_)
  simp only [UInt32.toBitVec_and, UInt32.toBitVec_or, BitVec.getLsbD_and, BitVec.getLsbD_or]
  cases a.toBitVec.getLsbD i <;> simp

lemma address_flag (flag : UInt32) : (MAP_ADDRESS ||| flag) &&& MAP_ADDRESS ≠ 0 := by
  rw [and_or_self]
  decide

/-- The frame that is cleared with a mapping that gives an address is the one of the address. -/
lemma zeroedFrame_address (te : PageTable) (f : Frame) {flag : UInt32} {z : Frame}
    (hz : zeroedFrame te (addrOf f) (MAP_ADDRESS ||| flag) = some z) : z = f := by
  rw [zeroedFrame, if_pos (address_flag flag), frameOf_addrOf] at hz
  split_ifs at hz
  exact (Option.some.inj hz).symm

end Entries

/-! ## Steps -/

section Steps
variable {s : State}

lemma acquire_lawful {space : Ptr} {addr attr flag : UInt32} (h : Lawful s)
    (hok : AcquireOk s space addr attr flag) :
    Lawful (mmAcquirePhysicalPage s space addr attr flag).2 := by
  have hs := h.sound
  rw [mmAcquirePhysicalPage]
  cases hget : (mmGetPhysicalPage s).1 with
  | none =>
    have hpair : mmGetPhysicalPage s = (none, (mmGetPhysicalPage s).2) := Prod.ext hget rfl
    rw [hpair]
    have hcalm := calm_get_none hs hpair
    refine ⟨hcalm.sound hs, fun g hg => ?_⟩
    obtain ⟨-, href, -⟩ := mmGetPhysicalPage_none hs.search hs.front hpair
    rw [hcalm.excess, href, h.balanced g ((hcalm.managed g).mp hg)]
    omega
  | some f =>
    have hpair : mmGetPhysicalPage s = (some f, (mmGetPhysicalPage s).2) := Prod.ext hget rfl
    obtain ⟨hmap, hold, hpresent⟩ := hok f hget
    obtain ⟨hmanaged, hfree, -, href, -⟩ := mmGetPhysicalPage_some hs.search hs.front hpair
    have hcalm := calm_get hs hpair
    have hexcess := excess_get hs hpair
    rw [hpair]
    dsimp only
    generalize (mmGetPhysicalPage s).2 = s1 at *
    have hnot := (mappings_eq_zero hfree (h.balanced f hmanaged).ge).2
    have heffect := arMapOnePage_effect (hcalm.sound hs) hmap
      (fun t ht href0 => by
        have hbal := h.balanced t ((hcalm.managed t).mp ht)
        rw [hexcess, hbal, zero_add]
        by_cases htf : t = f
        · rw [indicator_true htf]; decide
        · rw [indicator_false htf])
      (fun z hz => by
        obtain rfl := zeroedFrame_address _ _ hz
        refine ⟨fun he => absurd (he ▸ hmanaged.1) (by decide), ?_, ?_⟩
        · rwa [hcalm.isTable]
        · rw [href, Function.update_self]; decide)
    refine ⟨heffect.sound, fun g hg => ?_⟩
    have hg : s.Managed g := by
      rw [State.Managed, heffect.totalPages, hcalm.totalPages] at hg
      exact hg
    have hte : ¬ (s.entry space addr).Maps g := fun hm => hold ⟨hm.1, hm.2 ▸ hg⟩
    have hnew : (mapEntry (s.entry space addr) (addrOf f) (attr ||| PAGE_ATTR_PRESENT)
        (MAP_ADDRESS ||| flag)).Maps g ↔ g = f := by
      rw [PageTable.Maps, and_iff_right hpresent, mapEntry_frame (address_flag flag),
        frameOf_addrOf]
      exact eq_comm
    rw [heffect.excess, hexcess, hcalm.entry, h.balanced g hg, indicator_false hte,
      indicator_congr hnew]
    omega

/-- A mapping whose new entry maps as many counted frames as the old one keeps the law. -/
lemma lawful_of_excess {s' : State} (hs : Sound s')
    (htotal : s'.totalPages = s.totalPages) (hexcess : ∀ f, s.Managed f → s'.excess f = 0) :
    Lawful s' :=
  ⟨hs, fun f hf => hexcess f (by rwa [State.Managed, htotal] at hf)⟩

lemma release_lawful {space : Ptr} {addr : UInt32} (h : Lawful s) (hpage : ¬ Reserved s space addr) :
    Lawful (mmReleasePhysicalPage s space addr) := by
  have hs := h.sound
  rw [mmReleasePhysicalPage]
  by_cases htable : s.dir space (dirIndex addr) = .zero
  · rw [query_none htable]
    exact h
  · have hcalm := calm_query hs space addr
    have hentry := hcalm.entry space addr
    obtain ⟨heffect, href⟩ := effect_table 0 0 MAP_ATTRIBUTE
      (hcalm.sound hs) (by rwa [hcalm.dir]) (by rwa [hcalm.reserved])
      (fun z hz => zeroedFrame_none (by decide) _ _ hz)
    have htotal := heffect.totalPages.trans hcalm.totalPages
    have hexcess : ∀ g, s.Managed g →
        (arMapOnePage (queried s space addr) space addr 0 0 MAP_ATTRIBUTE).excess g =
          indicator ((s.entry space addr).Maps g) := fun g hg => by
      have hgone : ¬ (mapEntry ((queried s space addr).entry space addr) 0 0 MAP_ATTRIBUTE).Maps g :=
        fun hm => absurd hm.1 (by simp [mapEntry, MAP_ATTRIBUTE])
      rw [heffect.excess, indicator_false hgone, hentry, hcalm.excess, queried_pageRef,
        h.balanced g hg]
      omega
    have hsound := heffect.sound
    rw [query_some htable]
    simp only [frameOf_addrOf, ne_eq, attr_and_present, Bool.not_eq_false]
    rw [queried_pageRef] at href
    generalize arMapOnePage (queried s space addr) space addr 0 0 MAP_ATTRIBUTE = s2 at *
    have hmanaged : ∀ g, s2.Managed g ↔ s.Managed g := fun g => by
      rw [State.Managed, State.Managed, htotal]
    split_ifs with hpresent
    · have hmaps : ∀ g, (s.entry space addr).Maps g ↔ g = (s.entry space addr).physicalAddress :=
        fun g => by rw [PageTable.Maps, and_iff_right hpresent, eq_comm]
      by_cases hm : s.Managed (s.entry space addr).physicalAddress
      · have hne : s2.pageRef (s.entry space addr).physicalAddress ≠ 0 := by
          rw [href]
          exact entry_ref_ne_zero hpage ⟨hpresent, rfl⟩ (h.balanced _ hm).ge
        have hfree := calm_free hsound (s.entry space addr).physicalAddress
        refine lawful_of_excess (hfree.sound hsound) (hfree.totalPages.trans htotal) fun g hg => ?_
        rw [excess_free hsound ((hmanaged _).mpr hm) hne, hexcess g hg, indicator_congr (hmaps g)]
        omega
      · rw [free_of_unmanaged (mt (hmanaged _).mp hm)]
        refine lawful_of_excess hsound htotal fun g hg => ?_
        rw [hexcess g hg, indicator_false fun hh => hm ((hmaps g).mp hh ▸ hg)]
    · refine lawful_of_excess hsound htotal fun g hg => ?_
      rw [hexcess g hg, indicator_false fun hh => hpresent hh.1]

/-- A swap is two mappings with what the queries have found. -/
lemma mmSwapPhysicalPage_eq (hs : Sound s) (destSp srcSp : Ptr) (destAddr srcAddr flag : UInt32) :
    mmSwapPhysicalPage s destSp destAddr srcSp srcAddr flag =
      arMapOnePage (arMapOnePage (queried (queried s destSp destAddr) srcSp srcAddr) destSp destAddr
          (addrOf (s.entry srcSp srcAddr).physicalAddress) (s.entry srcSp srcAddr).attr flag)
        srcSp srcAddr (addrOf (s.entry destSp destAddr).physicalAddress)
        (s.entry destSp destAddr).attr flag := by
  have hdest := query_getD s destSp destAddr
  have hsrc := query_getD (queried s destSp destAddr) srcSp srcAddr
  rw [(calm_query hs destSp destAddr).entry, queried] at hsrc
  simp only [mmSwapPhysicalPage, hdest, hsrc, queried]

lemma swap_lawful {destSp srcSp : Ptr} {destAddr srcAddr : UInt32} (h : Lawful s)
    (hok : SwapOk s destSp destAddr srcSp srcAddr) :
    Lawful (mmSwapPhysicalPage s destSp destAddr srcSp srcAddr (MAP_ADDRESS ||| MAP_ATTRIBUTE)) := by
  have hs := h.sound
  have hcalm1 := calm_query hs destSp destAddr
  have hcalm := hcalm1.trans (calm_query (hcalm1.sound hs) srcSp srcAddr)
  have href : (queried (queried s destSp destAddr) srcSp srcAddr).pageRef = s.pageRef := by
    rw [queried_pageRef, queried_pageRef]
  rw [mmSwapPhysicalPage_eq hs]
  obtain ⟨hmap1, hmap2⟩ := hok
  generalize queried (queried s destSp destAddr) srcSp srcAddr = s1 at *
  have hbal : ∀ g, s.Managed g → s1.excess g = 0 := fun g hg => by
    rw [hcalm.excess, href, h.balanced g hg]
    omega
  have heffect1 := arMapOnePage_effect (hcalm.sound hs) hmap1
    (fun t ht _ => (hbal t ((hcalm.managed t).mp ht)).ge)
    (fun z hz => zeroedFrame_none (by decide) _ _ hz)
  have hnew1 := mapEntry_maps (s1.entry destSp destAddr) (s.entry srcSp srcAddr) rfl
  generalize arMapOnePage s1 destSp destAddr (addrOf (s.entry srcSp srcAddr).physicalAddress)
    (s.entry srcSp srcAddr).attr (MAP_ADDRESS ||| MAP_ATTRIBUTE) = s2 at *
  have htotal := heffect1.totalPages.trans hcalm.totalPages
  have hexcess2 : ∀ g, s.Managed g → s2.excess g =
      indicator ((s.entry destSp destAddr).Maps g) - indicator ((s.entry srcSp srcAddr).Maps g) :=
    fun g hg => by
      rw [heffect1.excess, indicator_congr (hnew1 g), hcalm.entry, hbal g hg, zero_add]
  -- a frame the source page maps is in use all along
  have hused : ∀ g, s.Managed g → s2.pageRef g = 0 → ¬ (s.entry srcSp srcAddr).Maps g := by
    intro g hg hz hm
    have hnot : ¬ Reserved s srcSp srcAddr := by
      rintro ⟨ht, hframe, hi⟩
      have hdir := heffect1.tables srcSp (dirIndex srcAddr) (by rwa [hcalm.dir])
      rw [hcalm.dir] at hdir
      exact hmap2.page ⟨by rwa [hdir], by rwa [hdir], hi⟩
    refine entry_ref_ne_zero hnot hm (h.balanced g hg).ge ?_
    rw [← href]
    exact heffect1.free g hz
  have heffect2 := arMapOnePage_effect heffect1.sound hmap2
    (fun t ht hz => by
      have ht : s.Managed t := by rwa [State.Managed, htotal] at ht
      rw [hexcess2 t ht, indicator_false (hused t ht hz), sub_zero]
      exact indicator_nonneg _)
    (fun z hz => zeroedFrame_none (by decide) _ _ hz)
  have hnew2 := mapEntry_maps (s2.entry srcSp srcAddr) (s.entry destSp destAddr) rfl
  refine lawful_of_excess heffect2.sound (heffect2.totalPages.trans htotal) fun g hg => ?_
  have hold : (s2.entry srcSp srcAddr).Maps g ↔ (s.entry srcSp srcAddr).Maps g := by
    rcases heffect1.entries srcSp srcAddr g with he | he
    · exact he.trans (hnew1 g)
    · rw [he, hcalm.entry]
  rw [heffect2.excess, hexcess2 g hg, indicator_congr (hnew2 g), indicator_congr hold]
  omega

/-- Two mappings to the frame of a page, one of them of the page itself: the other page is the only
one that changes. -/
lemma share_effect {s2 s3 : State} {destSp srcSp : Ptr} {destAddr srcAddr : UInt32}
    {src e1 e2 : PageTable} (heffect1 : Effect s s2 destSp destAddr e1)
    (heffect2 : Effect s2 s3 srcSp srcAddr e2) (hsrc : s.entry srcSp srcAddr = src)
    (he1 : ∀ f, e1.Maps f ↔ src.Maps f) (he2 : ∀ f, e2.Maps f ↔ src.Maps f) (f : Frame) :
    s3.excess f = s.excess f + indicator ((s.entry destSp destAddr).Maps f) -
      indicator (src.Maps f) := by
  have hold : (s2.entry srcSp srcAddr).Maps f ↔ src.Maps f := by
    rcases heffect1.entries srcSp srcAddr f with he | he
    · exact he.trans (he1 f)
    · rw [he, hsrc]
  rw [heffect2.excess, heffect1.excess, indicator_congr (he1 f), indicator_congr (he2 f),
    indicator_congr hold]
  omega

lemma duplicate_lawful {destSp srcSp : Ptr} {destAddr srcAddr : UInt32} (h : Lawful s)
    (hok : DuplicateOk s destSp destAddr srcSp srcAddr) :
    Lawful (mmDuplicatePhysicalPage s destSp destAddr srcSp srcAddr).2 := by
  have hs := h.sound
  rw [mmDuplicatePhysicalPage]
  by_cases htable : s.dir srcSp (dirIndex srcAddr) = .zero
  · rw [query_none htable]
    exact h
  have hcalm1 := calm_query hs srcSp srcAddr
  have hcalm := hcalm1.trans (calm_query (hcalm1.sound hs) destSp destAddr)
  have href : (queried (queried s srcSp srcAddr) destSp destAddr).pageRef = s.pageRef := by
    rw [queried_pageRef, queried_pageRef]
  have hdest := query_getD (queried s srcSp srcAddr) destSp destAddr
  rw [hcalm1.entry] at hdest
  rw [query_some htable]
  simp only [hdest, frameOf_addrOf, ne_eq, attr_and_present, Bool.not_eq_false]
  have hbal : ∀ g, s.Managed g →
      (queried (queried s srcSp srcAddr) destSp destAddr).excess g = 0 := fun g hg => by
    rw [hcalm.excess, href, h.balanced g hg]
    omega
  split_ifs with hpresent
  · exact lawful_of_excess (hcalm.sound hs) hcalm.totalPages hbal
  obtain ⟨hmap1, hmap2, hcount⟩ := hok htable (by simpa using hpresent)
  rw [show (arQueryPageInformation (queried s srcSp srcAddr) destSp destAddr).2 =
    queried (queried s srcSp srcAddr) destSp destAddr from rfl]
  generalize queried (queried s srcSp srcAddr) destSp destAddr = s1 at *
  generalize hsrc : s.entry srcSp srcAddr = src at *
  have htop : s1.Managed src.physicalAddress → s1.pageRef src.physicalAddress ≠ 255 := by
    rw [hcalm.managed, href]
    intro hm
    have hc := hcount hm
    split_ifs at hc
    · exact hc
    · rw [hc]; decide
  have hcalm2 := hcalm.trans (calm_increase (hcalm.sound hs) src.physicalAddress)
  have hexcess2 := excess_increase (hcalm.sound hs) htop
  have hzero2 : ∀ g, (increasePhysicalPageReference s1 src.physicalAddress).pageRef g = 0 →
      s.pageRef g = 0 := fun g hg => href ▸ increase_ref_zero htop hg
  generalize increasePhysicalPageReference s1 src.physicalAddress = s2 at *
  have heffect1 := arMapOnePage_effect (hcalm2.sound hs) hmap1
    (fun t ht _ => by
      rw [hexcess2, hbal t ((hcalm2.managed t).mp ht), zero_add]
      exact indicator_nonneg _)
    (fun z hz => zeroedFrame_none (by decide) _ _ hz)
  have hnew1 := mapEntry_maps (s2.entry destSp destAddr) src (and_write_present src.attr)
  generalize arMapOnePage s2 destSp destAddr (addrOf src.physicalAddress)
    (src.attr &&& ~~~PAGE_ATTR_WRITE) (MAP_ADDRESS ||| MAP_ATTRIBUTE) = s3 at *
  have htotal := heffect1.totalPages.trans hcalm2.totalPages
  have hused : ∀ g, s.Managed g → src.Maps g → s.pageRef g ≠ 0 := by
    intro g hg hm
    have hnot : ¬ Reserved s srcSp srcAddr := by
      rintro ⟨ht, hframe, hi⟩
      have hdir := heffect1.tables srcSp (dirIndex srcAddr) (by rwa [hcalm2.dir])
      rw [hcalm2.dir] at hdir
      exact hmap2.page ⟨by rwa [hdir], by rwa [hdir], hi⟩
    exact entry_ref_ne_zero hnot (by rwa [hsrc]) (h.balanced g hg).ge
  -- the counter has gone up exactly if a counted frame is shared
  have hshared : ∀ g, s.Managed g → s2.excess g = indicator (src.Maps g) := by
    intro g hg
    rw [hexcess2, hbal g hg, zero_add]
    refine indicator_congr ⟨?_, fun hm => ?_⟩
    · rintro ⟨⟨hm, hne⟩, rfl⟩
      rw [hcalm.managed] at hm
      rw [href] at hne
      have hc := hcount hm
      split_ifs at hc with hp
      · exact ⟨hp, rfl⟩
      · exact absurd hc hne
    · have hne := hused g hg hm
      obtain ⟨_, rfl⟩ := hm
      exact ⟨⟨(hcalm.managed _).mpr hg, by rwa [href]⟩, rfl⟩
  have hdestMaps : ∀ g, ¬ (s2.entry destSp destAddr).Maps g := fun g hm => by
    rw [hcalm2.entry] at hm
    exact hpresent hm.1
  have heffect2 := arMapOnePage_effect heffect1.sound hmap2
    (fun t ht hz => by
      have ht : s.Managed t := by rwa [State.Managed, htotal] at ht
      have hfree : ¬ src.Maps t := fun hm => hused t ht hm (hzero2 t (heffect1.free t hz))
      rw [heffect1.excess, hshared t ht, indicator_false (hdestMaps t), indicator_congr (hnew1 t),
        indicator_false hfree]
      decide)
    (fun z hz => zeroedFrame_none (by decide) _ _ hz)
  have hnew2 := mapEntry_maps (s3.entry srcSp srcAddr) src (and_write_present src.attr)
  refine lawful_of_excess heffect2.sound (heffect2.totalPages.trans htotal) fun g hg => ?_
  rw [share_effect heffect1 heffect2 (by rw [hcalm2.entry, hsrc]) hnew1 hnew2, hshared g hg,
    indicator_false (hdestMaps g)]
  omega

/-- A copy-on-write fault, on a page with a table. -/
lemma copyOnWrite_lawful {space : Ptr} {addr : UInt32} {area : KVirtualMemoryAllocation}
    (h : Lawful s) (hcow : area.allocationFlag &&& PAGE_ATTR_COPYONWRITE ≠ 0)
    (htable : s.dir space (dirIndex (addrOf (frameOf addr))) ≠ .zero)
    (hok : ReadOnlyFaultOk s space addr (some area)) :
    Lawful (mmHandleReadOnlyPageFault s space addr (some area)).2 := by
  have hs := h.sound
  obtain ⟨hpage, hentry⟩ := hok area rfl hcow htable
  rw [mmHandleReadOnlyPageFault]
  simp only [if_neg hcow]
  generalize addrOf (frameOf addr) = page at *
  rw [query_some htable]
  simp only [frameOf_addrOf]
  have hcalm := calm_query hs space page
  have href := queried_pageRef s space page
  have hcount := queried_reference hs space page (s.entry space page).physicalAddress
  have hbal : ∀ g, s.Managed g → (queried s space page).excess g = 0 := fun g hg => by
    rw [hcalm.excess, href, h.balanced g hg]
    omega
  rw [hcount]
  split_ifs with hshared
  · rw [if_pos hshared] at hentry
    generalize queried s space page = s1 at *
    have hs1 := hcalm.sound hs
    cases hget : (mmGetPhysicalPage s1).1 with
    | none =>
      have hpair : mmGetPhysicalPage s1 = (none, (mmGetPhysicalPage s1).2) := Prod.ext hget rfl
      have hcalm2 := calm_get_none hs1 hpair
      obtain ⟨-, href2, -⟩ := mmGetPhysicalPage_none hs1.search hs1.front hpair
      rw [hpair]
      refine lawful_of_excess (hcalm2.sound hs1) (hcalm2.totalPages.trans hcalm.totalPages)
        fun g hg => ?_
      rw [hcalm2.excess, href2, hbal g hg]
      omega
    | some f =>
      have hpair : mmGetPhysicalPage s1 = (some f, (mmGetPhysicalPage s1).2) := Prod.ext hget rfl
      exact absurd hentry (by simp [hget])
  · rw [if_neg hshared] at hentry
    obtain ⟨heffect, -⟩ := effect_table 0 area.memoryAttribute MAP_ATTRIBUTE
      (hcalm.sound hs) (by rwa [hcalm.dir]) (by rwa [hcalm.reserved])
      (fun z hz => zeroedFrame_none (by decide) _ _ hz)
    refine lawful_of_excess heffect.sound (heffect.totalPages.trans hcalm.totalPages) fun g hg => ?_
    have hsame : (mapEntry ((queried s space page).entry space page) 0 area.memoryAttribute
        MAP_ATTRIBUTE).Maps g ↔ ((queried s space page).entry space page).Maps g := by
      rw [hcalm.entry, mapEntry_attribute, PageTable.Maps, PageTable.Maps]
      refine and_congr_left fun hf => ?_
      rw [decide_eq_true_iff, ← hentry (by rwa [show _ = g from hf])]
    rw [heffect.excess, hbal g hg, indicator_congr hsame]
    omega

lemma readOnlyFault_lawful {space : Ptr} {addr : UInt32} {vma : Option KVirtualMemoryAllocation}
    (h : Lawful s) (hok : ReadOnlyFaultOk s space addr vma) :
    Lawful (mmHandleReadOnlyPageFault s space addr vma).2 := by
  cases vma with
  | none => exact h
  | some area =>
    by_cases hcow : area.allocationFlag &&& PAGE_ATTR_COPYONWRITE = 0
    · rw [mmHandleReadOnlyPageFault]
      simp only [if_pos hcow]
      exact h
    · by_cases htable : s.dir space (dirIndex (addrOf (frameOf addr))) = .zero
      · rw [mmHandleReadOnlyPageFault]
        simp only [if_neg hcow, query_none htable]
        exact h
      · exact copyOnWrite_lawful h hcow htable hok

lemma step_lawful (s : State) (e : Event) (h : Lawful s) (hok : StepOk s e) : Lawful (step s e) := by
  cases e with
  | acquire space addr attr flag => exact acquire_lawful h hok
  | release space addr => exact release_lawful h hok
  | swap destSp destAddr srcSp srcAddr => exact swap_lawful h hok
  | duplicate destSp destAddr srcSp srcAddr => exact duplicate_lawful h hok
  | readOnlyFault space addr vma => exact readOnlyFault_lawful h hok

end Steps

lemma Lawful.frameLaw {s : State} (h : Lawful s) : FrameLaw s where
  counts f hf := by
    have hbal := h.balanced f hf
    rw [State.excess] at hbal
    omega
  inUse f x hf hx hget := by
    have hpair : mmGetPhysicalPage s = (some f, (mmGetPhysicalPage s).2) := Prod.ext hget rfl
    obtain ⟨-, hfree, -⟩ := mmGetPhysicalPage_some h.sound.search h.sound.front hpair
    exact ref_ne_zero hx (h.balanced f hf).ge hfree

/-! ## Copies -/

lemma copies_some {s : State} {e : Event} {old new : Frame} (h : copies s e = some (old, new)) :
    ∃ space addr area, e = .readOnlyFault space addr (some area) ∧
      area.allocationFlag &&& PAGE_ATTR_COPYONWRITE ≠ 0 ∧
      s.dir space (dirIndex (addrOf (frameOf addr))) ≠ .zero ∧
      old = (s.entry space (addrOf (frameOf addr))).physicalAddress ∧
      getPhysicalPageReference (queried s space (addrOf (frameOf addr))) old > 1 ∧
      (mmGetPhysicalPage (queried s space (addrOf (frameOf addr)))).1 = some new := by
  rcases e with _ | _ | _ | _ | ⟨space, addr, _ | area⟩
  case readOnlyFault.some =>
    rw [copies] at h
    by_cases hcow : area.allocationFlag &&& PAGE_ATTR_COPYONWRITE = 0
    · simp [if_pos hcow] at h
    by_cases htable : s.dir space (dirIndex (addrOf (frameOf addr))) = .zero
    · simp [query_none htable] at h
    simp only [if_neg hcow, query_some htable, frameOf_addrOf] at h
    split_ifs at h with hshared
    obtain ⟨f, hf, hpair⟩ := Option.map_eq_some_iff.mp h
    obtain ⟨rfl, rfl⟩ := Prod.mk.inj hpair
    exact ⟨space, addr, area, rfl, hcow, htable, rfl, hshared, hf⟩
  all_goals simp [copies] at h

/-- The copy of a page never ends with the count it should have: its frame is given back. -/
theorem copy_unlawful {s : State} {e : Event} {old new : Frame} (h : Sound s)
    (hcopy : copies s e = some (old, new)) : (step s e).pageRef new = 0 := by
  obtain ⟨space, addr, area, rfl, hcow, htable, rfl, hshared, hget⟩ := copies_some hcopy
  rw [step, mmHandleReadOnlyPageFault]
  simp only [if_neg hcow]
  generalize addrOf (frameOf addr) = page at *
  rw [query_some htable]
  simp only [frameOf_addrOf, if_pos hshared]
  have hcalm := calm_query h space page
  generalize queried s space page = s1 at *
  have hs1 := hcalm.sound h
  have hpair : mmGetPhysicalPage s1 = (some new, (mmGetPhysicalPage s1).2) := Prod.ext hget rfl
  obtain ⟨hmanaged, -, hsame, href, -⟩ := mmGetPhysicalPage_some hs1.search hs1.front hpair
  rw [hpair]
  dsimp only
  generalize (mmGetPhysicalPage s1).2 = s2 at *
  have hdir : ((arMapTemporaryPage s2 (addrOf new)).copyFrame new
      (s.entry space page).physicalAddress).dir space (dirIndex page) ≠ .zero := by
    change s2.dir space (dirIndex page) ≠ .zero
    rwa [hsame.dir, hcalm.dir]
  rw [arMapOnePage_of_table hdir]
  obtain ⟨-, hr, ht, -⟩ := writeEntry_sameBooks (arMapTemporaryPage ((arMapTemporaryPage s2
    (addrOf new)).copyFrame new (s.entry space page).physicalAddress) (addrOf _)) _
    (tableIndex page) (addrOf new) area.memoryAttribute (MAP_ADDRESS ||| MAP_ATTRIBUTE)
  have hone : s2.pageRef new = 1 := by rw [href, Function.update_self]
  rw [mmFreePhysicalPage, if_pos]
  · rw [setRef_pageRef, Function.update_self, hr]
    change s2.pageRef new - 1 = 0
    rw [hone]
    rfl
  · rw [State.Managed, ht, hr]
    change (_ ∧ _ < s2.totalPages) ∧ s2.pageRef new ≠ 0
    rw [hsame.totalPages, hone]
    exact ⟨hmanaged, by decide⟩

lemma StepOk.copyLaw {s : State} {e : Event} (hs : Sound s) (h : StepOk s e) : CopyLaw s e := by
  intro old new hcopy
  obtain ⟨space, addr, area, rfl, hcow, htable, rfl, hshared, hget⟩ := copies_some hcopy
  have hentry := (h area rfl hcow htable).2
  rw [queried_reference hs] at hshared
  rw [if_pos hshared, hget] at hentry
  cases hentry

/-! ## Whole runs -/

/-- From any state in which the counters are right, a run whose steps all meet their conditions
keeps them right. -/
theorem run_frameLaw {s : State} (h : Lawful s) (es : List Event) (hok : Guarded step StepOk s es) :
    FrameLaw (run step s es) ∧
      ∀ es₁ e es₂, es = es₁ ++ e :: es₂ → CopyLaw (run step s es₁) e :=
  ⟨(hok.invariant Lawful step_lawful h).frameLaw, fun es₁ e es₂ he => by
    obtain ⟨hbefore, hstep, -⟩ := (guarded_append s es₁ (e :: es₂)).mp (he ▸ hok)
    exact StepOk.copyLaw (hbefore.invariant Lawful step_lawful h).sound hstep⟩

/-- At boot no frame is counted. -/
lemma boot_lawful {totalPages : ℕ} (h : pageFront ≤ totalPages)
    (junk : Frame → Index → PageTable) : Lawful (boot totalPages junk) where
  sound := by
    refine ⟨h, h, rfl, ?_⟩
    rintro ⟨d, i, hi, he⟩
    rw [(boot_table hi).2] at he
    exact absurd he (by decide)
  balanced f hf := by
    have htable : ∀ t, (boot totalPages junk).IsTable t → t = bootTable := by
      rintro t ⟨d, i, hi, rfl⟩
      exact (boot_table hi).2
    have hnot : ¬ (boot totalPages junk).IsTable f := fun ht =>
      absurd hf.1 (by rw [htable f ht]; decide)
    have hmaps : ∀ x, ¬ (boot totalPages junk).Maps f x := by
      rintro ⟨t, i⟩ ⟨ht, hw, hm⟩
      obtain rfl := htable t ht
      rw [seen_of_not_window hw] at hm
      have hframe : (i.castLE (by decide) : Frame) = f := hm.2
      have hi := i.isLt
      have hlow := hf.1
      rw [← hframe, Fin.val_castLE] at hlow
      simp only [pageFront] at hlow
      omega
    rw [State.excess, count_none hmaps, indicator_false hnot]
    rfl

/-- A machine at boot with 16MB of clear memory. -/
def cleanBoot : State := boot 0x1000 fun _ _ => .zero

/-- A page acquired in one space, shared with a second one, and released in the first. -/
def sharedPage : List Event :=
  [.acquire 1 0x400000 6 MAP_ATTRIBUTE, .duplicate 2 0x400000 1 0x400000, .release 1 0x400000]

lemma sharedPage_ok : Guarded step StepOk cleanBoot sharedPage := by
  have hclean : ∀ {P : Index → Prop}, ∀ j < tableIndex 0x400000, P j := fun j hj =>
    absurd (show j < 0 from hj) (Fin.not_lt_zero j)
  refine ⟨?_, ?_, ?_, trivial⟩
  · intro f hf
    obtain rfl : (0x400 : Frame) = f := Option.some.inj hf
    refine ⟨⟨?_, fun _ _ _ => hclean, fun _ hnone => ?_⟩, ?_, ?_⟩
    · rw [Reserved]; decide +kernel
    · exact absurd hnone (by decide +kernel)
    · rw [Counted]; decide +kernel
    · decide +kernel
  · intro _ _
    refine ⟨⟨?_, fun _ _ _ => hclean, fun _ hnone => ?_⟩,
      ⟨?_, fun _ _ _ => hclean, fun hzero _ => ?_⟩, ?_⟩
    · rw [Reserved]; decide +kernel
    · exact absurd hnone (by decide +kernel)
    · rw [Reserved]; decide +kernel
    · exact absurd hzero (by decide +kernel)
    · decide +kernel
  · change ¬ Reserved _ _ _
    rw [Reserved]; decide +kernel

theorem run_frameLaw_sharedPage :
    FrameLaw (run step cleanBoot sharedPage) ∧
      ∀ es₁ e es₂, sharedPage = es₁ ++ e :: es₂ → CopyLaw (run step cleanBoot es₁) e :=
  run_frameLaw (boot_lawful (by decide) _) _ sharedPage_ok

/-- A page acquired in one space, shared with a second one, and written in the second. -/
def copiedPage : List Event :=
  [.acquire 1 0x400000 6 MAP_ATTRIBUTE, .duplicate 2 0x400000 1 0x400000,
    .readOnlyFault 2 0x400000 (some ⟨none, none, 0x400000, 0x1000, 7, PAGE_ATTR_COPYONWRITE⟩)]

/-- After a copy-on-write fault the new frame is mapped and free. -/
theorem run_not_frameLaw :
    ¬ ∀ (s : State) (es : List Event), Lawful s → FrameLaw (run step s es) ∧
      ∀ es₁ e es₂, es = es₁ ++ e :: es₂ → CopyLaw (run step s es₁) e := by
  intro h
  have hlaw := (h cleanBoot copiedPage (boot_lawful (by decide) _)).1
  have hcounts := hlaw.counts 0x403 (by decide +kernel)
  have hmapped : (run step cleanBoot copiedPage).Maps 0x403 (0x402, 0) :=
    ⟨⟨2, 1, by decide +kernel, by decide +kernel⟩, by decide +kernel, by decide +kernel⟩
  have hpos := count_pos hmapped
  have href : (run step cleanBoot copiedPage).pageRef 0x403 = 0 := by
    decide +kernel
  have htable := indicator_nonneg ((run step cleanBoot copiedPage).IsTable 0x403)
  rw [href] at hcounts
  simp only [UInt8.toNat_zero, Nat.cast_zero] at hcounts
  omega

end Sgos.Paging
