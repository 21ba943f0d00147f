import Sgos.CopyOnWrite

/-!
# Isolation of shared pages

A mapping changes the view of the tables at one place. The operations of `CopyOnWrite` change it at
one or two places, and under their conditions keep it isolated.
-/
namespace Sgos.CopyOnWrite
open GuardedRun Paging SharedSlots
open DemandPaging (pageOf wordOf)
open VirtualMemory (KVirtualMemoryAllocation)

section View
variable {s s' : Paging.State} {d : Ptr} {v p a flag : UInt32} {x : Frame × Index}

lemma view_of_table (ht : s.IsTable x.1) (hw : ¬IsWindow x.1 x.2) :
    view s x = slotOf (s.seen x.1 x.2) := if_pos ⟨ht, hw⟩

lemma view_of_not_table (ht : ¬s.IsTable x.1) : view s x = none := if_neg fun h => ht h.1

lemma view_of_window (hw : IsWindow x.1 x.2) : view s x = none := if_neg fun h => h.2 hw

lemma view_congr (htable : ∀ t, s'.IsTable t ↔ s.IsTable t)
    (hseen : ∀ t i, s.IsTable t → s'.seen t i = s.seen t i) : view s' = view s := by
  funext x
  by_cases ht : s.IsTable x.1
  · by_cases hw : IsWindow x.1 x.2
    · rw [view_of_window hw, view_of_window hw]
    · rw [view_of_table ((htable _).mpr ht) hw, view_of_table ht hw, hseen _ _ ht]
  · rw [view_of_not_table ht, view_of_not_table fun h => ht ((htable _).mp h)]

lemma view_of_calm (h : Calm s s') : view s' = view s := view_congr h.isTable h.seen

lemma AtPage.not_window (h : AtPage s d v x) (hpage : ¬Reserved s d v) : ¬IsWindow x.1 x.2 := by
  obtain ⟨hdir, rfl⟩ := h
  exact fun hw => hpage ⟨hdir, hw.1, .inl hw.2⟩

/-- The view at a page is what its entry holds. -/
lemma AtPage.view_eq (h : AtPage s d v x) (hpage : ¬Reserved s d v) :
    view s x = slotOf (s.entry d v) := by
  rw [entry_of_table h.1, view_of_table _ (h.not_window hpage)]
  · rw [h.2]
  · rw [h.2]
    exact ⟨d, _, h.1, rfl⟩

/-- From `s` to `s'` the place `x` of a page has got the entry `e`. -/
structure Placed (s s' : Paging.State) (d : Ptr) (v : UInt32) (e : PageTable) (x : Frame × Index) :
    Prop where
  sound : Sound s'
  view : view s' = Function.update (view s) x (slotOf e)
  place : ∀ y, AtPage s' d v y → y = x ∧ s'.entry d v = e
  old : ∀ y, AtPage s d v y → y = x
  tables : ∀ d' i, s.dir d' i ≠ .zero → s'.dir d' i = s.dir d' i

variable (p a flag) in
/-- The mapping of a page that has a table. -/
lemma placed_table (hs : Sound s) (htable : s.dir d (dirIndex v) ≠ .zero)
    (hpage : ¬Reserved s d v)
    (hzero : ∀ z, zeroedFrame (s.entry d v) p flag = some z → z ≠ bootTable ∧ ¬s.IsTable z) :
    Placed s (arMapOnePage s d v p a flag) d v (mapEntry (s.entry d v) p a flag)
      ((s.dir d (dirIndex v)).physicalAddress, tableIndex v) := by
  have heffect := (effect_table p a flag hs htable hpage hzero).1
  have hseen := arMapOnePage_seen_table (v := v) htable rfl p a flag
  rw [← entry_of_table htable] at hseen
  have hdir := (arMapOnePage_books htable p a flag).dir
  have hist : s.IsTable (s.dir d (dirIndex v)).physicalAddress := ⟨d, _, htable, rfl⟩
  have hwin : ¬IsWindow (s.dir d (dirIndex v)).physicalAddress (tableIndex v) := fun hw =>
    hpage ⟨htable, hw.1, .inl hw.2⟩
  have hslot : (arMapOnePage s d v p a flag).seen (s.dir d (dirIndex v)).physicalAddress
      (tableIndex v) = mapEntry (s.entry d v) p a flag := by
    rw [hseen, if_neg hwin, if_neg fun hz => (hzero _ hz).2 hist, if_pos ⟨rfl, rfl⟩]
  refine ⟨heffect.sound, ?_, fun y hy => ?_, fun y hy => hy.2, heffect.tables⟩
  · funext y
    have htables := isTable_congr hdir
    rw [Function.update_apply]
    split_ifs with hy
    · rw [hy, view_of_table ((htables _).mpr hist) hwin, hslot]
    · by_cases ht : s.IsTable y.1
      · by_cases hw : IsWindow y.1 y.2
        · rw [view_of_window hw, view_of_window hw]
        · rw [view_of_table ((htables _).mpr ht) hw, view_of_table ht hw, hseen, if_neg hw,
            if_neg fun hz => (hzero _ hz).2 ht, if_neg fun hh => hy (Prod.ext hh.1 hh.2)]
      · rw [view_of_not_table ht, view_of_not_table fun h => ht ((htables _).mp h)]
  · rw [AtPage, hdir] at hy
    refine ⟨hy.2, ?_⟩
    rw [entry_of_table (by rw [hdir]; exact htable), hdir, hslot]

/-- The mapping of a page that gets a new table. -/
lemma placed_new (hs : Sound s) (hnew : s.dir d (dirIndex v) = .zero) {t : Frame}
    (hget : mmGetPhysicalPage s = (some t, s')) (hnot : ¬s.IsTable t)
    (hclean : ∀ j < tableIndex v, (s.mem t j).present = false)
    (hzero : ∀ z, zeroedFrame .zero p flag = some z →
      z ≠ bootTable ∧ ¬s.IsTable z ∧ s.pageRef z ≠ 0) :
    Placed s (arMapOnePage s d v p a flag) d v (mapEntry .zero p a flag) (t, tableIndex v) := by
  obtain ⟨hmanaged, -, -, -, -⟩ := mmGetPhysicalPage_some hs.search hs.front hget
  have hopen := opened_of_new (a := a) hs hnew hget hnot hclean hzero
  generalize arMapOnePage s d v p a flag = s2 at hopen ⊢
  generalize mapEntry .zero p a flag = e at hopen ⊢
  have hboot : t ≠ bootTable := fun he => absurd (he ▸ hmanaged.1) (by decide)
  have htables : ∀ g, s2.IsTable g ↔ s.IsTable g ∨ g = t := fun g => by
    rw [isTable_congr hopen.dir, isTable_setDir hnew (tableEntry_ne_zero t), tableEntry_frame]
  have hdir : s2.dir d (dirIndex v) = tableEntry t := by
    rw [hopen.dir, setDir_dir, if_pos ⟨rfl, rfl⟩]
  refine ⟨⟨?_, ?_, ?_, ?_⟩, ?_, fun y hy => ?_, fun y hy => absurd hnew hy.1, fun d' i hi => ?_⟩
  · rw [hopen.pageIt, hopen.totalPages]
    exact hmanaged.2
  · rw [hopen.totalPages]
    exact hs.front
  · rw [hopen.spill]
    exact hs.spill
  · rw [htables]
    exact fun hh => hh.elim hs.spillFree fun he => absurd (he ▸ hmanaged.1) (by decide)
  · funext y
    obtain ⟨g, j⟩ := y
    rw [Function.update_apply]
    split_ifs with hy
    · obtain ⟨rfl, rfl⟩ := Prod.mk.inj hy
      rw [view_of_table ((htables g).mpr (.inr rfl)) fun hw => hboot hw.1, hopen.slot]
    · by_cases hg : g = t
      · subst hg
        have hj : j ≠ tableIndex v := fun he => hy (by rw [he])
        have habsent : (s2.seen g j).present = false := by
          by_contra hp
          exact hopen.clear j _ hj ⟨Bool.not_eq_false _ ▸ hp, rfl⟩
        rw [view_of_table ((htables g).mpr (.inr rfl)) fun hw => hboot hw.1, slotOf, habsent]
        exact (view_of_not_table (x := (g, j)) hnot).symm
      · by_cases ht : s.IsTable g
        · by_cases hw : IsWindow g j
          · rw [view_of_window hw, view_of_window hw]
          · rw [view_of_table ((htables g).mpr (.inl ht)) hw, view_of_table ht hw, hopen.keep g j ht]
        · have ht' : ¬s2.IsTable g := fun h => ht (((htables g).mp h).resolve_right hg)
          exact (view_of_not_table (x := (g, j)) ht').trans
            (view_of_not_table (x := (g, j)) ht).symm
  · obtain ⟨hne, rfl⟩ := hy
    rw [hdir, tableEntry_frame]
    refine ⟨rfl, ?_⟩
    rw [entry_of_table hne, hdir, tableEntry_frame, hopen.slot]
  · have hx : ¬(d' = d ∧ i = dirIndex v) := by
      rintro ⟨rfl, rfl⟩
      exact hi hnew
    rw [hopen.dir, setDir_dir, if_neg hx]

/-- Without a frame for the table nothing present is mapped. -/
lemma placed_full (hs : Sound s) (hnew : s.dir d (dirIndex v) = .zero)
    (hget : mmGetPhysicalPage s = (none, s')) {e : PageTable} (he : e.present = false) :
    Placed s s' d v e (spillFrame, 0) := by
  have hcalm := calm_get_none hs hget
  refine ⟨hcalm.sound hs, ?_, fun y hy => ?_, fun y hy => absurd hnew hy.1,
    fun d' i _ => congrFun (congrFun hcalm.dir d') i⟩
  · have hnone : view s (spillFrame, 0) = slotOf e := by
      rw [view_of_not_table hs.spillFree, slotOf, he]
      rfl
    rw [view_of_calm hcalm, ← hnone, Function.update_eq_self]
  · rw [AtPage, hcalm.dir] at hy
    exact absurd hnew hy.1

/-- A clean mapping changes the view at one place. -/
theorem arMapOnePage_placed (hs : Sound s) (hok : CleanMap s d v p a flag)
    (hzero : ∀ te z, zeroedFrame te p flag = some z →
      z ≠ bootTable ∧ ¬s.IsTable z ∧ s.pageRef z ≠ 0) :
    ∃ x, Placed s (arMapOnePage s d v p a flag) d v (mapEntry (s.entry d v) p a flag) x := by
  obtain ⟨hmap, hunused⟩ := hok
  by_cases hnew : s.dir d (dirIndex v) = .zero
  · rw [entry_of_no_table hnew]
    rcases hget : mmGetPhysicalPage s with ⟨_ | t, s'⟩
    · rw [arMapOnePage_of_full hnew hget]
      exact ⟨_, placed_full hs hnew hget (hmap.room hnew (by rw [hget]))⟩
    · have hfst : (mmGetPhysicalPage s).1 = some t := by rw [hget]
      exact ⟨_, placed_new hs hnew hget (hunused hnew t hfst).1 (hmap.clean hnew t hfst)
        (hzero .zero)⟩
  · exact ⟨_, placed_table p a flag hs hnew hmap.page fun z hz => ⟨(hzero _ z hz).1, (hzero _ z hz).2.1⟩⟩

end View

/-! ## Single pages -/

section Pages
variable {s : Paging.State}

lemma slotOf_present {e : PageTable} (h : e.present = true) :
    slotOf e = some (e.physicalAddress, e.write) := if_pos h

lemma slotOf_absent {e : PageTable} (h : e.present = false) : slotOf e = none :=
  if_neg (by rw [h]; decide)

lemma Unused.calm {s' : Paging.State} {f : Frame} (h : Unused s f) (hcalm : Calm s s') :
    Unused s' f := by
  rw [Unused, hcalm.isTable, view_of_calm hcalm]
  exact h

/-- An entry of an unused frame goes with all others. -/
lemma Unused.compatible {e : PageTable} (h : Unused s e.physicalAddress) (x : Frame × Index) :
    Compatible (slotOf e) (view s x) := by
  cases hp : e.present with
  | true =>
    rw [slotOf_present hp]
    exact compatible_of_unused (h.2 x)
  | false =>
    rw [slotOf_absent hp]
    exact compatible_none _

/-- What every operation on a page keeps. -/
def Kept (s : Paging.State) : Prop := Sound s ∧ Isolated (view s)

lemma Kept.calm {s' : Paging.State} (h : Kept s) (hcalm : Calm s s') : Kept s' :=
  ⟨hcalm.sound h.1, view_of_calm hcalm ▸ h.2⟩

lemma acquire_kept {space : Ptr} {addr attr flag : UInt32} (h : Kept s)
    (hok : AcquireOk s space addr attr flag) :
    Kept (mmAcquirePhysicalPage s space addr attr flag).2 := by
  obtain ⟨hs, hisolated⟩ := h
  rw [mmAcquirePhysicalPage]
  rcases hget : mmGetPhysicalPage s with ⟨_ | f, s1⟩
  · exact Kept.calm ⟨hs, hisolated⟩ (calm_get_none hs hget)
  obtain ⟨hunused, hmap⟩ := hok f (by rw [hget])
  obtain ⟨hmanaged, -, -, href, -⟩ := mmGetPhysicalPage_some hs.search hs.front hget
  have hcalm := calm_get hs hget
  rw [hget] at hmap
  obtain ⟨x, hplaced⟩ := arMapOnePage_placed (hcalm.sound hs) hmap fun te z hz => by
    obtain rfl := zeroedFrame_address _ _ hz
    refine ⟨fun he => absurd (he ▸ hmanaged.1) (by decide), ?_, ?_⟩
    · rw [hcalm.isTable]
      exact hunused.1
    · rw [href, Function.update_self]
      decide
  refine ⟨hplaced.sound, ?_⟩
  rw [hplaced.view, view_of_calm hcalm]
  refine hisolated.update fun z _ => Unused.compatible ?_ z
  rw [mapEntry_frame (address_flag flag), frameOf_addrOf]
  exact hunused

lemma release_kept {space : Ptr} {addr : UInt32} (h : Kept s) (hpage : ¬Reserved s space addr) :
    Kept (mmReleasePhysicalPage s space addr) := by
  obtain ⟨hs, hisolated⟩ := h
  rw [mmReleasePhysicalPage]
  by_cases htable : s.dir space (dirIndex addr) = .zero
  · rw [query_none htable]
    exact ⟨hs, hisolated⟩
  have hcalm := calm_query hs space addr
  have hplaced := placed_table 0 0 MAP_ATTRIBUTE (hcalm.sound hs) (by rwa [hcalm.dir])
    (by rwa [hcalm.reserved]) fun z hz => zeroedFrame_none (by decide) _ _ hz
  have hkept : Kept (arMapOnePage (queried s space addr) space addr 0 0 MAP_ATTRIBUTE) := by
    refine ⟨hplaced.sound, ?_⟩
    rw [hplaced.view, view_of_calm hcalm]
    refine hisolated.update fun z _ => ?_
    rw [slotOf_absent (by simp [mapEntry, MAP_ATTRIBUTE])]
    exact compatible_none _
  rw [query_some htable]
  dsimp only
  split_ifs
  · exact hkept.calm (calm_free hkept.1 _)
  · exact hkept

/-- The entry of a page that is shared. -/
lemma slotOf_shared (te src : PageTable) :
    slotOf (mapEntry te (addrOf src.physicalAddress) (src.attr &&& ~~~PAGE_ATTR_WRITE)
      (MAP_ADDRESS ||| MAP_ATTRIBUTE)) =
      if src.present then some (src.physicalAddress, false) else none := by
  have hwrite : src.attr &&& ~~~PAGE_ATTR_WRITE &&& PAGE_ATTR_WRITE = 0 := by
    rw [UInt32.and_assoc]
    exact UInt32.and_zero
  rw [mapEntry_both (by decide) (by decide), slotOf, frameOf_addrOf, hwrite, and_write_present]
  simp only [ne_eq, attr_and_present, Bool.not_eq_false, decide_eq_true_eq, not_true, decide_false]

lemma duplicate_kept {destSp srcSp : Ptr} {destAddr srcAddr : UInt32} (h : Kept s)
    (hok : DuplicateOk s destSp destAddr srcSp srcAddr) :
    Kept (mmDuplicatePhysicalPage s destSp destAddr srcSp srcAddr).2 := by
  have hs := h.1
  rw [mmDuplicatePhysicalPage]
  by_cases htable : s.dir srcSp (dirIndex srcAddr) = .zero
  · rw [query_none htable]
    exact h
  have hcalm1 := calm_query hs srcSp srcAddr
  have hcalm := hcalm1.trans (calm_query (hcalm1.sound hs) destSp destAddr)
  have hdest := query_getD (queried s srcSp srcAddr) destSp destAddr
  rw [hcalm1.entry] at hdest
  rw [query_some htable]
  simp only [hdest, frameOf_addrOf, ne_eq, attr_and_present, Bool.not_eq_false]
  split_ifs with hpresent
  · exact h.calm hcalm
  obtain ⟨hmap, hpage⟩ := hok ⟨htable, by simpa using hpresent⟩
  rw [show (arQueryPageInformation (queried s srcSp srcAddr) destSp destAddr).2 =
    queried (queried s srcSp srcAddr) destSp destAddr from rfl]
  generalize queried (queried s srcSp srcAddr) destSp destAddr = s1 at *
  have hcalm2 := hcalm.trans (calm_increase (hcalm.sound hs) (s.entry srcSp srcAddr).physicalAddress)
  generalize increasePhysicalPageReference s1 (s.entry srcSp srcAddr).physicalAddress = s2 at *
  obtain ⟨x, hplaced⟩ := arMapOnePage_placed (hcalm2.sound hs) hmap
    fun te z hz => zeroedFrame_none (by decide) _ _ hz
  have hold : AtPage s srcSp srcAddr ((s.dir srcSp (dirIndex srcAddr)).physicalAddress,
    tableIndex srcAddr) := ⟨htable, rfl⟩
  have hview := hold.view_eq hpage
  generalize hsrc : s.entry srcSp srcAddr = src at *
  have hdir := hplaced.tables srcSp (dirIndex srcAddr) (by rwa [hcalm2.dir])
  rw [hcalm2.dir] at hdir
  have hplaced2 := placed_table (addrOf src.physicalAddress) (src.attr &&& ~~~PAGE_ATTR_WRITE)
    (MAP_ADDRESS ||| MAP_ATTRIBUTE) hplaced.sound (by rwa [hdir])
    (by rwa [Reserved, hdir]) fun z hz => zeroedFrame_none (by decide) _ _ hz
  rw [hdir] at hplaced2
  refine ⟨hplaced2.sound, ?_⟩
  rw [hplaced2.view, hplaced.view, slotOf_shared, slotOf_shared, view_of_calm hcalm2]
  cases hp : src.present with
  | true =>
    rw [if_pos rfl]
    exact h.2.share (hview.trans (slotOf_present hp))
  | false =>
    rw [if_neg Bool.false_ne_true]
    exact h.2.exchange (fun _ _ _ => compatible_none _) (fun _ _ _ => compatible_none _)
      fun _ => compatible_none _

/-- Other pages fail. -/
lemma shareable_of_shared (hs : Sound s) {destSp srcSp : Ptr} {destAddr srcAddr : UInt32}
    (h : ¬(mmDuplicatePhysicalPage s destSp destAddr srcSp srcAddr).1 < 0) :
    Shareable s destSp destAddr srcSp srcAddr := by
  rw [mmDuplicatePhysicalPage] at h
  by_cases htable : s.dir srcSp (dirIndex srcAddr) = .zero
  · rw [query_none htable] at h
    exact absurd (show -ERR_INVALID < 0 by decide) h
  refine ⟨htable, ?_⟩
  have hdest := query_getD (queried s srcSp srcAddr) destSp destAddr
  rw [(calm_query hs srcSp srcAddr).entry] at hdest
  rw [query_some htable] at h
  simp only [hdest, ne_eq, attr_and_present, Bool.not_eq_false] at h
  by_contra hpresent
  rw [if_pos (by simpa using hpresent)] at h
  exact absurd (show -ERR_INVALID < 0 by decide) h

lemma duplicatePages_kept (count : ℕ) {destSp srcSp : Ptr} {destAddr srcAddr : UInt32} (h : Kept s)
    (hok : DuplicatesOk count s destSp destAddr srcSp srcAddr) :
    Kept (duplicatePages count s destSp destAddr srcSp srcAddr).2 := by
  induction count generalizing s destAddr srcAddr with
  | zero => exact h
  | succ count ih =>
    obtain ⟨hpage, hrest⟩ := hok
    have hkept := duplicate_kept h hpage
    rw [duplicatePages]
    dsimp only
    split_ifs with hfail
    · exact hkept
    · exact ih hkept (hrest (shareable_of_shared h.1 hfail))

lemma swap_kept {destSp srcSp : Ptr} {destAddr srcAddr : UInt32} (h : Kept s)
    (hok : SwapOk s destSp destAddr srcSp srcAddr) :
    Kept (mmSwapPhysicalPage s destSp destAddr srcSp srcAddr MAP_ADDRESS) := by
  have hs := h.1
  have hcalm1 := calm_query hs destSp destAddr
  have hcalm := hcalm1.trans (calm_query (hcalm1.sound hs) srcSp srcAddr)
  rw [mmSwapPhysicalPage_eq hs]
  obtain ⟨hmap1, hmap2, hthird, hboth⟩ := hok
  generalize queried (queried s destSp destAddr) srcSp srcAddr = s1 at *
  obtain ⟨x, hplaced1⟩ := arMapOnePage_placed (hcalm.sound hs) hmap1
    fun te z hz => zeroedFrame_none (by decide) _ _ hz
  generalize arMapOnePage s1 destSp destAddr (addrOf (s.entry srcSp srcAddr).physicalAddress)
    (s.entry srcSp srcAddr).attr MAP_ADDRESS = s2 at *
  obtain ⟨y, hplaced2⟩ := arMapOnePage_placed hplaced1.sound hmap2
    fun te z hz => zeroedFrame_none (by decide) _ _ hz
  refine ⟨hplaced2.sound, ?_⟩
  rw [hplaced2.view, hplaced1.view, view_of_calm hcalm, hcalm.entry]
  have hnot : ∀ z, z ≠ x → z ≠ y → ¬AtPage s destSp destAddr z ∧ ¬AtPage s srcSp srcAddr z := by
    intro z hx hy
    refine ⟨fun hz => hx (hplaced1.old z ?_), fun hz => hy (hplaced2.old z ?_)⟩
    · rw [AtPage, hcalm.dir]
      exact hz
    · have hdir := hplaced1.tables srcSp (dirIndex srcAddr) (by rw [hcalm.dir]; exact hz.1)
      rw [hcalm.dir] at hdir
      rw [AtPage, hdir]
      exact hz
  refine h.2.exchange (fun z hx hy => ?_) (fun z hx hy => ?_) fun hxy => ?_
  · obtain ⟨hd, hsrc⟩ := hnot z hx hy
    exact (hthird z hd hsrc).1
  · obtain ⟨hd, hsrc⟩ := hnot z hx hy
    exact (hthird z hd hsrc).2
  · refine hboth fun z hd hsrc => hxy ?_
    rw [← (hplaced1.place z hd).1, ← hplaced2.old z hsrc]

lemma swapPages_kept (count : ℕ) {destSp srcSp : Ptr} {destAddr srcAddr : UInt32} (h : Kept s)
    (hok : SwapsOk count s destSp destAddr srcSp srcAddr) :
    Kept (swapPages MAP_ADDRESS count s destSp destAddr srcSp srcAddr) := by
  induction count generalizing s destAddr srcAddr with
  | zero => exact h
  | succ count ih => exact ih (swap_kept h hok.1) hok.2

/-- The copy of a frame into one that is no table. -/
lemma calm_copy (hs : Sound s) {f : Frame} (hf : s.Managed f) (ht : ¬s.IsTable f) (g : Frame) :
    Calm s ((arMapTemporaryPage s (addrOf f)).copyFrame f g) := by
  have hwindow := calm_window hs (addrOf f)
  generalize arMapTemporaryPage s (addrOf f) = s1 at *
  have hkeep : ∀ t, t ≠ f → (s1.copyFrame f g).mem t = s1.mem t := fun t hne =>
    Function.update_of_ne hne _ _
  refine hwindow.trans ⟨rfl, rfl, hwindow.pageIt, fun t i hist => ?_, ?_⟩
  · rw [State.seen, State.seen, hkeep t]
    rintro rfl
    exact ht ((hwindow.isTable t).mp hist)
  · rw [State.spill, State.spill, hkeep]
    rintro rfl
    exact absurd hf.1 (by decide)

lemma fault_kept {space : Ptr} {addr : UInt32} {vma : Option KVirtualMemoryAllocation}
    (h : Kept s) (hpresent : (s.entry space (pageOf addr)).present = true)
    (hwrite : (s.entry space (pageOf addr)).write = false)
    (hpage : ¬Reserved s space (pageOf addr))
    (hok : ∀ area, vma = some area → area.allocationFlag &&& PAGE_ATTR_COPYONWRITE ≠ 0 →
      FaultOk s space (pageOf addr) area) :
    Kept (mmHandleReadOnlyPageFault s space addr vma).2 := by
  have hs := h.1
  rcases vma with _ | area
  · exact h
  rw [mmHandleReadOnlyPageFault]
  dsimp only
  split_ifs with hcow
  · exact h
  have hfault := hok area rfl hcow
  rw [FaultOk] at hfault
  rw [show addrOf (frameOf addr) = pageOf addr from rfl]
  generalize pageOf addr = page at *
  have htable : s.dir space (dirIndex page) ≠ .zero := fun hz => by
    rw [entry_of_no_table hz] at hpresent
    cases hpresent
  have hat : AtPage s space page ((s.dir space (dirIndex page)).physicalAddress, tableIndex page) :=
    ⟨htable, rfl⟩
  have hview := hat.view_eq hpage
  rw [slotOf_present hpresent, hwrite] at hview
  have hcalm := calm_query hs space page
  have hreference := queried_reference hs space page (s.entry space page).physicalAddress
  rw [← hreference] at hfault
  rw [query_some htable]
  dsimp only
  rw [frameOf_addrOf]
  generalize queried s space page = s1 at *
  split_ifs at hfault ⊢ with hshared
  · rcases hget : mmGetPhysicalPage s1 with ⟨_ | f, s2⟩
    · exact (h.calm hcalm).calm (calm_get_none (hcalm.sound hs) hget)
    have hunused := hfault f (by rw [hget])
    obtain ⟨hmanaged, -, -, -, -⟩ :=
      mmGetPhysicalPage_some (hcalm.sound hs).search (hcalm.sound hs).front hget
    have hcalm2 := hcalm.trans (calm_get (hcalm.sound hs) hget)
    have hcopy := hcalm2.trans (calm_copy (f := f) (hcalm2.sound hs)
      ((hcalm2.managed f).mpr ((hcalm.managed f).mp hmanaged))
      (fun ht => hunused.1 ((hcalm2.isTable f).mp ht)) (s.entry space page).physicalAddress)
    dsimp only
    generalize (arMapTemporaryPage s2 (addrOf f)).copyFrame f _ = s3 at *
    have hplaced := placed_table (addrOf f) area.memoryAttribute (MAP_ADDRESS ||| MAP_ATTRIBUTE)
      (hcopy.sound hs) (by rwa [hcopy.dir]) (by rwa [hcopy.reserved])
      fun z hz => zeroedFrame_none (by decide) _ _ hz
    refine Kept.calm ⟨hplaced.sound, ?_⟩ (calm_free hplaced.sound f)
    rw [hplaced.view, view_of_calm hcopy]
    refine h.2.update fun z _ => Unused.compatible ?_ z
    rw [mapEntry_frame (by decide), frameOf_addrOf]
    exact hunused
  · have hplaced := placed_table 0 area.memoryAttribute MAP_ATTRIBUTE (hcalm.sound hs)
      (by rwa [hcalm.dir]) (by rwa [hcalm.reserved]) fun z hz => zeroedFrame_none (by decide) _ _ hz
    refine ⟨hplaced.sound, ?_⟩
    rw [hplaced.view, view_of_calm hcalm, hcalm.entry, hcalm.dir, mapEntry_attribute]
    refine h.2.update fun z hz => ?_
    by_cases hp : area.memoryAttribute &&& PAGE_ATTR_PRESENT = 0
    · rw [slotOf_absent (by simp [hp])]
      exact compatible_none _
    rw [slotOf_present (by simp [hp])]
    by_cases hw : area.memoryAttribute &&& PAGE_ATTR_WRITE = 0
    · rintro g a b ha hb
      obtain ⟨rfl, rfl⟩ := Prod.mk.inj (Option.some.inj ha)
      exact ⟨by simp [hw], (h.2 _ z hz.symm _ false b hview hb).2⟩
    · exact compatible_of_unused (hfault hp hw z fun h => hz h.2)

/-- A store outside all tables. -/
lemma calm_store (hs : Sound s) {f : Frame} (hboot : f ≠ bootTable) (ht : ¬s.IsTable f) (j : Index)
    (value : PageTable) : Calm s (s.setEntry f j value) := by
  have hkeep : ∀ t, t ≠ f → (s.setEntry f j value).mem t = s.mem t := fun t hne =>
    Function.update_of_ne hne _ _
  refine ⟨rfl, rfl, hs.search, fun t i hist => ?_, ?_⟩
  · rw [State.seen, State.seen, hkeep t]
    rintro rfl
    exact ht hist
  · rw [State.spill, State.spill, hkeep _ hboot.symm]

end Pages

/-! ## Runs -/

section Runs
variable {areas : Areas} {s : State}

/-- The checks change flags only. -/
lemma checkDuplicate_paging (areas : Areas) (s : State) (destSp : Ptr) (destAddr : UInt32)
    (srcSp : Ptr) (srcAddr siz : UInt32) :
    (checkDuplicate areas s destSp destAddr srcSp srcAddr siz).2.paging = s.paging := by
  rw [checkDuplicate]
  split_ifs
  · rfl
  cases areas.user srcSp srcAddr with
  | none => rfl
  | some src =>
    dsimp only
    split_ifs
    · rfl
    cases areas.user destSp destAddr with
    | none => rfl
    | some dest =>
      dsimp only
      split_ifs <;> rfl

/-- The pages behind a call. -/
lemma duplicateMultiple_paging (areas : Areas) (s : State) (destSp : Ptr) (destAddr : UInt32)
    (srcSp : Ptr) (srcAddr siz : UInt32) :
    (mmDuplicateMultiplePhysicalPages areas s destSp destAddr srcSp srcAddr siz).2.paging =
      if (checkDuplicate areas s destSp destAddr srcSp srcAddr siz).1 = none then s.paging
      else (duplicatePages (siz >>> 12).toNat s.paging destSp destAddr srcSp srcAddr).2 := by
  have hpaging := checkDuplicate_paging areas s destSp destAddr srcSp srcAddr siz
  rw [mmDuplicateMultiplePhysicalPages]
  rcases hcheck : checkDuplicate areas s destSp destAddr srcSp srcAddr siz with ⟨_ | dest, s1⟩ <;>
    rw [hcheck] at hpaging <;> dsimp only at hpaging ⊢
  · rw [hpaging, if_pos rfl]
  · rw [hpaging, if_neg (Option.some_ne_none dest)]
    split_ifs <;> rfl

lemma duplicateMultiple_kept {destSp srcSp : Ptr} {destAddr srcAddr siz : UInt32}
    (h : Kept s.paging) (hok : StepOk areas s (.duplicate destSp destAddr srcSp srcAddr siz)) :
    Kept (mmDuplicateMultiplePhysicalPages areas s destSp destAddr srcSp srcAddr siz).2.paging := by
  rw [duplicateMultiple_paging]
  split_ifs with hcheck
  · exact h
  · exact duplicatePages_kept _ h (hok hcheck)

lemma swapMultiple_kept {destSp srcSp : Ptr} {destAddr srcAddr siz : UInt32}
    (h : Kept s.paging) (hok : StepOk areas s (.swap destSp destAddr srcSp srcAddr siz)) :
    Kept (mmSwapMultiplePhysicalPages areas s destSp destAddr srcSp srcAddr siz
      MAP_ADDRESS).2.paging := by
  rw [mmSwapMultiplePhysicalPages]
  split_ifs with hcheck
  · exact swapPages_kept _ h (hok hcheck)
  · exact h

lemma write_kept {space : Ptr} {addr : UInt32} {value : PageTable} (h : Kept s.paging)
    (hok : WriteOk areas s space addr) : Kept (write areas s space addr value).paging := by
  rw [WriteOk] at hok
  rw [write]
  split_ifs with hpresent hwrite
  · obtain ⟨-, hstore⟩ := hok hpresent
    rw [if_pos hwrite] at hstore
    exact h.calm (calm_store h.1 hstore.1 hstore.2 _ _)
  · obtain ⟨hpage, hfault⟩ := hok hpresent
    rw [if_neg hwrite] at hfault
    exact fault_kept h hpresent (by simpa using hwrite) hpage hfault
  · exact h

theorem step_kept (s : State) (e : Event) (h : Kept s.paging) (hok : StepOk areas s e) :
    Kept (step areas s e).paging := by
  cases e with
  | acquire space addr attr flag => exact acquire_kept h hok
  | release space addr => exact release_kept h hok
  | duplicate destSp destAddr srcSp srcAddr siz => exact duplicateMultiple_kept h hok
  | swap destSp destAddr srcSp srcAddr siz => exact swapMultiple_kept h hok
  | write space addr value => exact write_kept h hok

end Runs

/-! ## From boot -/

/-- Each space has one area of writable pages from 4MB to 8MB. -/
def oneArea : Areas where
  user space _ := some space
  kernel _ := none

def word : PageTable := PageTable.ofWord 0x12345678

/-- A page is acquired in one space, shared with a second one, and copied there by a write. -/
def copiedPage : List Event :=
  [.acquire 1 0x400000 6 MAP_ATTRIBUTE, .duplicate 2 0x400000 1 0x400000 PAGE_SIZE,
    .write 2 0x400000 word]

end Sgos.CopyOnWrite
