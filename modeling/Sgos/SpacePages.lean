import Sgos.RangePages

/-!
# Pages that are owned

While no frame is mapped by two pages below the kernel, a page that is acquired gets a frame that no
page has, and a page that is released gives its frame back, whatever tables are made on the way.
-/
namespace Sgos.SpacePages
open Paging PointCount RangePages MemoryRanges
open SpaceCreation (acquirePages mmAcquireMultiplePhysicalPages)

/-- A page of a space, below the kernel, maps the frame. -/
structure Has (s : Paging.State) (x : Ptr × UInt32) (f : Frame) : Prop where
  page : UserPage x.2
  maps : (s.entry x.1 x.2).Maps f

/-- The pages below the kernel that are present are among `xs`, and each has a frame of its own,
counted once. -/
structure Owned (s : Paging.State) (xs : Set (Ptr × UInt32)) : Prop where
  lawful : Lawful s
  tables : UserTables s
  inside : ∀ x f, Has s x f → x ∈ xs
  once : ∀ x f, Has s x f → s.Managed f ∧ s.pageRef f = 1

variable {s s' : Paging.State} {xs ys : Set (Ptr × UInt32)} {x y : Ptr × UInt32} {f g : Frame}
  {d : Ptr} {v attr flag : UInt32}

/-! ## Owners -/

/-- A counter that is one counts one place. -/
lemma unique_of_one (h : Lawful s) (hf : s.Managed f) (hone : s.pageRef f = 1)
    {a b : Frame × Index} (ha : s.Maps f a) (hb : s.Maps f b) : a = b := by
  by_contra hne
  have hbal := h.balanced f hf
  have hrest := @count_pos _ _ (fun z => s.Maps f z ∧ z ≠ b) a ⟨ha, hne⟩
  have htable := indicator_nonneg (s.IsTable f)
  rw [State.excess, hone, count_diff b, indicator_true hb] at hbal
  have hnat : (1 : UInt8).toNat = 1 := rfl
  omega

/-- A counter that is one for a place is not one for a table. -/
lemma not_table_of_one (h : Lawful s) (hf : s.Managed f) (hone : s.pageRef f = 1)
    {a : Frame × Index} (ha : s.Maps f a) : ¬s.IsTable f := by
  intro htable
  have hbal := h.balanced f hf
  have hpos := count_pos ha
  rw [State.excess, hone, indicator_true htable] at hbal
  have hnat : (1 : UInt8).toNat = 1 := rfl
  omega

lemma Has.table (h : Has s x f) : s.dir x.1 (dirIndex x.2) ≠ .zero :=
  table_of_present h.maps.1

lemma Has.slot (h : Has s x f) (ht : UserTables s) :
    s.Maps f ((s.dir x.1 (dirIndex x.2)).physicalAddress, tableIndex x.2) :=
  entry_slot h.table (ht.not_reserved h.page) h.maps

/-- Two pages with one frame are the same. -/
lemma Owned.own (h : Owned s xs) (hx : Has s x f) (hy : Has s y f) : x = y := by
  obtain ⟨hmanaged, hone⟩ := h.once x f hx
  have heq := unique_of_one h.lawful hmanaged hone (hx.slot h.tables) (hy.slot h.tables)
  obtain ⟨hd, hv⟩ := h.tables.eq_page hy.page hy.table hx.page.aligned hx.table
    (congrArg Prod.fst heq) (congrArg Prod.snd heq)
  exact Prod.ext hd hv

lemma Owned.mono (h : Owned s xs) (hsub : xs ⊆ ys) : Owned s ys :=
  ⟨h.lawful, h.tables, fun x f hx => hsub (h.inside x f hx), h.once⟩

/-- What moves no page leaves the owners. -/
lemma Owned.unmoved (h : Owned s xs) (hmoved : Unmoved s s') (hlawful : Lawful s') :
    Owned s' xs := by
  have hhas : ∀ x f, Has s' x f → Has s x f := fun x f hx =>
    ⟨hx.page, by rw [← hmoved.entry]; exact hx.maps⟩
  refine ⟨hlawful, hmoved.tables h.tables, fun x f hx => h.inside x f (hhas x f hx),
    fun x f hx => ?_⟩
  rw [State.Managed, hmoved.totalPages, hmoved.pageRef]
  exact h.once x f (hhas x f hx)

/-! ## Acquiring a page -/

/-- A table that is missing can be made, of a frame without present entries in front of the one of
the page. -/
def TableOk (s : Paging.State) (d : Ptr) (v : UInt32) : Prop :=
  ∀ f, (mmGetPhysicalPage s).1 = some f → s.dir d (dirIndex v) = .zero →
    ∃ t, (mmGetPhysicalPage (mmGetPhysicalPage s).2).1 = some t ∧
      ∀ j < tableIndex v, ((mmGetPhysicalPage s).2.mem t j).present = false

/-- The mapping of a page that gets a frame. -/
lemma mapOk (hs : Sound s) (ht : UserTables s) (hv : UserPage v) (hok : TableOk s d v)
    (hget : mmGetPhysicalPage s = (some f, s')) (p a flag : UInt32) : MapOk s' d v p a flag := by
  have hcalm := calm_get hs hget
  have htable := hok f (by rw [hget])
  rw [hget] at htable
  refine ⟨?_, fun hnew t hgot => ?_, fun hnew hgot => ?_⟩
  · rw [hcalm.reserved]
    exact ht.not_reserved hv
  · rw [hcalm.dir] at hnew
    obtain ⟨t', hgot', hclean⟩ := htable hnew
    obtain rfl := Option.some.inj (hgot.symm.trans hgot')
    exact hclean
  · rw [hcalm.dir] at hnew
    obtain ⟨t', hgot', -⟩ := htable hnew
    rw [hgot] at hgot'
    cases hgot'

/-- The page is absent, and is acquired with its attributes. -/
lemma acquireOk (hs : Sound s) (ht : UserTables s) (hv : UserPage v)
    (habsent : (s.entry d v).present = false) (hattribute : flag &&& MAP_ATTRIBUTE ≠ 0)
    (hok : TableOk s d v) : AcquireOk s d v attr flag := by
  intro f hf
  have hget : mmGetPhysicalPage s = (some f, (mmGetPhysicalPage s).2) := Prod.ext hf rfl
  refine ⟨mapOk hs ht hv hok hget _ _ _, fun hcounted => ?_, ?_⟩
  · have hpresent := hcounted.1
    rw [habsent] at hpresent
    cases hpresent
  · exact ((new_maps hattribute _).mpr rfl).1

/-- A mapping leaves the counters of frames in use. -/
lemma arMapOnePage_counts (hs : Sound s) (ht : UserTables s) (hv : UserPage v) {p a flag : UInt32}
    (hroom : s.dir d (dirIndex v) ≠ .zero ∨ ¬NoFrame s)
    (hzero : ∀ z, zeroedFrame (s.entry d v) p flag = some z → Clearable s z)
    (hg : s.pageRef g ≠ 0) : (arMapOnePage s d v p a flag).pageRef g = s.pageRef g := by
  by_cases hnew : s.dir d (dirIndex v) = .zero
  · obtain ⟨t, hgot⟩ := Option.ne_none_iff_exists'.mp
      (mt (get_none_iff hs).mp (hroom.resolve_left (not_not.mpr hnew)))
    have hget : mmGetPhysicalPage s = (some t, (mmGetPhysicalPage s).2) := Prod.ext hgot rfl
    obtain ⟨-, hfree, -⟩ := mmGetPhysicalPage_some hs.search hs.front hget
    rw [entry_of_no_table hnew] at hzero
    have hne : g ≠ t := by
      rintro rfl
      exact hg hfree
    rw [(mapped_new p a flag hs ht hnew hget hzero).2, Function.update_of_ne hne]
  · rw [(mapped_table p a flag hs ht hv hnew hzero).2.2]

/-- What is known of an acquired page: it has a frame that was free, and every other page has what
it had before. -/
structure Gained (s s' : Paging.State) (d : Ptr) (v : UInt32) (f : Frame) : Prop where
  managed : s.Managed f
  free : s.pageRef f = 0
  totalPages : s'.totalPages = s.totalPages
  maps : (s'.entry d v).Maps f
  others : ∀ x g, Has s' x g → g = f ∨ Has s x g
  one : s'.pageRef f = 1
  counts : ∀ g, s.pageRef g ≠ 0 → s'.pageRef g = s.pageRef g

lemma acquire_gained (h : Lawful s) (ht : UserTables s) (hv : UserPage v)
    (hattribute : flag &&& MAP_ATTRIBUTE ≠ 0) (hok : TableOk s d v)
    (hget : mmGetPhysicalPage s = (some f, s')) :
    Gained s (arMapOnePage s' d v (addrOf f) (attr ||| PAGE_ATTR_PRESENT) (MAP_ADDRESS ||| flag)) d
      v f := by
  have hs := h.sound
  obtain ⟨hmanaged, hfree, hsame, href, -⟩ := mmGetPhysicalPage_some hs.search hs.front hget
  have hmap := mapOk hs ht hv hok hget (addrOf f) (attr ||| PAGE_ATTR_PRESENT)
    (MAP_ADDRESS ||| flag)
  have hcalm := calm_get hs hget
  have hsound := hcalm.sound hs
  have hclear := clearable_of_get hs ht hget
  have htables := get_tables hs ht hget
  have hnot := (mappings_eq_zero hfree (h.balanced f hmanaged).ge).2
  have hone : s'.pageRef f = 1 := by rw [href, Function.update_self]
  have hused : s'.pageRef f ≠ 0 := by
    rw [hone]
    decide
  have hzero : ∀ z, zeroedFrame (s'.entry d v) (addrOf f) (MAP_ADDRESS ||| flag) = some z → z = f :=
    fun z hz => zeroedFrame_address _ _ hz
  have hroom : s'.dir d (dirIndex v) ≠ .zero ∨ ¬NoFrame s' := by
    by_contra hno
    rw [not_or, not_not, not_not] at hno
    have hnone := hmap.room hno.1 ((get_none_iff hsound).mpr hno.2)
    rw [((@new_maps f f attr flag hattribute .zero).mpr rfl).1] at hnone
    cases hnone
  have heffect := arMapOnePage_effect hsound hmap
    (fun t ht' _ => by
      rw [excess_get hs hget, h.balanced t ((hcalm.managed t).mp ht'), zero_add]
      exact indicator_nonneg _)
    (fun z hz => by
      rw [hzero z hz]
      refine ⟨hclear.1, ?_, hused⟩
      rwa [hcalm.isTable])
  have hmapped := mapped_of_room (addrOf f) (attr ||| PAGE_ATTR_PRESENT) (MAP_ADDRESS ||| flag)
    hsound htables hv hroom fun z hz => hzero z hz ▸ hclear
  have hcounts := fun g hg => @arMapOnePage_counts s' g d v hsound htables hv (addrOf f)
    (attr ||| PAGE_ATTR_PRESENT) (MAP_ADDRESS ||| flag) hroom (fun z hz => hzero z hz ▸ hclear) hg
  refine ⟨hmanaged, hfree, heffect.totalPages.trans hcalm.totalPages, ?_, fun x g hx => ?_, ?_,
    fun g hg => ?_⟩
  · rw [hmapped.slot]
    exact (new_maps hattribute _).mpr rfl
  · rcases heffect.entries x.1 x.2 g with hnew | hold
    · exact .inl ((new_maps hattribute _).mp (hnew.mp hx.maps))
    · refine .inr ⟨hx.page, ?_⟩
      rw [← hcalm.entry]
      exact hold.mp hx.maps
  · rw [hcounts f hused, hone]
  · have hne : g ≠ f := by
      rintro rfl
      exact hg hfree
    have hsame' : s'.pageRef g = s.pageRef g := by rw [href, Function.update_of_ne hne]
    rw [hcounts g (by rwa [hsame']), hsame']

/-- An acquired page is owned, with a frame that no page had. -/
lemma Owned.acquire (h : Owned s xs) (hv : UserPage v) (habsent : (s.entry d v).present = false)
    (hattribute : flag &&& MAP_ATTRIBUTE ≠ 0) (hok : TableOk s d v) :
    Owned (mmAcquirePhysicalPage s d v attr flag).2 (insert (d, v) xs) := by
  have hs := h.lawful.sound
  have hlawful := acquire_lawful h.lawful
    (@acquireOk s d v attr flag hs h.tables hv habsent hattribute hok)
  have htables := (acquire_extends (d := d) hs h.tables hv attr flag).tables
  rw [mmAcquirePhysicalPage] at hlawful htables ⊢
  cases hget : (mmGetPhysicalPage s).1 with
  | none =>
    have hpair : mmGetPhysicalPage s = (none, (mmGetPhysicalPage s).2) := Prod.ext hget rfl
    rw [hpair] at hlawful ⊢
    exact (h.unmoved (unmoved_get hs hpair) hlawful).mono (Set.subset_insert _ _)
  | some f =>
    have hpair : mmGetPhysicalPage s = (some f, (mmGetPhysicalPage s).2) := Prod.ext hget rfl
    have hgained := @acquire_gained s _ f d v attr flag h.lawful h.tables hv hattribute hok hpair
    rw [hpair] at hlawful htables ⊢
    dsimp only at hlawful htables ⊢
    have hmanaged : ∀ g, s.Managed g → Paging.State.Managed (arMapOnePage (mmGetPhysicalPage s).2 d
        v (addrOf f) (attr ||| PAGE_ATTR_PRESENT) (MAP_ADDRESS ||| flag)) g := fun g hg => by
      rwa [Paging.State.Managed, hgained.totalPages]
    refine ⟨hlawful, htables, fun x g hx => ?_, fun x g hx => ?_⟩
    · rcases hgained.others x g hx with rfl | hold
      · have hself : Has _ (d, v) g := ⟨hv, hgained.maps⟩
        have heq := unique_of_one hlawful (hmanaged g hgained.managed) hgained.one
          (hx.slot htables) (hself.slot htables)
        obtain ⟨hd, hw⟩ := htables.eq_page hv hself.table hx.page.aligned hx.table
          (congrArg Prod.fst heq) (congrArg Prod.snd heq)
        exact .inl (Prod.ext hd hw)
      · exact .inr (h.inside x g hold)
    · rcases hgained.others x g hx with rfl | hold
      · exact ⟨hmanaged g hgained.managed, hgained.one⟩
      · obtain ⟨hold', hone⟩ := h.once x g hold
        refine ⟨hmanaged g hold', ?_⟩
        rw [hgained.counts g (by rw [hone]; decide), hone]

/-! ## Releasing a page -/

/-- A released page is no longer owned, and its frame is free. -/
lemma Owned.release (h : Owned s xs) (hv : UserPage v) :
    Owned (mmReleasePhysicalPage s d v) (xs \ {(d, v)}) := by
  have hs := h.lawful.sound
  have hlawful := release_lawful h.lawful (h.tables.not_reserved (d := d) hv)
  by_cases htable : s.dir d (dirIndex v) = .zero
  · have hsame : mmReleasePhysicalPage s d v = s := by
      rw [mmReleasePhysicalPage, query_none htable]
    rw [hsame]
    refine ⟨h.lawful, h.tables, fun x f hx => ⟨h.inside x f hx, ?_⟩, h.once⟩
    rintro rfl
    exact hx.table htable
  · obtain ⟨s1, e, he, hmapped, hdir, href, heq⟩ := release_eq hs h.tables hv htable
    -- in `s1` the entry is cleared, and the frame still counted
    have hbefore : ∀ x g, Has s1 x g → x ≠ (d, v) ∧ Has s x g := by
      intro x g hx
      have hne : x ≠ (d, v) := by
        rintro rfl
        have hpresent := hx.maps.1
        rw [hmapped.slot, he] at hpresent
        cases hpresent
      have htable' := hx.table
      rw [hdir] at htable'
      have hentry := hmapped.others x.1 x.2 hx.page.aligned htable' fun hh =>
        hne (Prod.ext hh.1 hh.2)
      exact ⟨hne, hx.page, by rw [← hentry]; exact hx.maps⟩
    rw [heq] at hlawful ⊢
    split_ifs at hlawful ⊢ with hpresent
    · have hself : Has s (d, v) (s.entry d v).physicalAddress := ⟨hv, hpresent, rfl⟩
      obtain ⟨hmanaged, hone⟩ := h.once _ _ hself
      have hcalm := calm_free hmapped.sound (s.entry d v).physicalAddress
      have hcounted : s1.Managed (s.entry d v).physicalAddress ∧
          s1.pageRef (s.entry d v).physicalAddress ≠ 0 := by
        rw [Paging.State.Managed, hmapped.totalPages, href, hone]
        exact ⟨hmanaged, by decide⟩
      have hcounts : ∀ g, g ≠ (s.entry d v).physicalAddress →
          (mmFreePhysicalPage s1 (s.entry d v).physicalAddress).pageRef g = s.pageRef g := by
        intro g hg
        rw [mmFreePhysicalPage, if_pos hcounted, setRef_pageRef, Function.update_of_ne hg, href]
      generalize mmFreePhysicalPage s1 (s.entry d v).physicalAddress = s2 at hlawful hcalm hcounts ⊢
      have hhas : ∀ x g, Has s2 x g → x ≠ (d, v) ∧ Has s x g := fun x g hx =>
        hbefore x g ⟨hx.page, by rw [← hcalm.entry]; exact hx.maps⟩
      have hnot := not_table_of_one h.lawful hmanaged hone (hself.slot h.tables)
      have hdir2 : s2.dir = s.dir := hcalm.dir.trans hdir
      refine ⟨hlawful, ⟨fun d' i hi => ?_, ?_, ?_⟩, fun x g hx => ?_, fun x g hx => ?_⟩
      · rw [hdir2] at hi ⊢
        rw [Paging.State.InUse, hcounts _ fun hh => hnot ⟨d', i, hi, hh⟩]
        exact h.tables.inUse d' i hi
      · rw [hdir2]
        exact h.tables.own
      · rw [hdir2]
        exact h.tables.notBoot
      · obtain ⟨hne, hold⟩ := hhas x g hx
        exact ⟨h.inside x g hold, hne⟩
      · obtain ⟨hne, hold⟩ := hhas x g hx
        have hg : g ≠ (s.entry d v).physicalAddress := by
          rintro rfl
          exact hne (h.own hold hself)
        rw [Paging.State.Managed, hcalm.totalPages, hmapped.totalPages, hcounts g hg]
        exact h.once x g hold
    · refine ⟨hlawful, hmapped.tables, fun x g hx => ?_, fun x g hx => ?_⟩
      · obtain ⟨hne, hold⟩ := hbefore x g hx
        exact ⟨h.inside x g hold, hne⟩
      · rw [Paging.State.Managed, hmapped.totalPages, href]
        exact h.once x g (hbefore x g hx).2

/-! ## Ranges -/

/-- Every table that is missing can be made when its first page is acquired. -/
def TablesOk (d : Ptr) (attr flag : UInt32) : ℕ → Paging.State → UInt32 → Prop
  | 0, _, _ => True
  | count + 1, s, addr => TableOk s d addr ∧ TablesOk d attr flag count
      (mmAcquirePhysicalPage s d addr attr flag).2 (addr + CopyOnWrite.PAGE_SIZE)

/-- The pages of a range in a space. -/
def pages (d : Ptr) (addr : UInt32) (count : ℕ) : Set (Ptr × UInt32) :=
  {x | x.1 = d ∧ x.2 ∈ firstPages addr count}

lemma pages_succ (d : Ptr) (addr : UInt32) (count : ℕ) :
    pages d addr (count + 1) =
      insert (d, addr) (pages d (addr + CopyOnWrite.PAGE_SIZE) count) := by
  ext x
  rw [pages, firstPages_succ]
  simp only [pages, Set.mem_insert_iff, Set.mem_ofPred_eq, Prod.ext_iff, and_or_left]

variable {addr siz : UInt32} {count : ℕ}

/-- The pages of a range that was absent are owned afterwards, as far as they are present. -/
lemma Owned.acquirePages (h : Owned s xs) (hr : UserRange addr count)
    (hout : ∀ k < count, (d, nth addr k) ∉ xs) (hattribute : flag &&& MAP_ATTRIBUTE ≠ 0)
    (hok : TablesOk d attr flag count s addr) :
    Owned (acquirePages s d siz attr flag count addr).2 (xs ∪ pages d addr count) := by
  induction count generalizing s xs addr with
  | zero =>
    exact h.mono (Set.subset_union_left)
  | succ count ih =>
    have hv := hr.page (Nat.succ_pos count)
    have hfirst := hout 0 (Nat.succ_pos count)
    rw [nth_zero] at hv hfirst
    have habsent : (s.entry d addr).present = false := by
      by_contra hpresent
      exact hfirst (h.inside (d, addr) _ ⟨hv, Bool.not_eq_false _ ▸ hpresent, rfl⟩)
    have hacquired := @Owned.acquire s xs d addr attr flag h hv habsent hattribute hok.1
    have hsub : insert (d, addr) xs ⊆ xs ∪ pages d addr (count + 1) := by
      rw [pages_succ, Set.union_insert]
      exact Set.insert_subset_insert Set.subset_union_left
    rw [SpaceCreation.acquirePages]
    dsimp only
    split_ifs with hresult
    · exact hacquired.mono hsub
    · have hrest := ih hacquired hr.tail ?_ hok.2
      · refine hrest.mono ?_
        rw [pages_succ, Set.union_insert, Set.insert_union]
      · intro k hk hin
        rw [← nth_succ] at hin
        rcases hin with heq | hin
        · have hzero := hr.nth_inj (Nat.succ_lt_succ hk) (Nat.succ_pos count)
            ((congrArg Prod.snd heq).trans (nth_zero addr).symm)
          exact absurd hzero (Nat.succ_ne_zero k)
        · exact hout (k + 1) (Nat.succ_lt_succ hk) hin

/-- No page of a range that is released is owned. -/
lemma Owned.releasePages (h : Owned s xs) (hr : UserRange addr count) :
    Owned (releasePages count s d addr) (xs \ pages d addr count) := by
  induction count generalizing s xs addr with
  | zero =>
    have hempty : pages d addr 0 = ∅ := by
      ext x
      simp [pages, firstPages_zero]
    rw [hempty, Set.sdiff_empty]
    exact h
  | succ count ih =>
    have hv := hr.page (Nat.succ_pos count)
    rw [nth_zero] at hv
    have hrest := ih (h.release (d := d) hv) hr.tail
    rw [RangePages.releasePages, pages_succ]
    refine hrest.mono fun x hx => ?_
    exact ⟨hx.1.1, fun hmem => hmem.elim (fun heq => hx.1.2 heq) hx.2⟩

end Sgos.SpacePages
