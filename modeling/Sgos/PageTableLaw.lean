import Sgos.PagingMap

/-!
# The page-table law

When `arMapOnePage` maps the page it is asked to map and no other. A new table is cleared from the
addressed entry on and not from its first, and the window is mapped anew by every query.
-/
namespace Sgos.Paging

def Aligned (addr : UInt32) : Prop := addr.toNat % 4096 = 0

instance (addr : UInt32) : Decidable (Aligned addr) := inferInstanceAs (Decidable (_ = _))

def mapBoth : UInt32 := MAP_ADDRESS ||| MAP_ATTRIBUTE

/-- A frame that `mmGetPhysicalPage` does not hand out. -/
def State.InUse (s : State) (f : Frame) : Prop := f.val < pageFront ∨ s.pageRef f ≠ 0

/-- The tables of a directory are frames in use, one for each of its entries, and the page above
the window holds none of them. -/
structure DirOk (s : State) (d : Ptr) : Prop where
  search : s.pageIt ≤ s.totalPages
  front : pageFront ≤ s.totalPages
  inUse : ∀ i, s.dir d i ≠ .zero → s.InUse (s.dir d i).physicalAddress
  distinct : ∀ i j, s.dir d i ≠ .zero → s.dir d j ≠ .zero →
    (s.dir d i).physicalAddress = (s.dir d j).physicalAddress → i = j
  spillInUse : s.InUse s.spill
  spill : ∀ i, s.dir d i ≠ .zero → (s.dir d i).physicalAddress ≠ s.spill

/-- A query finds no present page. -/
def NotPresent (s : State) (d : Ptr) (w : UInt32) : Prop :=
  ∀ p a, (arQueryPageInformation s d w).1 = some (p, a) → a &&& PAGE_ATTR_PRESENT = 0

/-- From `s` to `s'` the page `v` has been mapped to `p` and every other page is as it was, or not
present if its table is new. -/
structure MapsOnly (s s' : State) (d : Ptr) (v p a : UInt32) : Prop where
  mapped : (arQueryPageInformation s' d v).1 = some (p, a &&& 7)
  others : ∀ w, Aligned w → w ≠ v → (s.dir d (dirIndex w) = .zero → dirIndex w ≠ dirIndex v) →
    (arQueryPageInformation s' d w).1 = (arQueryPageInformation s d w).1
  created : s.dir d (dirIndex v) = .zero →
    ∀ w, Aligned w → w ≠ v → dirIndex w = dirIndex v → NotPresent s' d w

/-- The page of the window. -/
def IsWindowPage (s : State) (d : Ptr) (v : UInt32) : Prop :=
  s.dir d (dirIndex v) ≠ .zero ∧ IsWindow (s.dir d (dirIndex v)).physicalAddress (tableIndex v)

/-- The page with these indices. -/
def pageAt (i j : Index) : UInt32 := UInt32.ofNat (i.val * 4194304 + j.val * 4096)

lemma toNat_pageAt (i j : Index) : (pageAt i j).toNat = i.val * 4194304 + j.val * 4096 := by
  have hi := i.isLt
  have hj := j.isLt
  exact UInt32.toNat_ofNat_of_lt' (by rw [UInt32.size]; omega)

lemma aligned_pageAt (i j : Index) : Aligned (pageAt i j) := by
  rw [Aligned, toNat_pageAt]
  omega

lemma dirIndex_pageAt (i j : Index) : dirIndex (pageAt i j) = i := by
  have hj := j.isLt
  ext
  simp only [dirIndex, toNat_pageAt]
  omega

lemma tableIndex_pageAt (i j : Index) : tableIndex (pageAt i j) = j := by
  have hj := j.isLt
  ext
  simp only [tableIndex, toNat_pageAt]
  omega

section Law
variable {s : State} {d : Ptr} {v p a : UInt32}

lemma lookup_of_table {w : UInt32} {t : Frame} (h : s.dir d (dirIndex w) ≠ .zero)
    (ht : (s.dir d (dirIndex w)).physicalAddress = t) :
    s.lookup d w = some (s.seen t (tableIndex w)) := by
  rw [State.lookup, if_neg h, ht]

lemma lookup_of_no_table {w : UInt32} (h : s.dir d (dirIndex w) = .zero) :
    s.lookup d w = none := if_pos h

lemma zeroedFrame_both (te : PageTable) (p : UInt32) : zeroedFrame te p mapBoth = none :=
  if_neg (by decide)

lemma seen_table {t : Frame} (h : s.dir d (dirIndex v) ≠ .zero)
    (ht : (s.dir d (dirIndex v)).physicalAddress = t) (f : Frame) (j : Index) :
    (arMapOnePage s d v p a mapBoth).seen f j =
      if IsWindow f j then windowEntry (addrOf bootTable)
      else if f = t ∧ j = tableIndex v then mapEntry (s.seen t (tableIndex v)) p a mapBoth
      else s.seen f j := by
  rw [arMapOnePage_seen_table h ht]
  simp only [zeroedFrame_both, reduceCtorEq, if_false]

lemma seen_new {s' : State} {t : Frame} (h : s.dir d (dirIndex v) = .zero)
    (hnew : mmGetPhysicalPage s = (some t, s')) (hsame : SameTables s s') (ht : t ≠ bootTable)
    (f : Frame) (j : Index) :
    (arMapOnePage s d v p a mapBoth).seen f j =
      if IsWindow f j then windowEntry (addrOf bootTable)
      else if f = t ∧ j = tableIndex v then mapEntry .zero p a mapBoth
      else if f = t ∧ tableIndex v ≤ j then .zero
      else if f = s.spill ∧ j < tableIndex v then .zero
      else s.seen f j := by
  rw [arMapOnePage_seen_new h hnew hsame ht]
  simp only [zeroedFrame_both, reduceCtorEq, if_false]

/-- Where the table exists, only the window can spoil the mapping. -/
lemma mapsOnly_table_iff (h : DirOk s d) (hv : Aligned v) (hp : Aligned p)
    (htable : s.dir d (dirIndex v) ≠ .zero) :
    MapsOnly s (arMapOnePage s d v p a mapBoth) d v p a ↔
      (IsWindowPage s d v → p = 0x301000 ∧ a &&& 7 = 3) := by
  have hdir := (arMapOnePage_books htable p a mapBoth).dir
  have hseen := seen_table (p := p) (a := a) htable rfl
  have hquery : (arQueryPageInformation (arMapOnePage s d v p a mapBoth) d v).1 =
      if IsWindow (s.dir d (dirIndex v)).physicalAddress (tableIndex v) then some (0x301000, 3)
      else some (p, a &&& 7) := by
    rw [arQueryPageInformation_eq, lookup_of_table (by rwa [hdir]) (by rw [hdir]), hseen,
      if_pos (⟨rfl, rfl⟩ : _ ∧ tableIndex v = tableIndex v)]
    split_ifs with hw
    · decide
    · rw [Option.map_some, attr_mapEntry (by decide) (by decide),
        mapEntry_both (by decide) (by decide), addrOf_frameOf hp]
  constructor
  · rintro hmaps ⟨_, hw⟩
    have hmapped := hmaps.mapped
    rw [hquery, if_pos hw] at hmapped
    obtain ⟨rfl, h3⟩ := Prod.mk.inj (Option.some.inj hmapped)
    exact ⟨rfl, h3.symm⟩
  · intro hwindow
    refine ⟨?_, fun w hw hne hregion => ?_, fun hnew => absurd hnew htable⟩
    · rw [hquery]
      split_ifs with hw
      · obtain ⟨rfl, h3⟩ := hwindow ⟨htable, hw⟩
        rw [h3]
      · rfl
    · rw [arQueryPageInformation_eq, arQueryPageInformation_eq]
      by_cases hd : s.dir d (dirIndex w) = .zero
      · rw [lookup_of_no_table (by rwa [hdir]), lookup_of_no_table hd]
      · rw [lookup_of_table (by rwa [hdir]) (by rw [hdir]), lookup_of_table hd rfl, hseen]
        have hother : ¬ ((s.dir d (dirIndex w)).physicalAddress =
            (s.dir d (dirIndex v)).physicalAddress ∧ tableIndex w = tableIndex v) := by
          rintro ⟨ht, hi⟩
          exact hne (eq_of_indices hw hv (h.distinct _ _ hd htable ht) hi)
        rw [if_neg hother]
        split_ifs with hwin
        · rw [State.seen, if_pos hwin]
        · rfl

/-- A new table keeps the old entries of its frame below the addressed one. -/
lemma mapsOnly_new_iff (h : DirOk s d) (hv : Aligned v) (hp : Aligned p)
    (hnew : s.dir d (dirIndex v) = .zero) {t : Frame} {s' : State}
    (hget : mmGetPhysicalPage s = (some t, s')) :
    MapsOnly s (arMapOnePage s d v p a mapBoth) d v p a ↔
      ∀ j < tableIndex v, (s.mem t j).present = false := by
  obtain ⟨hmanaged, hfree, hsame, -, -⟩ := mmGetPhysicalPage_some h.search h.front hget
  have hne : ∀ {f}, s.InUse f → f ≠ t := by
    rintro f (hlow | href) rfl
    · exact absurd hmanaged.1 (not_le.mpr hlow)
    · exact href hfree
  have hboot : t ≠ bootTable := (hne (.inl (by decide))).symm
  have hspill : s.spill ≠ t := hne h.spillInUse
  have hdir : (arMapOnePage s d v p a mapBoth).dir =
      Function.update s.dir d (Function.update (s.dir d) (dirIndex v) (tableEntry t)) := by
    rw [(arMapOnePage_books_new hnew hget p a mapBoth).dir, ← hsame.dir]
    rfl
  have hdirv : (arMapOnePage s d v p a mapBoth).dir d (dirIndex v) = tableEntry t := by
    simp [hdir]
  have htable : (arMapOnePage s d v p a mapBoth).dir d (dirIndex v) ≠ .zero := by
    rw [hdirv]
    exact tableEntry_ne_zero t
  have hseen := seen_new (p := p) (a := a) hnew hget hsame hboot
  have hwin : ∀ j, ¬ IsWindow t j := fun j hw => hboot hw.1
  have hquery : (arQueryPageInformation (arMapOnePage s d v p a mapBoth) d v).1 =
      some (p, a &&& 7) := by
    rw [arQueryPageInformation_eq, lookup_of_table htable (by rw [hdirv, tableEntry_frame]), hseen,
      if_neg (hwin _), if_pos ⟨rfl, rfl⟩, Option.map_some,
      attr_mapEntry (by decide) (by decide), mapEntry_both (by decide) (by decide),
      addrOf_frameOf hp]
  have hregion : ∀ w, Aligned w → w ≠ v → dirIndex w = dirIndex v →
      (arMapOnePage s d v p a mapBoth).lookup d w =
        some (if tableIndex w < tableIndex v then s.mem t (tableIndex w) else .zero) := by
    intro w hw hwv hd
    have hi : tableIndex w ≠ tableIndex v := fun hi => hwv (eq_of_indices hw hv hd hi)
    rw [lookup_of_table (t := t) (by rwa [hd]) (by rw [hd, hdirv, tableEntry_frame]), hseen,
      if_neg (hwin _), if_neg fun hh => hi hh.2]
    by_cases hlt : tableIndex w < tableIndex v
    · rw [if_pos hlt, if_neg (fun hh => absurd hlt (Fin.not_lt.mpr hh.2)),
        if_neg (fun hh => hspill hh.1.symm), seen_of_not_window (hwin _)]
    · rw [if_neg hlt, if_pos ⟨rfl, Fin.not_lt.mp hlt⟩]
  have hpresent : ∀ w, Aligned w → w ≠ v → dirIndex w = dirIndex v →
      (NotPresent (arMapOnePage s d v p a mapBoth) d w ↔
        (tableIndex w < tableIndex v → (s.mem t (tableIndex w)).present = false)) := by
    intro w hw hwv hd
    rw [NotPresent, arQueryPageInformation_eq, hregion w hw hwv hd]
    simp only [Option.map_some, Option.some.injEq, Prod.mk.injEq, and_imp, forall_apply_eq_imp_iff,
      forall_eq', attr_and_present]
    split_ifs with hlt
    · exact ⟨fun hh _ => hh, fun hh => hh hlt⟩
    · exact ⟨fun _ hh => absurd hh hlt, fun _ => rfl⟩
  constructor
  · intro hmaps j hj
    have hd := dirIndex_pageAt (dirIndex v) j
    have ht := tableIndex_pageAt (dirIndex v) j
    have hwv : pageAt (dirIndex v) j ≠ v := fun he => by
      rw [← he, ht] at hj
      exact absurd hj (Fin.lt_irrefl _)
    have hlow := (hpresent _ (aligned_pageAt _ _) hwv hd).mp
      (hmaps.created hnew _ (aligned_pageAt _ _) hwv hd)
    rw [ht] at hlow
    exact hlow hj
  · intro hstale
    refine ⟨hquery, fun w hw hwv hregion => ?_, fun _ w hw hwv hd => ?_⟩
    · have hd : dirIndex w ≠ dirIndex v := fun hd => hregion (hd ▸ hnew) hd
      have hdirw : (arMapOnePage s d v p a mapBoth).dir d (dirIndex w) = s.dir d (dirIndex w) := by
        simp [hdir, hd]
      rw [arQueryPageInformation_eq, arQueryPageInformation_eq]
      by_cases hz : s.dir d (dirIndex w) = .zero
      · rw [lookup_of_no_table (by rwa [hdirw]), lookup_of_no_table hz]
      · have hother := hne (h.inUse _ hz)
        rw [lookup_of_table (by rwa [hdirw]) (by rw [hdirw]), lookup_of_table hz rfl, hseen]
        by_cases hwin : IsWindow (s.dir d (dirIndex w)).physicalAddress (tableIndex w)
        · rw [if_pos hwin, State.seen, if_pos hwin]
        · rw [if_neg hwin, if_neg fun hh => hother hh.1, if_neg fun hh => hother hh.1,
            if_neg fun hh => h.spill _ hz hh.1]
    · exact (hpresent w hw hwv hd).mpr (hstale _)

/-- The mapping of one page does what is asked, and no more, exactly if a new table gets a frame
with no present entry below the addressed one, and the page of the window is not mapped to anything
but what every query maps it to. -/
theorem mapsOnly_iff (h : DirOk s d) (hv : Aligned v) (hp : Aligned p)
    (hroom : s.dir d (dirIndex v) = .zero → (mmGetPhysicalPage s).1 ≠ none) :
    MapsOnly s (arMapOnePage s d v p a mapBoth) d v p a ↔
      (s.dir d (dirIndex v) = .zero → ∀ t, (mmGetPhysicalPage s).1 = some t →
        ∀ j < tableIndex v, (s.mem t j).present = false) ∧
      (IsWindowPage s d v → p = 0x301000 ∧ a &&& 7 = 3) := by
  by_cases hnew : s.dir d (dirIndex v) = .zero
  · obtain ⟨t, ht⟩ := Option.ne_none_iff_exists'.mp (hroom hnew)
    have hget : mmGetPhysicalPage s = (some t, (mmGetPhysicalPage s).2) := Prod.ext ht rfl
    rw [mapsOnly_new_iff h hv hp hnew hget]
    constructor
    · refine fun hstale => ⟨fun _ t' ht' => ?_, fun hw => absurd hnew hw.1⟩
      obtain rfl := Option.some.inj (ht.symm.trans ht')
      exact hstale
    · exact fun hc => hc.1 hnew t ht
  · rw [mapsOnly_table_iff h hv hp hnew]
    exact ⟨fun hw => ⟨fun hz => absurd hz hnew, hw⟩, fun hc => hc.2⟩

end Law

lemma boot_dirOk {totalPages : ℕ} (h : pageFront ≤ totalPages) (junk : Frame → Index → PageTable)
    (d : Ptr) : DirOk (boot totalPages junk) d where
  search := h
  front := h
  inUse i hi := by
    rw [(boot_table hi).2]
    exact .inl (by decide)
  distinct i j hi hj _ := (boot_table hi).1.trans (boot_table hj).1.symm
  spillInUse := .inl (show spillIndex.val < pageFront by decide)
  spill i hi := by
    have hspill : (boot totalPages junk).spill = (0x304 : Frame) := rfl
    rw [(boot_table hi).2, hspill]
    decide

/-- A page above the first of a new table, whose frame is clean. -/
theorem mapsOnly_iff_cleanFrame :
    MapsOnly (boot 0x1000 fun _ _ => .zero)
      (arMapOnePage (boot 0x1000 fun _ _ => .zero) 1 0x401000 0x500000 7 mapBoth)
      1 0x401000 0x500000 7 :=
  (mapsOnly_iff (boot_dirOk (by decide) _ 1) (by decide) (by decide) (by decide +kernel)).mpr
    ⟨fun _ t ht j _ => by
      obtain rfl : (0x400 : Frame) = t := Option.some.inj ht
      rfl,
    fun hw => absurd hw.1 (by decide)⟩

/-- The first entry of a reused frame survives when a new table is opened at its second entry. -/
theorem not_mapsOnly :
    ¬ ∀ (s : State) (d : Ptr) (v p a : UInt32), DirOk s d → Aligned v → Aligned p →
      (s.dir d (dirIndex v) = .zero → (mmGetPhysicalPage s).1 ≠ none) →
        MapsOnly s (arMapOnePage s d v p a mapBoth) d v p a := by
  intro h
  have hmaps := h (boot 0x1000 fun _ _ => ⟨true, true, true, 0, 0x500⟩) 1 0x401000 0x500000 7
    (boot_dirOk (by decide) _ 1) (by decide) (by decide) (by decide +kernel)
  have hlow := hmaps.created (by decide) 0x400000 (by decide) (by decide) (by decide) 0x500000 7
    (by decide +kernel)
  exact absurd hlow (by decide)

end Sgos.Paging
