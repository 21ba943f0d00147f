import Sgos.MemoryRanges
import Sgos.PointSwaps
import Sgos.UserPages

/-!
# The exchange of two ranges

`MmSwapMultiplePhysicalPages` with `MAP_ADDRESS` writes the address of a page and leaves its entry
present, or makes it present if neither page is. It exchanges what two pages map exactly if both are
present, or if it can do nothing.
-/
namespace Sgos.RangeSwap
open Paging MemoryRanges PointSwaps

/-- The directory of a space, and the address of a page. -/
abbrev Page := Ptr × UInt32

/-- The pages from an address on. -/
def pageOf (space : Ptr) (addr : UInt32) (k : ℕ) : Page := (space, nth addr k)

/-- From `s` to `s'` the translations of two ranges have been exchanged, those of all other pages
are as they were, and as many pages map a frame as before. -/
structure Exchanged (s s' : Paging.State) (count : ℕ) (destSp : Ptr) (destAddr : UInt32)
    (srcSp : Ptr) (srcAddr : UInt32) : Prop where
  dest : ∀ k < count,
    s'.translate destSp (nth destAddr k) = s.translate srcSp (nth srcAddr k)
  src : ∀ k < count,
    s'.translate srcSp (nth srcAddr k) = s.translate destSp (nth destAddr k)
  others : ∀ x : Page, Aligned x.2 →
    (∀ k < count, x ≠ pageOf destSp destAddr k ∧ x ≠ pageOf srcSp srcAddr k) →
      s'.translate x.1 x.2 = s.translate x.1 x.2
  frames : ∀ f : Frame, {x : Page | Aligned x.2 ∧ s'.translate x.1 x.2 = some f}.encard =
    {x : Page | Aligned x.2 ∧ s.translate x.1 x.2 = some f}.encard

/-- Both pages are present, or neither has a table nor can get one. -/
def Exchangeable (s : Paging.State) (destSp : Ptr) (destAddr : UInt32) (srcSp : Ptr)
    (srcAddr : UInt32) : Prop :=
  ((s.entry destSp destAddr).present = true ∧ (s.entry srcSp srcAddr).present = true) ∨
    (s.dir destSp (dirIndex destAddr) = .zero ∧ s.dir srcSp (dirIndex srcAddr) = .zero ∧ NoFrame s)

/-! ## One page -/

section Page
variable {s : Paging.State} {destSp srcSp : Ptr} {destAddr srcAddr : UInt32}

lemma mapEntry_address (te e : PageTable) :
    mapEntry te (addrOf e.physicalAddress) e.attr MAP_ADDRESS =
      { te with
        physicalAddress := e.physicalAddress
        present := te.present || !e.present } := by
  have hpresent : decide (e.attr &&& PAGE_ATTR_PRESENT = 0) = !e.present := by
    by_cases hp : e.present = true
    · simp [attr_and_present, hp]
    · simp [attr_and_present, hp]
  have hflag : ¬(MAP_ADDRESS &&& MAP_ATTRIBUTE ≠ 0) := by decide
  have hframe := frameOf_addrOf e.physicalAddress
  unfold mapEntry
  rw [if_neg hflag, if_pos (by decide), hpresent, hframe]

/-- A swap of pages whose exchange is in order. -/
structure Swapped (s s' : Paging.State) (x y : Page) : Prop where
  sound : Sound s'
  tables : UserTables s'
  totalPages : s'.totalPages = s.totalPages
  dir : s'.dir = s.dir
  pageRef : s'.pageRef = s.pageRef
  translate : ∀ z : Page, Aligned z.2 →
    s'.translate z.1 z.2 = s.translate (Equiv.swap x y z).1 (Equiv.swap x y z).2

lemma noZero {flag : UInt32} (h : flag &&& MAP_ZERO = 0) (te : PageTable) (p : UInt32) :
    ∀ z, zeroedFrame te p flag = some z → Clearable s z :=
  fun _ hz => zeroedFrame_none h te p hz

/-- A swap of two present pages. -/
lemma swap_present (hs : Sound s) (ht : UserTables s) (hdest : UserPage destAddr)
    (hsrc : UserPage srcAddr) (hne : (destSp, destAddr) ≠ (srcSp, srcAddr))
    (hd : (s.entry destSp destAddr).present = true) (hp : (s.entry srcSp srcAddr).present = true) :
    Swapped s (mmSwapPhysicalPage s destSp destAddr srcSp srcAddr MAP_ADDRESS)
      (destSp, destAddr) (srcSp, srcAddr) := by
  have hquery := unmoved_queries hs destSp destAddr srcSp srcAddr
  rw [mmSwapPhysicalPage_eq hs]
  generalize queried (queried s destSp destAddr) srcSp srcAddr = s1 at *
  have hdtable := table_of_present hd
  have hstable := table_of_present hp
  obtain ⟨hmap1, hdir1, href1⟩ := mapped_table (d := destSp)
    (addrOf (s.entry srcSp srcAddr).physicalAddress) (s.entry srcSp srcAddr).attr MAP_ADDRESS
    hquery.sound (hquery.tables ht) hdest (by rwa [hquery.dir]) (noZero (by decide) _ _)
  generalize arMapOnePage s1 destSp destAddr _ _ MAP_ADDRESS = s2 at *
  rw [hquery.dir] at hdir1
  obtain ⟨hmap2, hdir2, href2⟩ := mapped_table (d := srcSp)
    (addrOf (s.entry destSp destAddr).physicalAddress) (s.entry destSp destAddr).attr MAP_ADDRESS
    hmap1.sound hmap1.tables hsrc (by rwa [hdir1]) (noZero (by decide) _ _)
  generalize arMapOnePage s2 srcSp srcAddr _ _ MAP_ADDRESS = s3 at *
  rw [hdir1] at hdir2
  have hsrc2 : s2.entry srcSp srcAddr = s.entry srcSp srcAddr := by
    rw [hmap1.others srcSp srcAddr hsrc.aligned (by rwa [hquery.dir])
      fun hh => hne (Prod.ext hh.1.symm hh.2.symm), hquery.entry]
  have hsrc3 : s3.translate srcSp srcAddr = s.translate destSp destAddr := by
    rw [State.translate, hmap2.slot, hsrc2, mapEntry_address, translate_of_present hd, hp]
    exact if_pos rfl
  have hdest3 : s3.translate destSp destAddr = s.translate srcSp srcAddr := by
    have hkeep := hmap2.others destSp destAddr hdest.aligned (by rwa [hdir1]) fun hh =>
      hne (Prod.ext hh.1 hh.2)
    rw [State.translate, hkeep, hmap1.slot, hquery.entry, mapEntry_address,
      translate_of_present hp, hd]
    exact if_pos rfl
  refine ⟨hmap2.sound, hmap2.tables, ?_, hdir2, ?_, fun z hz => ?_⟩
  · rw [hmap2.totalPages, hmap1.totalPages, hquery.totalPages]
  · rw [href2, href1, hquery.pageRef]
  by_cases hzd : z = (destSp, destAddr)
  · rw [hzd, Equiv.swap_apply_left]
    exact hdest3
  by_cases hzs : z = (srcSp, srcAddr)
  · rw [hzs, Equiv.swap_apply_right]
    exact hsrc3
  rw [Equiv.swap_apply_of_ne_of_ne hzd hzs]
  refine translate_congr ?_
  by_cases htable : s.dir z.1 (dirIndex z.2) = .zero
  · rw [entry_of_no_table (by rwa [hdir2]), entry_of_no_table htable]
  · rw [hmap2.others z.1 z.2 hz (by rwa [hdir1]) fun hh => hzs (Prod.ext hh.1 hh.2),
      hmap1.others z.1 z.2 hz (by rwa [hquery.dir]) fun hh => hzd (Prod.ext hh.1 hh.2),
      hquery.entry]

/-- A swap of two pages without tables, when there is no frame for one. -/
lemma swap_absent (hs : Sound s) (ht : UserTables s)
    (hd : s.dir destSp (dirIndex destAddr) = .zero) (hp : s.dir srcSp (dirIndex srcAddr) = .zero)
    (hno : NoFrame s) :
    Swapped s (mmSwapPhysicalPage s destSp destAddr srcSp srcAddr MAP_ADDRESS)
      (destSp, destAddr) (srcSp, srcAddr) := by
  have hquery := unmoved_queries hs destSp destAddr srcSp srcAddr
  rw [mmSwapPhysicalPage_eq hs]
  generalize queried (queried s destSp destAddr) srcSp srcAddr = s1 at *
  have hmap1 := hquery.trans (unmoved_full (d := destSp) (addrOf (s.entry srcSp srcAddr).physicalAddress)
    (s.entry srcSp srcAddr).attr MAP_ADDRESS hquery.sound (by rwa [hquery.dir])
    (hquery.noFrame.mpr hno))
  generalize arMapOnePage s1 destSp destAddr _ _ MAP_ADDRESS = s2 at *
  have hmap2 := hmap1.trans (unmoved_full (d := srcSp) (addrOf (s.entry destSp destAddr).physicalAddress)
    (s.entry destSp destAddr).attr MAP_ADDRESS hmap1.sound (by rwa [hmap1.dir])
    (hmap1.noFrame.mpr hno))
  refine ⟨hmap2.sound, hmap2.tables ht, hmap2.totalPages, hmap2.dir, hmap2.pageRef, fun z _ => ?_⟩
  have hnone : s.translate destSp destAddr = s.translate srcSp srcAddr := by
    rw [State.translate, State.translate, entry_of_no_table hd, entry_of_no_table hp]
  rw [translate_congr (hmap2.entry z.1 z.2)]
  by_cases hzd : z = (destSp, destAddr)
  · rw [hzd, Equiv.swap_apply_left]
    exact hnone
  by_cases hzs : z = (srcSp, srcAddr)
  · rw [hzs, Equiv.swap_apply_right]
    exact hnone.symm
  rw [Equiv.swap_apply_of_ne_of_ne hzd hzs]

lemma swap_exchangeable (hs : Sound s) (ht : UserTables s) (hdest : UserPage destAddr)
    (hsrc : UserPage srcAddr) (hne : (destSp, destAddr) ≠ (srcSp, srcAddr))
    (hok : Exchangeable s destSp destAddr srcSp srcAddr) :
    Swapped s (mmSwapPhysicalPage s destSp destAddr srcSp srcAddr MAP_ADDRESS)
      (destSp, destAddr) (srcSp, srcAddr) := by
  rcases hok with ⟨hd, hp⟩ | ⟨hd, hp, hno⟩
  · exact swap_present hs ht hdest hsrc hne hd hp
  · exact swap_absent hs ht hd hp hno

variable (destSp srcSp) in
lemma swap_extends (hs : Sound s) (ht : UserTables s) (hdest : UserPage destAddr)
    (hsrc : UserPage srcAddr) :
    Extends s (mmSwapPhysicalPage s destSp destAddr srcSp srcAddr MAP_ADDRESS)
      {(destSp, destAddr), (srcSp, srcAddr)} := by
  have hquery := unmoved_queries hs destSp destAddr srcSp srcAddr
  rw [mmSwapPhysicalPage_eq hs]
  have hmap1 := (hquery.extends ht ∅).trans (arMapOnePage_extends (d := destSp)
    (addrOf (s.entry srcSp srcAddr).physicalAddress) (s.entry srcSp srcAddr).attr MAP_ADDRESS
    hquery.sound (hquery.tables ht) hdest (noZero (by decide) _ _))
  refine (hmap1.trans (arMapOnePage_extends (d := srcSp) _ _ MAP_ADDRESS hmap1.sound hmap1.tables
    hsrc (noZero (by decide) _ _))).mono ?_
  rw [Set.empty_union]
  exact le_rfl

/-- A swap that is not in order leaves one page with a table and with what the other did not map. -/
lemma swap_wrong (hs : Sound s) (ht : UserTables s) (hdest : UserPage destAddr)
    (hsrc : UserPage srcAddr) (hne : (destSp, destAddr) ≠ (srcSp, srcAddr))
    (hbad : ¬Exchangeable s destSp destAddr srcSp srcAddr) :
    let s' := mmSwapPhysicalPage s destSp destAddr srcSp srcAddr MAP_ADDRESS
    (s'.dir destSp (dirIndex destAddr) ≠ .zero ∧
        s'.translate destSp destAddr ≠ s.translate srcSp srcAddr) ∨
      (s'.dir srcSp (dirIndex srcAddr) ≠ .zero ∧
        s'.translate srcSp srcAddr ≠ s.translate destSp destAddr) := by
  have hquery := unmoved_queries hs destSp destAddr srcSp srcAddr
  rw [mmSwapPhysicalPage_eq hs]
  generalize queried (queried s destSp destAddr) srcSp srcAddr = s1 at *
  dsimp only
  have ht1 := hquery.tables ht
  have hwrong : ∀ {s' : Paging.State} {d d' : Ptr} {v v' : UInt32},
      (s'.entry d v).present = true → (s.entry d' v').present = false →
        s'.translate d v ≠ s.translate d' v' := by
    intro s' d d' v v' hp ha
    rw [translate_of_present hp, translate_eq_none.mpr ha]
    exact Option.some_ne_none _
  have hmap1 := arMapOnePage_extends (d := destSp) (addrOf (s.entry srcSp srcAddr).physicalAddress)
    (s.entry srcSp srcAddr).attr MAP_ADDRESS hquery.sound ht1 hdest (noZero (by decide) _ _)
  -- behind the first mapping, a present destination stays present
  have hstays : ∀ {s2 : Paging.State}, Extends s1 s2 {(destSp, destAddr)} →
      (s2.entry destSp destAddr).present = true →
      let s3 := arMapOnePage s2 srcSp srcAddr (addrOf (s.entry destSp destAddr).physicalAddress)
        (s.entry destSp destAddr).attr MAP_ADDRESS
      s3.dir destSp (dirIndex destAddr) ≠ .zero ∧ (s3.entry destSp destAddr).present = true := by
    intro s2 hext hp
    have hmap2 := arMapOnePage_extends (d := srcSp) (addrOf (s.entry destSp destAddr).physicalAddress)
      (s.entry destSp destAddr).attr MAP_ADDRESS hext.sound hext.tables hsrc
      (noZero (by decide) _ _)
    have htable := table_of_present hp
    refine ⟨hmap2.table htable, ?_⟩
    rw [hmap2.others destSp destAddr hdest.aligned htable fun hh => hne (Set.mem_singleton_iff.mp hh)]
    exact hp
  -- and so is a source that is present, or is mapped while the destination is absent
  have hcomes : ∀ {s2 : Paging.State}, Extends s1 s2 {(destSp, destAddr)} →
      s.dir srcSp (dirIndex srcAddr) ≠ .zero → (s.entry destSp destAddr).present = false →
      let s3 := arMapOnePage s2 srcSp srcAddr (addrOf (s.entry destSp destAddr).physicalAddress)
        (s.entry destSp destAddr).attr MAP_ADDRESS
      s3.dir srcSp (dirIndex srcAddr) ≠ .zero ∧ (s3.entry srcSp srcAddr).present = true := by
    intro s2 hext htable hd
    obtain ⟨hmap2, -⟩ := mapped_table (d := srcSp)
      (addrOf (s.entry destSp destAddr).physicalAddress) (s.entry destSp destAddr).attr MAP_ADDRESS
      hext.sound hext.tables hsrc (hext.table (by rwa [hquery.dir])) (noZero (by decide) _ _)
    refine ⟨hmap2.table, ?_⟩
    rw [hmap2.slot, mapEntry_address, hd]
    exact Bool.or_true _
  by_cases hd : (s.entry destSp destAddr).present = true
  · -- the source is absent, and the destination stays present
    have hp : (s.entry srcSp srcAddr).present = false := by
      by_contra hp
      exact hbad (.inl ⟨hd, by simpa using hp⟩)
    have htable := table_of_present hd
    obtain ⟨hslot, -⟩ := mapped_table (d := destSp)
      (addrOf (s.entry srcSp srcAddr).physicalAddress) (s.entry srcSp srcAddr).attr MAP_ADDRESS
      hquery.sound ht1 hdest (by rwa [hquery.dir]) (noZero (by decide) _ _)
    have hpresent := hslot.slot
    rw [hquery.entry, mapEntry_address, hd, Bool.true_or] at hpresent
    obtain ⟨h1, h2⟩ := hstays hmap1 (by rw [hpresent])
    exact .inl ⟨h1, hwrong h2 hp⟩
  · have hd : (s.entry destSp destAddr).present = false := by simpa using hd
    by_cases htable : s.dir srcSp (dirIndex srcAddr) ≠ .zero ∧
        ((s.entry srcSp srcAddr).present = true ∨
          (s.dir destSp (dirIndex destAddr) = .zero ∧ NoFrame s))
    · obtain ⟨h1, h2⟩ := hcomes hmap1 htable.1 hd
      exact .inr ⟨h1, hwrong h2 hd⟩
    · -- the destination gets the address of an absent page
      have hp : (s.entry srcSp srcAddr).present = false := by
        by_contra hp
        have hp : (s.entry srcSp srcAddr).present = true := by simpa using hp
        exact htable ⟨table_of_present hp, .inl hp⟩
      have hroom : s1.dir destSp (dirIndex destAddr) ≠ .zero ∨ ¬NoFrame s1 := by
        rw [hquery.dir, hquery.noFrame]
        by_contra hno
        rw [not_or, not_not, not_not] at hno
        by_cases hzero : s.dir srcSp (dirIndex srcAddr) = .zero
        · exact hbad (.inr ⟨hno.1, hzero, hno.2⟩)
        · exact htable ⟨hzero, .inr hno⟩
      have hpresent := (mapped_of_room (addrOf (s.entry srcSp srcAddr).physicalAddress)
        (s.entry srcSp srcAddr).attr MAP_ADDRESS hquery.sound ht1 hdest hroom
        (noZero (by decide) _ _)).slot
      rw [hquery.entry, mapEntry_address, hd, hp] at hpresent
      obtain ⟨h1, h2⟩ := hstays hmap1 (by rw [hpresent]; rfl)
      exact .inl ⟨h1, hwrong h2 hp⟩

end Page

/-! ## Ranges -/

/-- Two ranges of user pages without a page in common. -/
structure Ranges (count : ℕ) (destSp : Ptr) (destAddr : UInt32) (srcSp : Ptr) (srcAddr : UInt32) :
    Prop where
  dest : ∀ k < count, UserPage (nth destAddr k)
  src : ∀ k < count, UserPage (nth srcAddr k)
  distinct : Distinct count (pageOf destSp destAddr) (pageOf srcSp srcAddr)

/-- The pages of both ranges. -/
def within (count : ℕ) (destSp : Ptr) (destAddr : UInt32) (srcSp : Ptr) (srcAddr : UInt32) :
    Set Page :=
  {x | ∃ k < count, x = pageOf destSp destAddr k ∨ x = pageOf srcSp srcAddr k}

lemma pageOf_zero (space : Ptr) (addr : UInt32) : pageOf space addr 0 = (space, addr) := by
  rw [pageOf, nth_zero]

lemma pageOf_succ (space : Ptr) (addr : UInt32) :
    (fun k => pageOf space addr (k + 1)) = pageOf space (addr + CopyOnWrite.PAGE_SIZE) :=
  funext fun k => congrArg (Prod.mk space) (nth_succ addr k)

section Run
variable {s : Paging.State} {destSp srcSp : Ptr} {destAddr srcAddr : UInt32} {count : ℕ}

lemma Ranges.tail (h : Ranges (count + 1) destSp destAddr srcSp srcAddr) :
    Ranges count destSp (destAddr + CopyOnWrite.PAGE_SIZE) srcSp
      (srcAddr + CopyOnWrite.PAGE_SIZE) where
  dest k hk := by
    rw [← nth_succ]
    exact h.dest _ (by omega)
  src k hk := by
    rw [← nth_succ]
    exact h.src _ (by omega)
  distinct := by
    rw [← pageOf_succ, ← pageOf_succ]
    exact h.distinct.tail

lemma Ranges.head (h : Ranges (count + 1) destSp destAddr srcSp srcAddr) :
    UserPage destAddr ∧ UserPage srcAddr ∧ (destSp, destAddr) ≠ (srcSp, srcAddr) := by
  have hdest := h.dest 0 (by omega)
  have hsrc := h.src 0 (by omega)
  have hne := h.distinct.apart 0 (by omega) 0 (by omega)
  rw [nth_zero] at hdest hsrc
  rw [pageOf_zero, pageOf_zero] at hne
  exact ⟨hdest, hsrc, hne⟩

/-- The pages behind the first ones are different from them. -/
lemma Ranges.head_not_within (h : Ranges (count + 1) destSp destAddr srcSp srcAddr) {x : Page}
    (hx : x = (destSp, destAddr) ∨ x = (srcSp, srcAddr)) :
    x ∉ within count destSp (destAddr + CopyOnWrite.PAGE_SIZE) srcSp
      (srcAddr + CopyOnWrite.PAGE_SIZE) := by
  rintro ⟨k, hk, he⟩
  rw [← pageOf_succ, ← pageOf_succ] at he
  have hleft := h.distinct.head_left hk
  have hright := h.distinct.head_right hk
  rw [pageOf_zero, pageOf_zero] at hleft hright
  rcases hx with rfl | rfl <;> rcases he with he | he
  · exact hleft.1 he.symm
  · exact hright.1 he.symm
  · exact hleft.2 he.symm
  · exact hright.2 he.symm

/-- The swaps of a range change entries within it only, where there are tables. -/
lemma swapPages_extends (hs : Sound s) (ht : UserTables s)
    (h : Ranges count destSp destAddr srcSp srcAddr) :
    Extends s (CopyOnWrite.swapPages MAP_ADDRESS count s destSp destAddr srcSp srcAddr)
      (within count destSp destAddr srcSp srcAddr) := by
  induction count generalizing s destAddr srcAddr with
  | zero => exact ⟨hs, ht, fun _ _ _ => rfl, fun _ _ _ _ _ => rfl⟩
  | succ count ih =>
    obtain ⟨hdest, hsrc, -⟩ := h.head
    have hfirst := swap_extends destSp srcSp hs ht hdest hsrc
    refine (hfirst.trans (ih hfirst.sound hfirst.tables h.tail)).mono ?_
    rintro x (hx | ⟨k, hk, hx⟩)
    · refine ⟨0, by omega, ?_⟩
      rw [pageOf_zero, pageOf_zero]
      exact hx
    · refine ⟨k + 1, by omega, ?_⟩
      rw [← pageOf_succ, ← pageOf_succ] at hx
      exact hx

lemma present_iff_translate {d : Ptr} {v : UInt32} :
    (s.entry d v).present = true ↔ s.translate d v ≠ none := by
  rw [ne_eq, translate_eq_none, Bool.not_eq_false]

/-- A swap in order does not decide whether other pages can be exchanged. -/
lemma Swapped.exchangeable_iff {s' : Paging.State} {x y : Page} (h : Swapped s s' x y)
    {d d' : Ptr} {v v' : UInt32} (hv : Aligned v) (hv' : Aligned v')
    (hx : (d, v) ≠ x ∧ (d, v) ≠ y) (hy : (d', v') ≠ x ∧ (d', v') ≠ y) :
    Exchangeable s' d v d' v' ↔ Exchangeable s d v d' v' := by
  have h1 := h.translate (d, v) hv
  have h2 := h.translate (d', v') hv'
  rw [Equiv.swap_apply_of_ne_of_ne hx.1 hx.2] at h1
  rw [Equiv.swap_apply_of_ne_of_ne hy.1 hy.2] at h2
  have hno : NoFrame s' ↔ NoFrame s := by
    simp only [NoFrame, State.Managed, h.totalPages, h.pageRef]
  simp only [Exchangeable, present_iff_translate, h1, h2, h.dir, hno]

/-- If all pages can be exchanged, the translations are exchanged pairwise. -/
lemma swapPages_translate (hs : Sound s) (ht : UserTables s)
    (h : Ranges count destSp destAddr srcSp srcAddr)
    (hok : ∀ k < count, Exchangeable s destSp (nth destAddr k) srcSp (nth srcAddr k)) :
    ∀ x : Page, Aligned x.2 →
      (CopyOnWrite.swapPages MAP_ADDRESS count s destSp destAddr srcSp srcAddr).translate x.1 x.2 =
        s.translate (swaps count (pageOf destSp destAddr) (pageOf srcSp srcAddr) x).1
          (swaps count (pageOf destSp destAddr) (pageOf srcSp srcAddr) x).2 := by
  induction count generalizing s destAddr srcAddr with
  | zero => exact fun x _ => rfl
  | succ count ih =>
    obtain ⟨hdest, hsrc, hne⟩ := h.head
    have hfirst := hok 0 (by omega)
    rw [nth_zero, nth_zero] at hfirst
    have hswap := swap_exchangeable hs ht hdest hsrc hne hfirst
    have htail := h.tail
    have hnext : ∀ k < count, Exchangeable
        (mmSwapPhysicalPage s destSp destAddr srcSp srcAddr MAP_ADDRESS) destSp
        (nth (destAddr + CopyOnWrite.PAGE_SIZE) k) srcSp
        (nth (srcAddr + CopyOnWrite.PAGE_SIZE) k) := by
      intro k hk
      have hleft := h.distinct.head_left hk
      have hright := h.distinct.head_right hk
      rw [pageOf_zero, pageOf_zero] at hleft hright
      rw [← nth_succ, ← nth_succ]
      exact (hswap.exchangeable_iff (h.dest _ (by omega)).aligned (h.src _ (by omega)).aligned
        hleft hright).mpr (hok (k + 1) (by omega))
    intro x hx
    have halign := (swaps_iff htail.distinct (P := fun y : Page => Aligned y.2)
      (fun k hk => (htail.dest k hk).aligned) (fun k hk => (htail.src k hk).aligned) x).mpr hx
    rw [CopyOnWrite.swapPages, ih hswap.sound hswap.tables htail hnext x hx,
      hswap.translate _ halign, swaps, pageOf_succ, pageOf_succ, pageOf_zero, pageOf_zero,
      Equiv.Perm.mul_apply]

/-- If the translations are exchanged, all pages could be exchanged. -/
lemma exchangeable_of_translate (hs : Sound s) (ht : UserTables s)
    (h : Ranges count destSp destAddr srcSp srcAddr)
    (hswapped : ∀ k < count,
      let s' := CopyOnWrite.swapPages MAP_ADDRESS count s destSp destAddr srcSp srcAddr
      s'.translate destSp (nth destAddr k) = s.translate srcSp (nth srcAddr k) ∧
        s'.translate srcSp (nth srcAddr k) = s.translate destSp (nth destAddr k)) :
    ∀ k < count, Exchangeable s destSp (nth destAddr k) srcSp (nth srcAddr k) := by
  induction count generalizing s destAddr srcAddr with
  | zero =>
    intro k hk
    omega
  | succ count ih =>
    obtain ⟨hdest, hsrc, hne⟩ := h.head
    have hext := swap_extends destSp srcSp hs ht hdest hsrc
    have hrest := swapPages_extends hext.sound hext.tables h.tail
    have hfirst : Exchangeable s destSp destAddr srcSp srcAddr := by
      -- what a wrong swap leaves at the first pages is not touched again
      by_contra hbad
      obtain ⟨hd, hp⟩ := hswapped 0 (by omega)
      rw [nth_zero, nth_zero] at hd hp
      rcases swap_wrong hs ht hdest hsrc hne hbad with ⟨htable, hwrong⟩ | ⟨htable, hwrong⟩
      · have hkeep := hrest.others destSp destAddr hdest.aligned htable
          (h.head_not_within (.inl rfl))
        exact hwrong ((translate_congr hkeep).symm.trans hd)
      · have hkeep := hrest.others srcSp srcAddr hsrc.aligned htable
          (h.head_not_within (.inr rfl))
        exact hwrong ((translate_congr hkeep).symm.trans hp)
    have hswap := swap_exchangeable hs ht hdest hsrc hne hfirst
    intro k hk
    cases k with
    | zero =>
      rw [nth_zero, nth_zero]
      exact hfirst
    | succ k =>
      have hout : ∀ j < count, ∀ x : Page, (x = pageOf destSp destAddr (j + 1) ∨
          x = pageOf srcSp srcAddr (j + 1)) → x ≠ (destSp, destAddr) ∧ x ≠ (srcSp, srcAddr) := by
        intro j hj x hx
        have hleft := h.distinct.head_left hj
        have hright := h.distinct.head_right hj
        rw [pageOf_zero, pageOf_zero] at hleft hright
        rcases hx with rfl | rfl
        · exact hleft
        · exact hright
      have hk' : k < count := by omega
      rw [← hswap.exchangeable_iff (h.dest _ hk).aligned (h.src _ hk).aligned
        (hout k hk' _ (.inl rfl)) (hout k hk' _ (.inr rfl)), nth_succ, nth_succ]
      refine ih hext.sound hext.tables h.tail (fun j hj => ?_) k hk'
      obtain ⟨hd, hp⟩ := hswapped (j + 1) (by omega)
      have hdest' := hswap.translate (pageOf destSp destAddr (j + 1)) (h.dest _ (by omega)).aligned
      have hsrc' := hswap.translate (pageOf srcSp srcAddr (j + 1)) (h.src _ (by omega)).aligned
      rw [Equiv.swap_apply_of_ne_of_ne (hout j hj _ (.inl rfl)).1 (hout j hj _ (.inl rfl)).2] at hdest'
      rw [Equiv.swap_apply_of_ne_of_ne (hout j hj _ (.inr rfl)).1 (hout j hj _ (.inr rfl)).2] at hsrc'
      rw [← nth_succ, ← nth_succ]
      exact ⟨hd.trans hsrc'.symm, hp.trans hdest'.symm⟩

/-- Two ranges are exchanged exactly if all their pages can be. -/
theorem exchanged_iff (hs : Sound s) (ht : UserTables s)
    (h : Ranges count destSp destAddr srcSp srcAddr) :
    Exchanged s (CopyOnWrite.swapPages MAP_ADDRESS count s destSp destAddr srcSp srcAddr) count
        destSp destAddr srcSp srcAddr ↔
      ∀ k < count, Exchangeable s destSp (nth destAddr k) srcSp (nth srcAddr k) := by
  constructor
  · intro hswapped
    exact exchangeable_of_translate hs ht h fun k hk => ⟨hswapped.dest k hk, hswapped.src k hk⟩
  · intro hok
    have htranslate := swapPages_translate hs ht h hok
    refine ⟨fun k hk => ?_, fun k hk => ?_, fun x hx hout => ?_, fun f => ?_⟩
    · have hpage := htranslate (pageOf destSp destAddr k) (h.dest k hk).aligned
      rwa [swaps_left h.distinct hk] at hpage
    · have hpage := htranslate (pageOf srcSp srcAddr k) (h.src k hk).aligned
      rwa [swaps_right h.distinct hk] at hpage
    · have hpage := htranslate x hx
      rwa [swaps_other hout] at hpage
    · rw [← encard_perm (swaps count (pageOf destSp destAddr) (pageOf srcSp srcAddr))
        fun x : Page => Aligned x.2 ∧ s.translate x.1 x.2 = some f]
      congr 1
      ext x
      have halign := swaps_iff h.distinct (P := fun y : Page => Aligned y.2)
        (fun k hk => (h.dest k hk).aligned) (fun k hk => (h.src k hk).aligned) x
      simp only [Set.mem_ofPred_eq]
      constructor
      · rintro ⟨hx, hf⟩
        exact ⟨halign.mpr hx, (htranslate x hx).symm.trans hf⟩
      · rintro ⟨hx, hf⟩
        exact ⟨halign.mp hx, (htranslate x (halign.mp hx)).trans hf⟩

end Run

/-! ## The call -/

/-- A range in an area for swaps, which ends below the kernel. -/
structure InSwapArea (l : Lists) (s : CopyOnWrite.State) (space : Ptr) (addr siz : UInt32)
    (vma : Ptr) : Prop where
  found : VirtualMemory.mmGetVmaByAddress ⟨s.heap, l.user space⟩ addr = some vma
  swap : CopyOnWrite.flagOf s vma &&& CopyOnWrite.ALLOC_SWAP ≠ 0
  inside : addr.toNat + siz.toNat ≤ VirtualMemory.State.fin ⟨s.heap, l.user space⟩ vma
  below : VirtualMemory.State.fin ⟨s.heap, l.user space⟩ vma ≤ KERNEL_BASE.toNat

/-- The ranges do not overlap. -/
def Apart (destSp : Ptr) (destAddr : UInt32) (srcSp : Ptr) (srcAddr siz : UInt32) : Prop :=
  destSp = srcSp → destAddr.toNat + siz.toNat ≤ srcAddr.toNat ∨
    srcAddr.toNat + siz.toNat ≤ destAddr.toNat

section Call
variable {l : Lists} {s : CopyOnWrite.State} {destSp srcSp : Ptr} {destAddr srcAddr siz : UInt32}
  {dest src : Ptr}

lemma InSwapArea.fits (h : InSwapArea l s destSp destAddr siz dest) :
    ¬Unswappable s dest destAddr siz := by
  have hend := h.inside.trans h.below
  have hbase : KERNEL_BASE.toNat = 3221225472 := by decide
  have hbelow := h.below
  have hsum : (destAddr + siz).toNat = destAddr.toNat + siz.toNat :=
    toNat_add_of_lt (by simp only [addressSpace]; omega)
  have harea : ((s.heap dest).virtualAddress + (s.heap dest).virtualSize).toNat =
      VirtualMemory.State.fin ⟨s.heap, l.user destSp⟩ dest :=
    toNat_add_of_lt (by simp only [addressSpace]; exact lt_of_le_of_lt hbelow (by omega))
  rintro (hflag | hexceeds)
  · exact h.swap hflag
  · rw [CopyOnWrite.exceeds, gt_iff_lt, UInt32.lt_iff_toNat_lt, hsum, harea] at hexceeds
    exact absurd h.inside (not_le.mpr hexceeds)

lemma toNat_mod_page {a : UInt32} (h : a % CopyOnWrite.PAGE_SIZE = 0) : a.toNat % 4096 = 0 := by
  have hmod := congrArg UInt32.toNat h
  rwa [UInt32.toNat_mod] at hmod

/-- The pages of a range below the kernel. -/
lemma InSwapArea.page (h : InSwapArea l s destSp destAddr siz dest)
    (halign : destAddr % CopyOnWrite.PAGE_SIZE = 0) {k : ℕ} (hk : k < (siz >>> 12).toNat) :
    (nth destAddr k).toNat = destAddr.toNat + k * 4096 ∧ k * 4096 + 4096 ≤ siz.toNat ∧
      UserPage (nth destAddr k) := by
  have hend := h.inside.trans h.below
  have hbase : KERNEL_BASE.toNat = 3221225472 := by decide
  rw [toNat_count] at hk
  have hnth : (nth destAddr k).toNat = destAddr.toNat + k * 4096 :=
    toNat_nth (by simp only [addressSpace]; omega)
  have hmod := toNat_mod_page halign
  refine ⟨hnth, by omega, ?_, ?_⟩
  · rw [Aligned, hnth]
    omega
  · rw [UInt32.lt_iff_toNat_lt, hnth]
    omega

lemma ranges_of_areas (halign : ¬Misaligned destAddr srcAddr siz)
    (hdest : InSwapArea l s destSp destAddr siz dest) (hsrc : InSwapArea l s srcSp srcAddr siz src)
    (hapart : Apart destSp destAddr srcSp srcAddr siz) :
    Ranges (siz >>> 12).toNat destSp destAddr srcSp srcAddr := by
  rw [Misaligned, not_or, not_or, not_not, not_not, not_not] at halign
  obtain ⟨had, has, -⟩ := halign
  refine ⟨fun k hk => (hdest.page had hk).2.2, fun k hk => (hsrc.page has hk).2.2, ?_, ?_, ?_⟩
  · intro j hj k hk he
    have hnth := congrArg (fun x : Page => x.2.toNat) he
    simp only [pageOf, (hdest.page had hj).1, (hdest.page had hk).1] at hnth
    omega
  · intro j hj k hk he
    have hnth := congrArg (fun x : Page => x.2.toNat) he
    simp only [pageOf, (hsrc.page has hj).1, (hsrc.page has hk).1] at hnth
    omega
  · intro j hj k hk he
    have hnth := congrArg (fun x : Page => x.2.toNat) he
    obtain ⟨hd, hjs, -⟩ := hdest.page had hj
    obtain ⟨hp, hks, -⟩ := hsrc.page has hk
    simp only [pageOf, hd, hp] at hnth
    have hcase := hapart (congrArg Prod.fst he)
    omega

/-- A swap of two ranges succeeds. -/
lemma swap_call (halign : ¬Misaligned destAddr srcAddr siz)
    (hdest : InSwapArea l s destSp destAddr siz dest)
    (hsrc : InSwapArea l s srcSp srcAddr siz src) :
    mmSwapMultiplePhysicalPages l s destSp destAddr srcSp srcAddr siz MAP_ADDRESS =
      some (siz, ⟨CopyOnWrite.swapPages MAP_ADDRESS (siz >>> 12).toNat s.paging destSp destAddr
        srcSp srcAddr, s.heap⟩) := by
  simp [mmSwapMultiplePhysicalPages, halign, hsrc.found, hsrc.fits, hdest.found, hdest.fits]

/-- A swap of two ranges exchanges their translations exactly if of every two pages both are
present, or neither has a table and no frame is free. -/
theorem swap_exchanged_iff (hs : Sound s.paging) (ht : UserTables s.paging)
    (halign : ¬Misaligned destAddr srcAddr siz) (hdest : InSwapArea l s destSp destAddr siz dest)
    (hsrc : InSwapArea l s srcSp srcAddr siz src)
    (hapart : Apart destSp destAddr srcSp srcAddr siz) :
    (∃ s', mmSwapMultiplePhysicalPages l s destSp destAddr srcSp srcAddr siz MAP_ADDRESS =
        some (siz, s') ∧
      Exchanged s.paging s'.paging (siz >>> 12).toNat destSp destAddr srcSp srcAddr) ↔
      ∀ k < (siz >>> 12).toNat,
        Exchangeable s.paging destSp (nth destAddr k) srcSp (nth srcAddr k) := by
  have hranges := ranges_of_areas halign hdest hsrc hapart
  rw [← exchanged_iff hs ht hranges, swap_call halign hdest hsrc]
  constructor
  · rintro ⟨s', he, hswapped⟩
    obtain ⟨-, rfl⟩ := Prod.mk.inj (Option.some.inj he)
    exact hswapped
  · exact fun hswapped => ⟨_, rfl, hswapped⟩

end Call

/-! ## Two spaces -/

/-- The first page of the area is present in both spaces. -/
def bothPresent : CopyOnWrite.State where
  heap := oneArea.heap
  paging := (mmAcquirePhysicalPage
    (mmAcquirePhysicalPage oneArea.paging 1 0x100000 7 MAP_ATTRIBUTE).2 2 0x100000 7
    MAP_ATTRIBUTE).2

lemma oneArea_inSwapArea (space : Ptr) (paging : Paging.State) :
    InSwapArea oneList ⟨paging, oneArea.heap⟩ space 0x100000 0x1000 16 where
  found := by
    change VirtualMemory.mmGetVmaByAddress ⟨oneArea.heap, oneList.user 0⟩ 0x100000 = some 16
    decide +kernel
  swap := by
    change (oneArea.heap 16).allocationFlag &&& CopyOnWrite.ALLOC_SWAP ≠ 0
    decide
  inside := show 0x100000 + 0x1000 ≤ 0x100000 + 0x2000 by decide
  below := show 0x100000 + 0x2000 ≤ 0xC0000000 by decide

lemma bothPresent_extends : Sound bothPresent.paging ∧ UserTables bothPresent.paging := by
  have hboot : Sound oneArea.paging := (boot_lawful (by decide) _).sound
  have hpage : UserPage 0x100000 := ⟨by decide, by decide⟩
  have hfirst := acquire_extends (d := 1) hboot (boot_userTables _ _) hpage 7 MAP_ATTRIBUTE
  have hsecond := acquire_extends (d := 2) hfirst.sound hfirst.tables hpage 7 MAP_ATTRIBUTE
  exact ⟨hsecond.sound, hsecond.tables⟩

theorem swap_exchanged_iff_bothPresent :
    (∃ s', mmSwapMultiplePhysicalPages oneList bothPresent 1 0x100000 2 0x100000 0x1000
        MAP_ADDRESS = some (0x1000, s') ∧
      Exchanged bothPresent.paging s'.paging ((0x1000 : UInt32) >>> 12).toNat 1 0x100000 2
        0x100000) ↔
      ∀ k < ((0x1000 : UInt32) >>> 12).toNat,
        Exchangeable bothPresent.paging 1 (nth 0x100000 k) 2 (nth 0x100000 k) :=
  swap_exchanged_iff bothPresent_extends.1 bothPresent_extends.2 (by decide)
    (oneArea_inSwapArea 1 _) (oneArea_inSwapArea 2 _) fun he => absurd he (by decide)

/-- The first page of the area is present in one space, and was never touched in the other. -/
def onePresent : CopyOnWrite.State where
  heap := oneArea.heap
  paging := (mmAcquirePhysicalPage oneArea.paging 1 0x100000 7 MAP_ATTRIBUTE).2

/-- A page that is exchanged with an absent one stays present, on a frame it did not receive. -/
theorem not_swap_exchanged :
    ¬∀ (l : Lists) (s : CopyOnWrite.State) (destSp srcSp : Ptr) (destAddr srcAddr siz : UInt32)
      (dest src : Ptr), Sound s.paging → UserTables s.paging →
        ¬Misaligned destAddr srcAddr siz → InSwapArea l s destSp destAddr siz dest →
        InSwapArea l s srcSp srcAddr siz src → Apart destSp destAddr srcSp srcAddr siz →
        ∃ s', mmSwapMultiplePhysicalPages l s destSp destAddr srcSp srcAddr siz MAP_ADDRESS =
            some (siz, s') ∧
          Exchanged s.paging s'.paging (siz >>> 12).toNat destSp destAddr srcSp srcAddr := by
  intro h
  have hpage : UserPage 0x100000 := ⟨by decide, by decide⟩
  have hext := acquire_extends (d := 1) (boot_lawful (show pageFront ≤ 0x1000 by decide) _).sound
    (boot_userTables 0x1000 fun _ _ => .zero) hpage 7 MAP_ATTRIBUTE
  obtain ⟨s', hcall, hswapped⟩ := h oneList onePresent 1 2 0x100000 0x100000 0x1000 16 16
    hext.sound hext.tables (by decide) (oneArea_inSwapArea 1 _) (oneArea_inSwapArea 2 _)
    fun he => absurd he (by decide)
  have hranges : Ranges ((0x1000 : UInt32) >>> 12).toNat 1 0x100000 2 0x100000 :=
    ranges_of_areas (by decide) (oneArea_inSwapArea 1 onePresent.paging)
      (oneArea_inSwapArea 2 onePresent.paging) fun he => absurd he (by decide)
  have hpaging : s'.paging = CopyOnWrite.swapPages MAP_ADDRESS ((0x1000 : UInt32) >>> 12).toNat
      onePresent.paging 1 0x100000 2 0x100000 := by
    have hsucceeds : mmSwapMultiplePhysicalPages oneList onePresent 1 0x100000 2 0x100000 0x1000
        MAP_ADDRESS = _ :=
      swap_call (by decide) (oneArea_inSwapArea 1 _) (oneArea_inSwapArea 2 _)
    obtain ⟨-, rfl⟩ := Prod.mk.inj (Option.some.inj (hcall.symm.trans hsucceeds))
    rfl
  have hpages := exchangeable_of_translate hext.sound hext.tables hranges
    fun k hk => ⟨hpaging ▸ hswapped.dest k hk, hpaging ▸ hswapped.src k hk⟩
  rcases hpages 0 (by decide) with ⟨-, habsent⟩ | ⟨hnone, -⟩
  · revert habsent
    decide +kernel
  · revert hnone
    decide +kernel

end Sgos.RangeSwap
