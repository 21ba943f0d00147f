import Sgos.FrameRuns
import Sgos.PageTableLaw

/-!
# Pages of user spaces

The tables below `KERNEL_BASE` belong to one entry of one directory each. The mapping of a page
there changes the entry of that page and leaves those of all other pages with a table alone; without
a table and without a free frame it changes nothing.
-/
namespace Sgos.Paging

/-- The address of a page below the kernel. -/
structure UserPage (v : UInt32) : Prop where
  aligned : Aligned v
  below : v < KERNEL_BASE

/-- Tables are frames in use, and those of user pages have one owner. -/
structure UserTables (s : State) : Prop where
  inUse : ∀ d i, s.dir d i ≠ .zero → s.InUse (s.dir d i).physicalAddress
  own : ∀ d i d' j, i.val < 768 → s.dir d i ≠ .zero → s.dir d' j ≠ .zero →
    (s.dir d' j).physicalAddress = (s.dir d i).physicalAddress → d' = d ∧ j = i
  notBoot : ∀ d i, i.val < 768 → s.dir d i ≠ .zero → (s.dir d i).physicalAddress ≠ bootTable

/-- All frames that are counted are in use. -/
def NoFrame (s : State) : Prop := ∀ f, s.Managed f → s.pageRef f ≠ 0

/-- The frame that a page maps. -/
def State.translate (s : State) (d : Ptr) (v : UInt32) : Option Frame :=
  if (s.entry d v).present then some (s.entry d v).physicalAddress else none

/-! ## Free frames -/

lemma searchFree_none {pageRef : Frame → UInt8} {n i : ℕ} (h : searchFree pageRef n i = none) :
    ∀ f : Frame, i ≤ f.val → f.val < i + n → pageRef f ≠ 0 := by
  induction n generalizing i with
  | zero => intro f hle hlt; omega
  | succ n ih =>
    intro f hle hlt
    rw [searchFree] at h
    split_ifs at h with hi hfree
    · by_cases hf : f.val = i
      · obtain rfl : f = ⟨i, hi⟩ := Fin.ext hf
        exact hfree
      · exact ih h f (by omega) (by omega)
    · omega

/-- A frame is handed out exactly if one is free. -/
lemma get_none_iff {s : State} (hs : Sound s) : (mmGetPhysicalPage s).1 = none ↔ NoFrame s := by
  constructor
  · intro hnone f hf
    obtain ⟨hlow, hhigh⟩ := hf
    have hsearch := hs.search
    unfold mmGetPhysicalPage at hnone
    split_ifs at hnone with hfull
    · omega
    dsimp only at hnone
    cases hfirst : searchFree s.pageRef (s.totalPages - max s.pageIt pageFront)
        (max s.pageIt pageFront) with
    | some g =>
      rw [hfirst] at hnone
      cases hnone
    | none =>
      rw [hfirst] at hnone
      cases hsecond : searchFree s.pageRef (max s.pageIt pageFront - pageFront) pageFront with
      | some g =>
        rw [hsecond] at hnone
        cases hnone
      | none =>
        by_cases hit : max s.pageIt pageFront ≤ f.val
        · exact searchFree_none hfirst f hit (by omega)
        · exact searchFree_none hsecond f hlow (by omega)
  · intro hno
    cases hget : (mmGetPhysicalPage s).1 with
    | none => rfl
    | some f =>
      have hpair : mmGetPhysicalPage s = (some f, (mmGetPhysicalPage s).2) := Prod.ext hget rfl
      obtain ⟨hm, hfree, -⟩ := mmGetPhysicalPage_some hs.search hs.front hpair
      exact absurd hfree (hno f hm)

/-! ## The mapping of a user page -/

section Mapping
variable {s s' : State} {d : Ptr} {v p a flag : UInt32}

lemma UserPage.dirIndex_lt (h : UserPage v) : (dirIndex v).val < 768 := by
  have hlt : v.toNat < 0xC0000000 := UInt32.lt_iff_toNat_lt.mp h.below
  simp only [dirIndex]
  omega

lemma UserTables.not_window (h : UserTables s) (hv : UserPage v)
    (htable : s.dir d (dirIndex v) ≠ .zero) :
    ¬IsWindow (s.dir d (dirIndex v)).physicalAddress (tableIndex v) :=
  fun hw => h.notBoot d _ hv.dirIndex_lt htable hw.1

lemma UserTables.not_reserved (h : UserTables s) (hv : UserPage v) : ¬Reserved s d v :=
  fun hr => h.notBoot d _ hv.dirIndex_lt hr.1 hr.2.1

/-- From `s` to `s'` a page has got the entry `e`, and perhaps a table. -/
structure Mapped (s s' : State) (d : Ptr) (v : UInt32) (e : PageTable) : Prop where
  sound : Sound s'
  tables : UserTables s'
  totalPages : s'.totalPages = s.totalPages
  dir : ∀ d' i, s.dir d' i ≠ .zero → s'.dir d' i = s.dir d' i
  table : s'.dir d (dirIndex v) ≠ .zero
  slot : s'.entry d v = e
  others : ∀ d' w, Aligned w → s.dir d' (dirIndex w) ≠ .zero → ¬(d' = d ∧ w = v) →
    s'.entry d' w = s.entry d' w

/-- A frame that may be cleared with the mapping. -/
def Clearable (s : State) (z : Frame) : Prop := z ≠ bootTable ∧ ¬s.IsTable z ∧ s.InUse z

/-- Two pages below the kernel with one entry are the same. -/
lemma UserTables.eq_page (h : UserTables s) (hv : UserPage v)
    (htable : s.dir d (dirIndex v) ≠ .zero) {d' : Ptr} {w : UInt32} (hw : Aligned w)
    (htable' : s.dir d' (dirIndex w) ≠ .zero)
    (hframe : (s.dir d' (dirIndex w)).physicalAddress = (s.dir d (dirIndex v)).physicalAddress)
    (hi : tableIndex w = tableIndex v) : d' = d ∧ w = v := by
  obtain ⟨hd, hj⟩ := h.own d _ d' _ hv.dirIndex_lt htable htable' hframe
  exact ⟨hd, eq_of_indices hw hv.aligned hj hi⟩

variable (p a flag) in
/-- The mapping of a page that has a table. -/
lemma mapped_table (hs : Sound s) (ht : UserTables s) (hv : UserPage v)
    (htable : s.dir d (dirIndex v) ≠ .zero)
    (hzero : ∀ z, zeroedFrame (s.entry d v) p flag = some z → Clearable s z) :
    Mapped s (arMapOnePage s d v p a flag) d v (mapEntry (s.entry d v) p a flag) ∧
      (arMapOnePage s d v p a flag).dir = s.dir ∧
      (arMapOnePage s d v p a flag).pageRef = s.pageRef := by
  obtain ⟨heffect, href⟩ := effect_table p a flag hs htable (ht.not_reserved hv) fun z hz =>
    ⟨(hzero z hz).1, (hzero z hz).2.1⟩
  have hseen := arMapOnePage_seen_table (v := v) htable rfl p a flag
  rw [← entry_of_table htable] at hseen
  have hdir := (arMapOnePage_books htable p a flag).dir
  refine ⟨⟨heffect.sound, ⟨?_, ?_, ?_⟩, heffect.totalPages, heffect.tables, ?_, ?_, ?_⟩, hdir, href⟩
  · intro d' i hi
    rw [hdir] at hi ⊢
    rw [State.InUse, href]
    exact ht.inUse d' i hi
  · rw [hdir]
    exact ht.own
  · rw [hdir]
    exact ht.notBoot
  · rwa [hdir]
  · rw [entry_of_table (by rwa [hdir]), hdir, hseen, if_neg (ht.not_window hv htable),
      if_neg fun hz => (hzero _ hz).2.1 ⟨d, _, htable, rfl⟩, if_pos ⟨rfl, rfl⟩]
  · intro d' w hw htable' hne
    rw [entry_of_table (by rwa [hdir]), hdir, hseen, entry_of_table htable']
    split_ifs with hwin hz hslot
    · rw [State.seen, if_pos hwin]
    · exact absurd ⟨d', _, htable', rfl⟩ (hzero _ hz).2.1
    · exact absurd (ht.eq_page hv htable hw htable' hslot.1 hslot.2) hne
    · rfl

variable (p a flag) in
/-- The mapping of a page that gets a new table. -/
lemma mapped_new (hs : Sound s) (ht : UserTables s)
    (hnew : s.dir d (dirIndex v) = .zero) {t : Frame} (hget : mmGetPhysicalPage s = (some t, s'))
    (hzero : ∀ z, zeroedFrame .zero p flag = some z → Clearable s z) :
    Mapped s (arMapOnePage s d v p a flag) d v (mapEntry .zero p a flag) ∧
      (arMapOnePage s d v p a flag).pageRef = Function.update s.pageRef t 1 := by
  obtain ⟨hmanaged, hfree, hsame, href, hit⟩ := mmGetPhysicalPage_some hs.search hs.front hget
  have hne : ∀ {f}, s.InUse f → f ≠ t := by
    rintro f (hlow | hused) rfl
    · exact absurd hmanaged.1 (not_le.mpr hlow)
    · exact hused hfree
  have hboot : t ≠ bootTable := (hne (.inl (by decide))).symm
  have hspill : t ≠ spillFrame := (hne (.inl (by decide))).symm
  have hwin : ∀ j, ¬IsWindow t j := fun j hw => hboot hw.1
  have hbooks := arMapOnePage_books_new hnew hget p a flag
  have hseen := arMapOnePage_seen_new (v := v) hnew hget hsame hboot p a flag
  rw [hs.spill] at hseen
  have hdir : ∀ d' j, (arMapOnePage s d v p a flag).dir d' j =
      if d' = d ∧ j = dirIndex v then tableEntry t else s.dir d' j := by
    intro d' j
    rw [hbooks.dir, setDir_dir, hsame.dir]
  have hpageRef := hbooks.pageRef.trans href
  generalize arMapOnePage s d v p a flag = s2 at *
  have hself : s2.dir d (dirIndex v) = tableEntry t := by rw [hdir, if_pos ⟨rfl, rfl⟩]
  have hkeep : ∀ d' j, s.dir d' j ≠ .zero → s2.dir d' j = s.dir d' j := by
    intro d' j hj
    rw [hdir, if_neg]
    rintro ⟨rfl, rfl⟩
    exact hj hnew
  have hcases : ∀ d' j, s2.dir d' j ≠ .zero →
      (d' = d ∧ j = dirIndex v ∧ (s2.dir d' j).physicalAddress = t) ∨
        (s.dir d' j ≠ .zero ∧ s2.dir d' j = s.dir d' j) := by
    intro d' j hj
    by_cases hx : d' = d ∧ j = dirIndex v
    · refine .inl ⟨hx.1, hx.2, ?_⟩
      rw [hdir, if_pos hx, tableEntry_frame]
    · have hsame' : s2.dir d' j = s.dir d' j := by rw [hdir, if_neg hx]
      exact .inr ⟨by rwa [hsame'] at hj, hsame'⟩
  have hused : ∀ f, s.InUse f → s2.InUse f := by
    intro f hf
    rw [State.InUse, hpageRef, Function.update_of_ne (hne hf)]
    exact hf
  refine ⟨⟨⟨?_, ?_, ?_, ?_⟩, ⟨?_, ?_, ?_⟩, hbooks.totalPages.trans hsame.totalPages, hkeep, ?_,
    ?_, ?_⟩, hpageRef⟩
  · rw [hbooks.pageIt, hbooks.totalPages]
    change s'.pageIt ≤ s'.totalPages
    rw [hit, hsame.totalPages]
    exact hmanaged.2
  · rw [hbooks.totalPages]
    change pageFront ≤ s'.totalPages
    rw [hsame.totalPages]
    exact hs.front
  · rw [spill_eq_seen, hseen, if_neg (by decide), if_neg fun hz => (hzero _ hz).1 rfl,
      if_neg fun hh => hboot hh.1.symm, if_neg fun hh => hboot hh.1.symm,
      if_neg fun hh => absurd hh.1 (by decide), ← spill_eq_seen, hs.spill]
  · rintro ⟨d', j, hj, he⟩
    rcases hcases d' j hj with ⟨-, -, hf⟩ | ⟨hold, hsame'⟩
    · exact hspill (hf.symm.trans he)
    · exact hs.spillFree ⟨d', j, hold, by rw [← hsame']; exact he⟩
  · intro d' j hj
    rcases hcases d' j hj with ⟨-, -, hf⟩ | ⟨hold, hsame'⟩
    · rw [hf, State.InUse, hpageRef, Function.update_self]
      exact .inr (by decide)
    · rw [hsame']
      exact hused _ (ht.inUse d' j hold)
  · intro d₁ i d₂ j hi h₁ h₂ he
    rcases hcases d₁ i h₁ with ⟨hd₁, hi₁, hf₁⟩ | ⟨hold₁, hsame₁⟩ <;>
      rcases hcases d₂ j h₂ with ⟨hd₂, hj₂, hf₂⟩ | ⟨hold₂, hsame₂⟩
    · exact ⟨hd₂.trans hd₁.symm, hj₂.trans hi₁.symm⟩
    · rw [hf₁, hsame₂] at he
      exact absurd he (hne (ht.inUse d₂ j hold₂))
    · rw [hf₂, hsame₁] at he
      exact absurd he.symm (hne (ht.inUse d₁ i hold₁))
    · rw [hsame₁, hsame₂] at he
      exact ht.own d₁ i d₂ j hi hold₁ hold₂ he
  · intro d' i hi h'
    rcases hcases d' i h' with ⟨-, -, hf⟩ | ⟨hold, hsame'⟩
    · rw [hf]
      exact hboot
    · rw [hsame']
      exact ht.notBoot d' i hi hold
  · rw [hself]
    exact (tableEntry_ne_zero t)
  · rw [entry_of_table (by rw [hself]; exact (tableEntry_ne_zero t)), hself, tableEntry_frame, hseen, if_neg (hwin _),
      if_neg fun hz => hne (hzero _ hz).2.2 rfl, if_pos ⟨rfl, rfl⟩]
  · intro d' w hw htable hother
    have hother' := hne (ht.inUse d' _ htable)
    have hspill' : (s.dir d' (dirIndex w)).physicalAddress ≠ spillFrame := fun he =>
      hs.spillFree ⟨d', _, htable, he⟩
    rw [entry_of_table (by rwa [hkeep _ _ htable]), hkeep _ _ htable, hseen,
      entry_of_table htable]
    split_ifs with hwin' hz hslot hlow hsp
    · rw [State.seen, if_pos hwin']
    · exact absurd ⟨d', _, htable, rfl⟩ (hzero _ hz).2.1
    · exact absurd hslot.1 hother'
    · exact absurd hlow.1 hother'
    · exact absurd hsp.1 hspill'
    · rfl

/-- Neither directories, nor counters, nor the entries of any page differ. -/
structure Unmoved (s s' : State) : Prop where
  sound : Sound s'
  totalPages : s'.totalPages = s.totalPages
  dir : s'.dir = s.dir
  pageRef : s'.pageRef = s.pageRef
  entry : ∀ d v, s'.entry d v = s.entry d v

lemma Unmoved.trans {s'' : State} (h : Unmoved s s') (h' : Unmoved s' s'') : Unmoved s s'' where
  sound := h'.sound
  totalPages := h'.totalPages.trans h.totalPages
  dir := h'.dir.trans h.dir
  pageRef := h'.pageRef.trans h.pageRef
  entry d v := (h'.entry d v).trans (h.entry d v)

lemma Unmoved.tables (h : Unmoved s s') (ht : UserTables s) : UserTables s' where
  inUse d i hi := by
    rw [h.dir] at hi ⊢
    rw [State.InUse, h.pageRef]
    exact ht.inUse d i hi
  own := by
    rw [h.dir]
    exact ht.own
  notBoot := by
    rw [h.dir]
    exact ht.notBoot

lemma Unmoved.noFrame (h : Unmoved s s') : NoFrame s' ↔ NoFrame s := by
  simp only [NoFrame, State.Managed, h.totalPages, h.pageRef]

lemma unmoved_query (hs : Sound s) (d : Ptr) (v : UInt32) : Unmoved s (queried s d v) := by
  have hcalm := calm_query hs d v
  exact ⟨hcalm.sound hs, hcalm.totalPages, hcalm.dir, queried_pageRef s d v, hcalm.entry⟩

lemma unmoved_queries (hs : Sound s) (d : Ptr) (v : UInt32) (d' : Ptr) (v' : UInt32) :
    Unmoved s (queried (queried s d v) d' v') :=
  (unmoved_query hs d v).trans (unmoved_query (unmoved_query hs d v).sound d' v')

lemma unmoved_get (hs : Sound s) (hget : mmGetPhysicalPage s = (none, s')) : Unmoved s s' := by
  have hcalm := calm_get_none hs hget
  exact ⟨hcalm.sound hs, hcalm.totalPages, hcalm.dir,
    (mmGetPhysicalPage_none hs.search hs.front hget).2.1, hcalm.entry⟩

variable (p a flag) in
/-- Without a table and a frame for one, nothing is mapped. -/
lemma unmoved_full (hs : Sound s) (hnew : s.dir d (dirIndex v) = .zero) (hno : NoFrame s) :
    Unmoved s (arMapOnePage s d v p a flag) := by
  have hget : mmGetPhysicalPage s = (none, (mmGetPhysicalPage s).2) :=
    Prod.ext ((get_none_iff hs).mpr hno) rfl
  rw [arMapOnePage_of_full hnew hget]
  exact unmoved_get hs hget

variable (p a flag) in
/-- A page that has a table, or can get one, is mapped. -/
lemma mapped_of_room (hs : Sound s) (ht : UserTables s) (hv : UserPage v)
    (hroom : s.dir d (dirIndex v) ≠ .zero ∨ ¬NoFrame s)
    (hzero : ∀ z, zeroedFrame (s.entry d v) p flag = some z → Clearable s z) :
    Mapped s (arMapOnePage s d v p a flag) d v (mapEntry (s.entry d v) p a flag) := by
  by_cases hnew : s.dir d (dirIndex v) = .zero
  · have hno := hroom.resolve_left (not_not.mpr hnew)
    obtain ⟨t, hget⟩ := Option.ne_none_iff_exists'.mp (mt (get_none_iff hs).mp hno)
    rw [entry_of_no_table hnew] at hzero ⊢
    exact (mapped_new p a flag hs ht hnew (Prod.ext hget rfl) hzero).1
  · exact (mapped_table p a flag hs ht hv hnew hzero).1

/-! ## Pages that are left alone -/

/-- From `s` to `s'` tables are added, and the entries of pages with a table change only in `xs`. -/
structure Extends (s s' : State) (xs : Set (Ptr × UInt32)) : Prop where
  sound : Sound s'
  tables : UserTables s'
  dir : ∀ d i, s.dir d i ≠ .zero → s'.dir d i = s.dir d i
  others : ∀ d w, Aligned w → s.dir d (dirIndex w) ≠ .zero → (d, w) ∉ xs →
    s'.entry d w = s.entry d w

lemma Extends.trans {s'' : State} {xs ys : Set (Ptr × UInt32)} (h : Extends s s' xs)
    (h' : Extends s' s'' ys) : Extends s s'' (xs ∪ ys) where
  sound := h'.sound
  tables := h'.tables
  dir d i hi := by
    have hdir := h.dir d i hi
    rw [← hdir]
    exact h'.dir d i (by rwa [hdir])
  others d w hw htable hnot := by
    rw [Set.mem_union, not_or] at hnot
    rw [h'.others d w hw (by rwa [h.dir d _ htable]) hnot.2, h.others d w hw htable hnot.1]

lemma Extends.mono {xs ys : Set (Ptr × UInt32)} (h : Extends s s' xs) (hle : xs ⊆ ys) :
    Extends s s' ys :=
  ⟨h.sound, h.tables, h.dir, fun d w hw htable hnot =>
    h.others d w hw htable fun hmem => hnot (hle hmem)⟩

lemma Extends.table {xs : Set (Ptr × UInt32)} (h : Extends s s' xs) {w : UInt32}
    (htable : s.dir d (dirIndex w) ≠ .zero) : s'.dir d (dirIndex w) ≠ .zero := by
  rwa [h.dir d _ htable]

lemma Mapped.extends {e : PageTable} (h : Mapped s s' d v e) : Extends s s' {(d, v)} where
  sound := h.sound
  tables := h.tables
  dir := h.dir
  others d' w hw htable hnot := by
    refine h.others d' w hw htable fun hh => hnot ?_
    rw [hh.1, hh.2]
    exact Set.mem_singleton _

lemma Unmoved.extends (h : Unmoved s s') (ht : UserTables s) (xs : Set (Ptr × UInt32)) :
    Extends s s' xs :=
  ⟨h.sound, h.tables ht, fun d i _ => congrFun (congrFun h.dir d) i, fun d w _ _ _ => h.entry d w⟩

variable (p a flag) in
lemma arMapOnePage_extends (hs : Sound s) (ht : UserTables s) (hv : UserPage v)
    (hzero : ∀ z, zeroedFrame (s.entry d v) p flag = some z → Clearable s z) :
    Extends s (arMapOnePage s d v p a flag) {(d, v)} := by
  by_cases hroom : s.dir d (dirIndex v) ≠ .zero ∨ ¬NoFrame s
  · exact (mapped_of_room p a flag hs ht hv hroom hzero).extends
  · rw [not_or, not_not, not_not] at hroom
    exact (unmoved_full p a flag hs hroom.1 hroom.2).extends ht _

/-- A frame that was free is no table, and may be cleared once it is handed out. -/
lemma clearable_of_get (hs : Sound s) (ht : UserTables s) {f : Frame}
    (hget : mmGetPhysicalPage s = (some f, s')) : Clearable s' f := by
  obtain ⟨hmanaged, hfree, hsame, href, -⟩ := mmGetPhysicalPage_some hs.search hs.front hget
  refine ⟨fun he => absurd (he ▸ hmanaged.1) (by decide), ?_, ?_⟩
  · rintro ⟨d', i, hi, rfl⟩
    rw [hsame.dir] at hi hmanaged hfree
    rcases ht.inUse d' i hi with hlow | hused
    · exact absurd hmanaged.1 (not_le.mpr hlow)
    · exact hused hfree
  · rw [State.InUse, href, Function.update_self]
    exact .inr (by decide)

lemma get_tables (hs : Sound s) (ht : UserTables s) {f : Frame}
    (hget : mmGetPhysicalPage s = (some f, s')) : UserTables s' := by
  obtain ⟨-, -, hsame, href, -⟩ := mmGetPhysicalPage_some hs.search hs.front hget
  refine ⟨fun d i hi => ?_, ?_, ?_⟩
  · rw [hsame.dir] at hi ⊢
    rw [State.InUse, href]
    by_cases hf : (s.dir d i).physicalAddress = f
    · rw [hf, Function.update_self]
      exact .inr (by decide)
    · rw [Function.update_of_ne hf]
      exact ht.inUse d i hi
  · rw [hsame.dir]
    exact ht.own
  · rw [hsame.dir]
    exact ht.notBoot

/-- A page that is acquired changes no entry of another page that has a table. -/
lemma acquire_extends (hs : Sound s) (ht : UserTables s) (hv : UserPage v) (attr flag : UInt32) :
    Extends s (mmAcquirePhysicalPage s d v attr flag).2 {(d, v)} := by
  unfold mmAcquirePhysicalPage
  cases hget : (mmGetPhysicalPage s).1 with
  | none =>
    have hpair : mmGetPhysicalPage s = (none, (mmGetPhysicalPage s).2) := Prod.ext hget rfl
    rw [hpair]
    exact (unmoved_get hs hpair).extends ht _
  | some f =>
    have hpair : mmGetPhysicalPage s = (some f, (mmGetPhysicalPage s).2) := Prod.ext hget rfl
    have hcalm := calm_get hs hpair
    have hclear := clearable_of_get hs ht hpair
    have hextends := arMapOnePage_extends (d := d) (addrOf f) (attr ||| PAGE_ATTR_PRESENT)
      (MAP_ADDRESS ||| flag) (hcalm.sound hs) (get_tables hs ht hpair) hv
      fun z hz => zeroedFrame_address _ _ hz ▸ hclear
    rw [hpair]
    refine ⟨hextends.sound, hextends.tables, fun d' i hi => ?_, fun d' w hw htable hnot => ?_⟩
    · rw [← hcalm.dir] at hi ⊢
      exact hextends.dir d' i hi
    · rw [← hcalm.entry]
      exact hextends.others d' w hw (by rwa [hcalm.dir]) hnot

lemma boot_userTables (totalPages : ℕ) (junk : Frame → Index → PageTable) :
    UserTables (boot totalPages junk) where
  inUse d i hi := by
    rw [(boot_table hi).2]
    exact .inl (by decide)
  own d i d' j hlow hi _ _ := by
    rw [(boot_table hi).1] at hlow
    exact absurd hlow (by decide)
  notBoot d i hlow hi := by
    rw [(boot_table hi).1] at hlow
    exact absurd hlow (by decide)

/-! ## Translations -/

lemma translate_of_present (h : (s.entry d v).present = true) :
    s.translate d v = some (s.entry d v).physicalAddress := if_pos h

lemma translate_eq_none : s.translate d v = none ↔ (s.entry d v).present = false := by
  rw [State.translate]
  split_ifs with h <;> simp [h]

lemma translate_congr (h : s'.entry d v = s.entry d v) : s'.translate d v = s.translate d v := by
  rw [State.translate, State.translate, h]

lemma table_of_present (h : (s.entry d v).present = true) : s.dir d (dirIndex v) ≠ .zero :=
  fun hz => by
    rw [entry_of_no_table hz] at h
    cases h

end Mapping

end Sgos.Paging
