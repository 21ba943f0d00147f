import Sgos.PhysicalMemory
import Sgos.PointCount

/-!
# The law of frame counts

The counter of a frame is the number of present entries that map it, plus one if it holds a table.
Every mapping changes the balance of this law by the old and the new value of one entry; an
operation keeps the law if its changes of counters make up for that.
-/
namespace Sgos.Paging
open GuardedRun PointCount

def State.IsTable (s : State) (t : Frame) : Prop :=
  ∃ d i, s.dir d i ≠ .zero ∧ (s.dir d i).physicalAddress = t

/-- An entry that maps a frame. -/
def PageTable.Maps (e : PageTable) (f : Frame) : Prop := e.present = true ∧ e.physicalAddress = f

instance (e : PageTable) (f : Frame) : Decidable (e.Maps f) := inferInstanceAs (Decidable (_ ∧ _))

/-- A place in a table, other than the window, whose entry maps a frame. -/
def State.Maps (s : State) (f : Frame) (x : Frame × Index) : Prop :=
  s.IsTable x.1 ∧ ¬ IsWindow x.1 x.2 ∧ (s.seen x.1 x.2).Maps f

/-- What the counter of a frame is too high. -/
noncomputable def State.excess (s : State) (f : Frame) : ℤ :=
  (s.pageRef f).toNat - count (s.Maps f) - indicator (s.IsTable f)

/-- The part of the law that does not count. -/
structure Sound (s : State) : Prop where
  search : s.pageIt ≤ s.totalPages
  front : pageFront ≤ s.totalPages
  spill : s.spill = spillFrame
  spillFree : ¬ s.IsTable spillFrame

structure Lawful (s : State) : Prop where
  sound : Sound s
  balanced : ∀ f, s.Managed f → s.excess f = 0

/-- The entry of a page; a page without a table counts as not present. -/
def State.entry (s : State) (d : Ptr) (v : UInt32) : PageTable := (s.lookup d v).getD .zero

/-- The pages of the window and of the frame above it. -/
def Reserved (s : State) (d : Ptr) (v : UInt32) : Prop :=
  s.dir d (dirIndex v) ≠ .zero ∧ (s.dir d (dirIndex v)).physicalAddress = bootTable ∧
    (tableIndex v = windowIndex ∨ tableIndex v = spillIndex)

/-- The page is not reserved; a new table gets a frame without present entries below the addressed
one; and without a frame for the table nothing present would be mapped. -/
structure MapOk (s : State) (d : Ptr) (v p a flag : UInt32) : Prop where
  page : ¬ Reserved s d v
  clean : s.dir d (dirIndex v) = .zero → ∀ t, (mmGetPhysicalPage s).1 = some t →
    ∀ j < tableIndex v, (s.mem t j).present = false
  room : s.dir d (dirIndex v) = .zero → (mmGetPhysicalPage s).1 = none →
    (mapEntry .zero p a flag).present = false

lemma not_maps_zero (f : Frame) : ¬ PageTable.zero.Maps f := fun h => by cases h.1

section Books
variable {s s' : State}

lemma isTable_congr (h : s'.dir = s.dir) (t : Frame) : s'.IsTable t ↔ s.IsTable t := by
  rw [State.IsTable, State.IsTable, h]

/-- The balance depends on the counters and on the mappings only. -/
lemma excess_congr {f : Frame} (href : s'.pageRef f = s.pageRef f)
    (htable : ∀ t, s'.IsTable t ↔ s.IsTable t) (hmaps : ∀ x, s'.Maps f x ↔ s.Maps f x) :
    s'.excess f = s.excess f := by
  rw [State.excess, State.excess, href, count_congr hmaps, indicator_congr (htable f)]

/-- What a change of one entry does to the balance. -/
lemma excess_of_slot {f : Frame} (href : s'.pageRef f = s.pageRef f)
    (htable : s'.IsTable f ↔ s.IsTable f) (x : Frame × Index)
    (hmaps : ∀ y, y ≠ x → (s'.Maps f y ↔ s.Maps f y)) :
    s'.excess f = s.excess f + indicator (s.Maps f x) - indicator (s'.Maps f x) := by
  have hcount := count_of_agree_off x fun y hy => (hmaps y hy).symm
  rw [State.excess, State.excess, href, indicator_congr htable, hcount]
  omega

lemma mappings_eq_zero {f : Frame} (href : s.pageRef f = 0) (h : 0 ≤ s.excess f) :
    (∀ x, ¬ s.Maps f x) ∧ ¬ s.IsTable f := by
  have hcount := count_nonneg (s.Maps f)
  rw [State.excess, href] at h
  by_cases ht : s.IsTable f
  · rw [indicator_true ht] at h
    simp only [UInt8.toNat_zero, Nat.cast_zero] at h
    omega
  · rw [indicator_false ht] at h
    simp only [UInt8.toNat_zero, Nat.cast_zero] at h
    exact ⟨count_eq_zero (by omega), ht⟩

/-- A frame that an entry maps is not free. -/
lemma ref_ne_zero {f : Frame} {x : Frame × Index} (hx : s.Maps f x) (h : 0 ≤ s.excess f) :
    s.pageRef f ≠ 0 := fun href => (mappings_eq_zero href h).1 x hx

end Books

/-! ## The mapping of a page -/

/-- From `s` to `s'` the entry of one page has become `e`; tables and counters are in balance. -/
structure Effect (s s' : State) (d : Ptr) (v : UInt32) (e : PageTable) : Prop where
  sound : Sound s'
  totalPages : s'.totalPages = s.totalPages
  excess : ∀ f, s'.excess f =
    s.excess f + indicator ((s.entry d v).Maps f) - indicator (e.Maps f)
  entries : ∀ d' v' f, ((s'.entry d' v').Maps f ↔ e.Maps f) ∨
    ((s'.entry d' v').Maps f ↔ (s.entry d' v').Maps f)
  tables : ∀ d' i, s.dir d' i ≠ .zero → s'.dir d' i = s.dir d' i
  free : ∀ f, s'.pageRef f = 0 → s.pageRef f = 0

section Mapping
variable {s s' : State} {d : Ptr} {v p a flag : UInt32}

lemma entry_of_no_table (h : s.dir d (dirIndex v) = .zero) : s.entry d v = .zero := by
  rw [State.entry, State.lookup, if_pos h, Option.getD_none]

lemma entry_of_table (h : s.dir d (dirIndex v) ≠ .zero) :
    s.entry d v = s.seen (s.dir d (dirIndex v)).physicalAddress (tableIndex v) := by
  rw [State.entry, State.lookup, if_neg h, Option.getD_some]

lemma lookup_eq_entry (h : s.dir d (dirIndex v) ≠ .zero) :
    s.lookup d v = some (s.entry d v) := by
  rw [State.entry, State.lookup, if_neg h, Option.getD_some]

lemma spill_eq_seen (s : State) : s.spill = (s.seen bootTable spillIndex).physicalAddress := by
  rw [seen_of_not_window (by decide), State.spill]

variable (p a flag) in
lemma effect_table (hs : Sound s) (htable : s.dir d (dirIndex v) ≠ .zero)
    (hpage : ¬ Reserved s d v)
    (hzero : ∀ z, zeroedFrame (s.entry d v) p flag = some z → z ≠ bootTable ∧ ¬ s.IsTable z) :
    Effect s (arMapOnePage s d v p a flag) d v (mapEntry (s.entry d v) p a flag) ∧
      (arMapOnePage s d v p a flag).pageRef = s.pageRef := by
  have hbooks := arMapOnePage_books htable p a flag
  have hseen := arMapOnePage_seen_table (v := v) htable rfl p a flag
  rw [← entry_of_table htable] at hseen
  generalize hte : s.entry d v = te at *
  generalize ht : (s.dir d (dirIndex v)).physicalAddress = t at *
  have hist : s.IsTable t := ⟨d, _, htable, ht⟩
  have hkeep : ∀ y : Frame × Index, s.IsTable y.1 → y ≠ (t, tableIndex v) →
      (arMapOnePage s d v p a flag).seen y.1 y.2 = s.seen y.1 y.2 := by
    intro y hy hne
    rw [hseen]
    split_ifs with hw hz hslot
    · rw [State.seen, if_pos hw]
    · exact absurd hy (hzero _ hz).2
    · exact absurd (Prod.ext hslot.1 hslot.2) hne
    · rfl
  have hwin : ¬ IsWindow t (tableIndex v) := fun hw => hpage ⟨htable, ht.trans hw.1, .inl hw.2⟩
  have hslot : (arMapOnePage s d v p a flag).seen t (tableIndex v) = mapEntry te p a flag := by
    rw [hseen, if_neg hwin, if_neg fun hz => (hzero _ hz).2 hist, if_pos ⟨rfl, rfl⟩]
  have htables := isTable_congr hbooks.dir
  refine ⟨⟨⟨?_, ?_, ?_, ?_⟩, hbooks.totalPages, fun f => ?_, fun d' v' f => ?_,
    fun d' i _ => congrFun (congrFun hbooks.dir d') i, fun f hf => hbooks.pageRef ▸ hf⟩,
    hbooks.pageRef⟩
  · rw [hbooks.pageIt, hbooks.totalPages]; exact hs.search
  · rw [hbooks.totalPages]; exact hs.front
  · have hspill : ¬ (bootTable = t ∧ spillIndex = tableIndex v) := fun hh =>
      hpage ⟨htable, ht.trans hh.1.symm, .inr hh.2.symm⟩
    rw [← hs.spill, spill_eq_seen, spill_eq_seen, hseen, if_neg (by decide),
      if_neg fun hz => (hzero _ hz).1 rfl, if_neg hspill]
  · rw [htables]; exact hs.spillFree
  · have hexcess := excess_of_slot (f := f) (congrFun hbooks.pageRef f) (htables f)
      (t, tableIndex v) fun y hy => by
        rw [State.Maps, State.Maps, htables]
        refine and_congr_right fun hyt => ?_
        rw [hkeep y hyt hy]
    have hold : s.Maps f (t, tableIndex v) ↔ te.Maps f := by
      rw [State.Maps, ← ht, ← entry_of_table htable, hte, ht]
      exact ⟨fun hh => hh.2.2, fun hh => ⟨hist, hwin, hh⟩⟩
    have hnew : (arMapOnePage s d v p a flag).Maps f (t, tableIndex v) ↔
        (mapEntry te p a flag).Maps f := by
      rw [State.Maps, hslot, htables]
      exact ⟨fun hh => hh.2.2, fun hh => ⟨hist, hwin, hh⟩⟩
    rw [hexcess, indicator_congr hold, indicator_congr hnew, hte]
  · by_cases hd' : s.dir d' (dirIndex v') = .zero
    · refine .inr ?_
      rw [entry_of_no_table (by rwa [hbooks.dir]), entry_of_no_table hd']
    · rw [entry_of_table (by rwa [hbooks.dir]), entry_of_table hd', hbooks.dir]
      by_cases hx : ((s.dir d' (dirIndex v')).physicalAddress, tableIndex v') = (t, tableIndex v)
      · obtain ⟨hx1, hx2⟩ := Prod.mk.inj hx
        exact .inl (by rw [hx1, hx2, hslot])
      · exact .inr (by rw [hkeep _ ⟨d', _, hd', rfl⟩ hx])

/-- Without a table and without a frame for one, the page stays without an entry. -/
lemma effect_full (hs : Sound s) (hnew : s.dir d (dirIndex v) = .zero)
    (hget : mmGetPhysicalPage s = (none, s')) {e : PageTable} (he : e.present = false) :
    Effect s s' d v e := by
  obtain ⟨hsame, href, hit⟩ := mmGetPhysicalPage_none hs.search hs.front hget
  have hmem : s'.seen = s.seen := by
    funext f j
    rw [State.seen, State.seen, hsame.mem]
  have htables := isTable_congr hsame.dir
  have hentry : ∀ d' v', s'.entry d' v' = s.entry d' v' := fun d' v' => by
    rw [State.entry, State.lookup, hsame.dir, hmem, State.entry, State.lookup]
  refine ⟨⟨hit, ?_, ?_, ?_⟩, hsame.totalPages, fun f => ?_, fun d' v' f => .inr ?_,
    fun d' i _ => congrFun (congrFun hsame.dir d') i, fun f hf => href ▸ hf⟩
  · rw [hsame.totalPages]; exact hs.front
  · rw [spill_eq_seen, hmem, ← spill_eq_seen]; exact hs.spill
  · rw [htables]; exact hs.spillFree
  · have hexcess : s'.excess f = s.excess f := excess_congr (congrFun href f) htables fun x => by
      rw [State.Maps, State.Maps, htables, hmem]
    have hnone : ¬ e.Maps f := fun hm => absurd hm.1 (by rw [he]; decide)
    rw [hexcess, entry_of_no_table hnew, indicator_false (not_maps_zero f), indicator_false hnone]
    omega
  · rw [hentry]

lemma setDir_dir (s : State) (d d' : Ptr) (i j : Index) (e : PageTable) :
    (s.setDir d i e).dir d' j = if d' = d ∧ j = i then e else s.dir d' j := by
  by_cases hd : d' = d
  · subst hd
    by_cases hj : j = i <;> simp [State.setDir, hj]
  · simp [State.setDir, hd]

lemma isTable_setDir {i : Index} {e : PageTable} (h : s.dir d i = .zero) (he : e ≠ .zero)
    (g : Frame) : (s.setDir d i e).IsTable g ↔ s.IsTable g ∨ g = e.physicalAddress := by
  constructor
  · rintro ⟨d', j, hj, rfl⟩
    rw [setDir_dir] at hj ⊢
    split_ifs at hj ⊢ with hx
    · exact .inr rfl
    · exact .inl ⟨d', j, hj, rfl⟩
  · rintro (⟨d', j, hj, rfl⟩ | rfl)
    · have hx : ¬ (d' = d ∧ j = i) := by
        rintro ⟨rfl, rfl⟩
        exact hj h
      exact ⟨d', j, by rwa [setDir_dir, if_neg hx], by rw [setDir_dir, if_neg hx]⟩
    · exact ⟨d, i, by rwa [setDir_dir, if_pos ⟨rfl, rfl⟩], by rw [setDir_dir, if_pos ⟨rfl, rfl⟩]⟩

/-- The frame `t` has become the table of an address and holds the entry `e` there, beside entries
that map nothing. -/
structure Opened (s s' : State) (d : Ptr) (v : UInt32) (t : Frame) (e : PageTable) : Prop where
  dir : s'.dir = (s.setDir d (dirIndex v) (tableEntry t)).dir
  pageRef : s'.pageRef = Function.update s.pageRef t 1
  totalPages : s'.totalPages = s.totalPages
  pageIt : s'.pageIt = t.val + 1
  slot : s'.seen t (tableIndex v) = e
  clear : ∀ j f, j ≠ tableIndex v → ¬ (s'.seen t j).Maps f
  keep : ∀ x i, s.IsTable x → s'.seen x i = s.seen x i
  spill : s'.spill = s.spill

lemma opened_of_new (hs : Sound s) (hnew : s.dir d (dirIndex v) = .zero) {t : Frame}
    (hget : mmGetPhysicalPage s = (some t, s')) (hnot : ¬ s.IsTable t)
    (hclean : ∀ j < tableIndex v, (s.mem t j).present = false)
    (hzero : ∀ z, zeroedFrame .zero p flag = some z →
      z ≠ bootTable ∧ ¬ s.IsTable z ∧ s.pageRef z ≠ 0) :
    Opened s (arMapOnePage s d v p a flag) d v t (mapEntry .zero p a flag) := by
  obtain ⟨hmanaged, hfree, hsame, href, hit⟩ := mmGetPhysicalPage_some hs.search hs.front hget
  have hboot : t ≠ bootTable := fun he => absurd (he ▸ hmanaged.1) (by decide)
  have hspill : t ≠ spillFrame := fun he => absurd (he ▸ hmanaged.1) (by decide)
  have hwin : ∀ j, ¬ IsWindow t j := fun j hw => hboot hw.1
  have hz : zeroedFrame .zero p flag ≠ some t := fun hz => (hzero _ hz).2.2 hfree
  have hbooks := arMapOnePage_books_new hnew hget p a flag
  have hseen := arMapOnePage_seen_new (v := v) hnew hget hsame hboot p a flag
  rw [hs.spill] at hseen
  refine ⟨?_, hbooks.pageRef.trans href, hbooks.totalPages.trans hsame.totalPages,
    hbooks.pageIt.trans hit, ?_, fun j f hj hm => ?_, fun x i hx => ?_, ?_⟩
  · rw [hbooks.dir, State.setDir, State.setDir, hsame.dir]
  · rw [hseen, if_neg (hwin _), if_neg hz, if_pos ⟨rfl, rfl⟩]
  · rw [hseen, if_neg (hwin _), if_neg hz, if_neg fun hh => hj hh.2] at hm
    split_ifs at hm with hle hsp
    · exact not_maps_zero f hm
    · exact hspill hsp.1
    · have hlt : j < tableIndex v := Fin.not_le.mp fun hh => hle ⟨rfl, hh⟩
      rw [seen_of_not_window (hwin _), PageTable.Maps, hclean j hlt] at hm
      cases hm.1
  · have hne : x ≠ t := fun he => hnot (he ▸ hx)
    have hnsp : x ≠ spillFrame := fun he => hs.spillFree (he ▸ hx)
    by_cases hw : IsWindow x i
    · rw [State.seen, State.seen, if_pos hw, if_pos hw]
    · rw [hseen, if_neg hw, if_neg fun hz => (hzero _ hz).2.1 hx, if_neg fun hh => hne hh.1,
        if_neg fun hh => hne hh.1, if_neg fun hh => hnsp hh.1]
  · rw [spill_eq_seen, spill_eq_seen, hseen, if_neg (by decide), if_neg fun hz => (hzero _ hz).1 rfl,
      if_neg fun hh => hboot hh.1.symm, if_neg fun hh => hboot hh.1.symm,
      if_neg fun hh => absurd hh.1 (by decide)]

/-- A new table takes a free frame and gives it one entry. -/
lemma effect_new (hs : Sound s) (hnew : s.dir d (dirIndex v) = .zero) {t : Frame}
    (hget : mmGetPhysicalPage s = (some t, s')) (hbal : 0 ≤ s.excess t)
    (hclean : ∀ j < tableIndex v, (s.mem t j).present = false)
    (hzero : ∀ z, zeroedFrame .zero p flag = some z →
      z ≠ bootTable ∧ ¬ s.IsTable z ∧ s.pageRef z ≠ 0) :
    Effect s (arMapOnePage s d v p a flag) d v (mapEntry .zero p a flag) := by
  obtain ⟨hmanaged, hfree, -, -, -⟩ := mmGetPhysicalPage_some hs.search hs.front hget
  obtain ⟨hunmapped, hnot⟩ := mappings_eq_zero hfree hbal
  have hopen := opened_of_new (a := a) hs hnew hget hnot hclean hzero
  generalize arMapOnePage s d v p a flag = s2 at hopen ⊢
  generalize mapEntry .zero p a flag = e at hopen ⊢
  have hboot : t ≠ bootTable := fun he => absurd (he ▸ hmanaged.1) (by decide)
  have htables : ∀ g, s2.IsTable g ↔ s.IsTable g ∨ g = t := fun g => by
    rw [isTable_congr hopen.dir, isTable_setDir hnew (tableEntry_ne_zero t), tableEntry_frame]
  have hmaps : ∀ f y, y ≠ (t, tableIndex v) → (s2.Maps f y ↔ s.Maps f y) := by
    rintro f ⟨x, i⟩ hy
    by_cases hx : x = t
    · subst hx
      have hi : i ≠ tableIndex v := fun hi => hy (by rw [hi])
      exact ⟨fun hm => absurd hm.2.2 (hopen.clear i f hi), fun hm => absurd hm.1 hnot⟩
    · rw [State.Maps, State.Maps, htables, or_iff_left hx]
      refine and_congr_right fun hist => ?_
      rw [hopen.keep x i hist]
  refine ⟨⟨?_, ?_, ?_, ?_⟩, hopen.totalPages, fun f => ?_, fun d' v' f => ?_,
    fun d' i hi => ?_, fun f hf => ?_⟩
  · rw [hopen.pageIt, hopen.totalPages]
    exact hmanaged.2
  · rw [hopen.totalPages]; exact hs.front
  · rw [hopen.spill]; exact hs.spill
  · rw [htables]
    exact fun hh => hh.elim hs.spillFree fun he => absurd (he ▸ hmanaged.1) (by decide)
  · have hcount := count_of_agree_off (t, tableIndex v) fun y hy => (hmaps f y hy).symm
    have hold : ¬ s.Maps f (t, tableIndex v) := fun hm => hnot hm.1
    have hslot : s2.Maps f (t, tableIndex v) ↔ e.Maps f := by
      rw [State.Maps, hopen.slot, htables]
      exact ⟨fun hh => hh.2.2, fun hh => ⟨.inr rfl, fun hw => hboot hw.1, hh⟩⟩
    rw [State.excess, State.excess, hcount, indicator_congr hslot, indicator_false hold,
      entry_of_no_table hnew, indicator_false (not_maps_zero f), hopen.pageRef,
      indicator_congr (htables f)]
    by_cases hf : f = t
    · subst hf
      have hist : s.IsTable f ∨ f = f := .inr rfl
      rw [Function.update_self, hfree, indicator_true hist, indicator_false hnot]
      simp only [UInt8.toNat_one, UInt8.toNat_zero]
      omega
    · rw [Function.update_of_ne hf, indicator_congr (or_iff_left hf)]
      omega
  · have hdir := setDir_dir s d d' (dirIndex v) (dirIndex v') (tableEntry t)
    rw [← hopen.dir] at hdir
    by_cases hx : d' = d ∧ dirIndex v' = dirIndex v
    · rw [if_pos hx] at hdir
      have hold : s.entry d' v' = .zero := entry_of_no_table (by rw [hx.1, hx.2]; exact hnew)
      have htable : s2.dir d' (dirIndex v') ≠ .zero := by
        rw [hdir]
        exact tableEntry_ne_zero t
      rw [entry_of_table htable, hdir, tableEntry_frame, hold]
      by_cases hi : tableIndex v' = tableIndex v
      · exact .inl (by rw [hi, hopen.slot])
      · exact .inr ⟨fun hm => absurd hm (hopen.clear _ f hi), fun hm => absurd hm (not_maps_zero f)⟩
    · rw [if_neg hx] at hdir
      refine .inr ?_
      by_cases hz : s.dir d' (dirIndex v') = .zero
      · rw [entry_of_no_table (hdir.trans hz), entry_of_no_table hz]
      · rw [entry_of_table (by rwa [hdir]), entry_of_table hz, hdir,
          hopen.keep _ _ ⟨d', _, hz, rfl⟩]
  · have hx : ¬ (d' = d ∧ i = dirIndex v) := by
      rintro ⟨rfl, rfl⟩
      exact hi hnew
    rw [hopen.dir, setDir_dir, if_neg hx]
  · by_cases hft : f = t
    · rw [hft]; exact hfree
    · rwa [hopen.pageRef, Function.update_of_ne hft] at hf

/-- The mapping of a page exchanges the entry of that page. -/
theorem arMapOnePage_effect (hs : Sound s) (hok : MapOk s d v p a flag)
    (hbal : ∀ t, s.Managed t → s.pageRef t = 0 → 0 ≤ s.excess t)
    (hzero : ∀ z, zeroedFrame (s.entry d v) p flag = some z →
      z ≠ bootTable ∧ ¬ s.IsTable z ∧ s.pageRef z ≠ 0) :
    Effect s (arMapOnePage s d v p a flag) d v (mapEntry (s.entry d v) p a flag) := by
  by_cases hnew : s.dir d (dirIndex v) = .zero
  · rw [entry_of_no_table hnew] at hzero ⊢
    cases hget : (mmGetPhysicalPage s).1 with
    | none =>
      have hpair : mmGetPhysicalPage s = (none, (mmGetPhysicalPage s).2) := Prod.ext hget rfl
      rw [arMapOnePage_of_full hnew hpair]
      exact effect_full hs hnew hpair (hok.room hnew hget)
    | some t =>
      have hpair : mmGetPhysicalPage s = (some t, (mmGetPhysicalPage s).2) := Prod.ext hget rfl
      obtain ⟨hmanaged, hfree, -, -, -⟩ := mmGetPhysicalPage_some hs.search hs.front hpair
      exact effect_new hs hnew hpair (hbal t hmanaged hfree) (hok.clean hnew t hget) hzero
  · exact (effect_table p a flag hs hnew hok.page fun z hz => ⟨(hzero z hz).1, (hzero z hz).2.1⟩).1

end Mapping

end Sgos.Paging
