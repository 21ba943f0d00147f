import Sgos.DemandPaging

/-!
# Faults that keep out of each other's way

The law of `DemandPaging` is kept by every step that meets its condition. The frames taken for
pages and for tables stay apart from each other and from all tables, so that a fault changes no
entry but that of its own page.
-/
namespace Sgos.DemandPaging
open GuardedRun Paging
open VirtualMemory (KVirtualMemoryAllocation)

/-! ## The invariant -/

/-- What a fault waiting to map `f` may rely on. -/
structure Waiting (space : Space) (s : State) (page : UInt32) (f : Frame) : Prop where
  given : (page, f) ∈ s.given
  absent : (s.paging.entry space.dir page).present = false
  page : ¬Reserved s.paging space.dir page

/-- What holds of a thread in each part of its fault. -/
def Fits (space : Space) (s : State) : Phase → Prop
  | .idle => True
  | .entered addr => ¬Reserved s.paging space.dir (pageOf addr)
  | .decided page _ => ¬Reserved s.paging space.dir page ∧ pageOf page = page
  | .acquired page _ f | .noTable page _ f => Waiting space s page f
  | .gotTable page _ f g => Waiting space s page f ∧ s.paging.Managed g ∧ s.paging.pageRef g ≠ 0 ∧
      ¬s.paging.IsTable g ∧ ∀ p, (p, g) ∉ s.given
  | .atTable newpage page _ f => Waiting space s page f ∧
      s.paging.dir space.dir (dirIndex page) ≠ .zero ∧ (newpage = true →
        (s.paging.dir space.dir (dirIndex page)).physicalAddress ≠ bootTable)

structure Inv (space : Space) (s : State) : Prop where
  sound : Sound s.paging
  spill : (s.paging.mem bootTable spillIndex).present = true
  inUse : ∀ t, s.paging.IsTable t → s.paging.Managed t → s.paging.pageRef t ≠ 0
  apart : ∀ i j, s.paging.dir space.dir i ≠ .zero → s.paging.dir space.dir j ≠ .zero →
    (s.paging.dir space.dir i).physicalAddress = (s.paging.dir space.dir j).physicalAddress → i = j
  frames : ∀ page f, (page, f) ∈ s.given →
    s.paging.Managed f ∧ s.paging.pageRef f ≠ 0 ∧ ¬s.paging.IsTable f ∧ pageOf page = page
  onePage : ∀ p q f, (p, f) ∈ s.given → (q, f) ∈ s.given → p = q
  fits : ∀ t, Fits space s (s.phase t)
  alone : ∀ t u page f, (s.phase t).Holds page f → (s.phase u).Holds page f → t = u
  aloneTable : ∀ t u i j g, (s.phase t).HoldsTable i g → (s.phase u).HoldsTable j g → t = u
  stored : ∀ page j value, s.stored page j = some value → ∃ f, (page, f) ∈ s.given
  good : Good space s

section Inv
variable {space : Space} {s s' : State} {t u : Ptr} {page : UInt32} {f g : Frame}

lemma Fits.waiting {p : Phase} (h : Fits space s p) (hp : p.Holds page f) :
    Waiting space s page f := by
  cases p with
  | idle => exact hp.elim
  | entered addr => exact hp.elim
  | decided q area => exact hp.elim
  | acquired q area g =>
    obtain ⟨rfl, rfl⟩ := hp
    exact h
  | noTable q area g =>
    obtain ⟨rfl, rfl⟩ := hp
    exact h
  | gotTable q area g g' =>
    obtain ⟨rfl, rfl⟩ := hp
    exact h.1
  | atTable newpage q area g =>
    obtain ⟨rfl, rfl⟩ := hp
    exact h.1

/-- Only a fault with a frame for a table holds one. -/
lemma Fits.table {p : Phase} {i : Index} (h : Fits space s p) (hp : p.HoldsTable i g) :
    s.paging.Managed g ∧ s.paging.pageRef g ≠ 0 ∧ ¬s.paging.IsTable g ∧ ∀ q, (q, g) ∉ s.given := by
  cases p with
  | gotTable q area f g' =>
    obtain ⟨-, rfl⟩ := hp
    exact h.2
  | _ => exact hp.elim

/-- Frames stay taken and tables stay in place. -/
structure Evolves (space : Space) (s s' : State) : Prop where
  given : ∀ x ∈ s.given, x ∈ s'.given
  managed : ∀ f, s.paging.Managed f → s'.paging.Managed f
  ref : ∀ f, s.paging.pageRef f ≠ 0 → s'.paging.pageRef f ≠ 0
  dir : ∀ i, s.paging.dir space.dir i ≠ .zero →
    s'.paging.dir space.dir i = s.paging.dir space.dir i
  reserved : ∀ v, Reserved s'.paging space.dir v → Reserved s.paging space.dir v

lemma Fits.evolves {p : Phase} (h : Fits space s p) (he : Evolves space s s')
    (habsent : ∀ page f, p.Holds page f → (s'.paging.entry space.dir page).present = false)
    (htable : ∀ i g, p.HoldsTable i g → ¬s'.paging.IsTable g ∧ ∀ q, (q, g) ∉ s'.given) :
    Fits space s' p := by
  have hwait : ∀ {page f}, p.Holds page f → Waiting space s page f → Waiting space s' page f :=
    fun hp hw => ⟨he.given _ hw.given, habsent _ _ hp, fun hr => hw.page (he.reserved _ hr)⟩
  cases p with
  | idle => trivial
  | entered addr => exact fun hr => h (he.reserved _ hr)
  | decided q area => exact ⟨fun hr => h.1 (he.reserved _ hr), h.2⟩
  | acquired q area f => exact hwait ⟨rfl, rfl⟩ h
  | noTable q area f => exact hwait ⟨rfl, rfl⟩ h
  | gotTable q area f g =>
    obtain ⟨hw, hm, hr, -, -⟩ := h
    exact ⟨hwait ⟨rfl, rfl⟩ hw, he.managed g hm, he.ref g hr, htable _ g ⟨rfl, rfl⟩⟩
  | atTable newpage q area f =>
    refine ⟨hwait ⟨rfl, rfl⟩ h.1, ?_⟩
    rw [he.dir _ h.2.1]
    exact h.2

/-- A fault goes on without touching tables or frames. -/
lemma Inv.setPhase (h : Inv space s) {p : Phase} (hfits : Fits space s p)
    (hholds : ∀ page f, p.Holds page f ↔ (s.phase t).Holds page f)
    (htable : ∀ i g, p.HoldsTable i g ↔ (s.phase t).HoldsTable i g) :
    Inv space (setPhase s t p) := by
  have hset : ∀ u, (DemandPaging.setPhase s t p).phase u =
      if u = t then p else s.phase u := fun u =>
    Function.update_apply s.phase t p u
  have hholds' : ∀ u page f, ((DemandPaging.setPhase s t p).phase u).Holds page f ↔
      (s.phase u).Holds page f := by
    intro u page f
    rw [hset]
    split_ifs with hu
    · rw [hu, hholds]
    · exact Iff.rfl
  have htable' : ∀ u i g, ((DemandPaging.setPhase s t p).phase u).HoldsTable i g ↔
      (s.phase u).HoldsTable i g := by
    intro u i g
    rw [hset]
    split_ifs with hu
    · rw [hu, htable]
    · exact Iff.rfl
  refine ⟨h.sound, h.spill, h.inUse, h.apart, h.frames, h.onePage, fun u => ?_,
    fun u v page f hu hv => ?_, fun u v i j g hu hv => ?_, h.stored,
    ⟨h.good.once, h.good.exact, fun page f hmem => ?_, fun i g hmem => ?_, h.good.kept⟩⟩
  · have hfit : Fits space s ((DemandPaging.setPhase s t p).phase u) := by
      rw [hset]
      split_ifs
      · exact hfits
      · exact h.fits u
    exact hfit.evolves ⟨fun _ => id, fun _ => id, fun _ => id, fun _ _ => rfl, fun _ => id⟩
      (fun _ _ hp => (hfit.waiting hp).absent) fun _ _ hp => (hfit.table hp).2.2
  · exact h.alone u v page f ((hholds' u page f).mp hu) ((hholds' v page f).mp hv)
  · exact h.aloneTable u v i j g ((htable' u i g).mp hu) ((htable' v j g).mp hv)
  · exact (h.good.mapped page f hmem).imp_left fun ⟨u, hu⟩ => ⟨u, (hholds' u page f).mpr hu⟩
  · exact (h.good.tables i g hmem).imp_left fun ⟨u, hu⟩ => ⟨u, (htable' u i g).mpr hu⟩

/-! ## Taking a frame -/

/-- From `P` to `P'` the free frame `f` has been taken. -/
structure Took (P P' : Paging.State) (f : Frame) : Prop where
  same : SameTables P P'
  frame : P.Managed f
  free : P.pageRef f = 0
  pageRef : P'.pageRef = Function.update P.pageRef f 1
  sound : Sound P'

section Took
variable {P P' : Paging.State}

lemma took_of_some (hs : Sound P) (hget : mmGetPhysicalPage P = (some f, P')) : Took P P' f := by
  obtain ⟨hmanaged, hfree, hsame, href, hit⟩ := mmGetPhysicalPage_some hs.search hs.front hget
  refine ⟨hsame, hmanaged, hfree, href, ⟨?_, ?_, ?_, ?_⟩⟩
  · rw [hit, hsame.totalPages]
    exact hmanaged.2
  · rw [hsame.totalPages]
    exact hs.front
  · rw [State.spill, hsame.mem]
    exact hs.spill
  · rw [isTable_congr hsame.dir]
    exact hs.spillFree

lemma Took.entry (h : Took P P' f) (d : Ptr) (v : UInt32) : P'.entry d v = P.entry d v := by
  have hseen : P'.seen = P.seen := by
    funext x j
    rw [State.seen, State.seen, h.same.mem]
  rw [State.entry, State.entry, State.lookup, State.lookup, h.same.dir, hseen]

lemma Took.ref_ne (h : Took P P' f) (x : Frame) (hx : P.pageRef x ≠ 0) : P'.pageRef x ≠ 0 := by
  rw [h.pageRef, Function.update_apply]
  split_ifs
  · decide
  · exact hx

lemma Took.ref_self (h : Took P P' f) : P'.pageRef f ≠ 0 := by
  rw [h.pageRef, Function.update_self]
  decide

lemma Took.managed (h : Took P P' f) (x : Frame) : P'.Managed x ↔ P.Managed x := by
  rw [State.Managed, State.Managed, h.same.totalPages]

lemma Took.reserved (h : Took P P' f) (d : Ptr) (v : UInt32) :
    Reserved P' d v ↔ Reserved P d v := by
  rw [Reserved, Reserved, h.same.dir]

end Took

/-- A free frame is nowhere in use. -/
lemma Inv.unused (h : Inv space s) (hf : s.paging.Managed f) (hfree : s.paging.pageRef f = 0) :
    ¬s.paging.IsTable f ∧ (∀ p, (p, f) ∉ s.given) ∧ ∀ u i, ¬(s.phase u).HoldsTable i f :=
  ⟨fun ht => h.inUse f ht hf hfree, fun p hp => (h.frames p f hp).2.1 hfree,
    fun u _ hu => ((h.fits u).table hu).2.1 hfree⟩

lemma evolves_of_took (h : Took s.paging s'.paging f) (hgiven : ∀ x ∈ s.given, x ∈ s'.given) :
    Evolves space s s' :=
  ⟨hgiven, fun x => (h.managed x).mpr, h.ref_ne, fun i _ => by rw [h.same.dir],
    fun v => (h.reserved space.dir v).mp⟩

/-- A fault takes a frame for a page that is absent and that no other fault is about to map. -/
lemma Inv.acquire (h : Inv space s) {area : KVirtualMemoryAllocation} {paging : Paging.State}
    (hphase : s.phase t = .decided page area) (hget : mmGetPhysicalPage s.paging = (some f, paging))
    (habsent : (s.paging.entry space.dir page).present = false)
    (hother : ∀ u f, ¬(s.phase u).Holds page f) :
    Inv space (DemandPaging.setPhase { s with paging, given := (page, f) :: s.given } t
      (.acquired page area f)) := by
  have htook := took_of_some h.sound hget
  obtain ⟨hnotTable, hnotGiven, hnotHeld⟩ := h.unused htook.frame htook.free
  generalize hs' : DemandPaging.setPhase { s with paging, given := (page, f) :: s.given } t
    (.acquired page area f) = s'
  have hpaging : s'.paging = paging := by rw [← hs']; rfl
  have hgiven : s'.given = (page, f) :: s.given := by rw [← hs']; rfl
  have hset : ∀ u, s'.phase u = if u = t then .acquired page area f else s.phase u := fun u => by
    rw [← hs']
    exact Function.update_apply s.phase t _ u
  have hmem : ∀ {p x}, (p, x) ∈ s'.given → p = page ∧ x = f ∨ (p, x) ∈ s.given := by
    intro p x hx
    rw [hgiven] at hx
    exact (List.mem_cons.mp hx).imp Prod.mk.inj id
  have hnew : ∀ x, (page, x) ∉ s.given := by
    intro x hx
    rcases h.good.mapped page x hx with ⟨u, hu⟩ | hmaps
    · exact hother u x hu
    · exact absurd (hmaps.1.symm.trans habsent) (by decide)
  rw [← hpaging] at htook
  have hevolves : Evolves space s s' := evolves_of_took htook fun x hx => by
    rw [hgiven]
    exact List.mem_cons_of_mem _ hx
  have hentry := htook.entry space.dir
  have htable := isTable_congr htook.same.dir
  have hholds : ∀ u p x, (s'.phase u).Holds p x → u = t ∧ page = p ∧ f = x ∨
      u ≠ t ∧ (s.phase u).Holds p x := by
    intro u p x hu
    rw [hset] at hu
    split_ifs at hu with hut
    · exact .inl ⟨hut, hu⟩
    · exact .inr ⟨hut, hu⟩
  have hholdsTable : ∀ u i x, (s'.phase u).HoldsTable i x ↔ (s.phase u).HoldsTable i x := by
    intro u i x
    rw [hset]
    split_ifs with hut
    · rw [hut, hphase]
      rfl
    · exact Iff.rfl
  have hfits := hphase ▸ h.fits t
  refine ⟨htook.sound, ?_, fun x hx hm => ?_, ?_, fun p x hx => ?_, fun p q x hp hq => ?_,
    fun u => ?_, fun u v p x hu hv => ?_, fun u v i j x hu hv => ?_, fun p j value hp => ?_,
    ⟨?_, fun addr area ha hl hpres => ?_, fun p x hx => ?_, fun i x hx => ?_,
      fun p j value hp => ?_⟩⟩
  · rw [htook.same.mem]
    exact h.spill
  · exact htook.ref_ne x (h.inUse x ((htable x).mp hx) ((htook.managed x).mp hm))
  · rw [htook.same.dir]
    exact h.apart
  · rcases hmem hx with ⟨rfl, rfl⟩ | hx
    · exact ⟨(htook.managed x).mpr htook.frame, htook.ref_self,
        fun ht => hnotTable ((htable x).mp ht), hfits.2⟩
    · obtain ⟨hm, hr, ht, ha⟩ := h.frames p x hx
      exact ⟨(htook.managed x).mpr hm, htook.ref_ne x hr, fun hh => ht ((htable x).mp hh), ha⟩
  · rcases hmem hp with ⟨rfl, rfl⟩ | hp <;> rcases hmem hq with ⟨rfl, hx⟩ | hq
    · rfl
    · exact absurd hq (hnotGiven q)
    · exact absurd (hx ▸ hp) (hnotGiven p)
    · exact h.onePage p q x hp hq
  · rw [hset]
    split_ifs with hut
    · refine ⟨by rw [hgiven]; exact List.mem_cons_self, by rw [hentry]; exact habsent, ?_⟩
      exact fun hr => hfits.1 ((htook.reserved space.dir page).mp hr)
    · refine (h.fits u).evolves hevolves (fun p x hp => ?_) fun i x hp => ?_
      · rw [hentry]
        exact ((h.fits u).waiting hp).absent
      · obtain ⟨-, -, ht, hg⟩ := (h.fits u).table hp
        refine ⟨fun hh => ht ((htable x).mp hh), fun q hq => ?_⟩
        rcases hmem hq with ⟨-, rfl⟩ | hq
        · exact hnotHeld u i hp
        · exact hg q hq
  · rcases hholds u p x hu with ⟨rfl, rfl, rfl⟩ | ⟨-, hu⟩ <;>
      rcases hholds v _ _ hv with ⟨rfl, hp, hx⟩ | ⟨-, hv⟩
    · rfl
    · exact absurd hv (hother v _)
    · subst hp
      exact absurd hu (hother u _)
    · exact h.alone u v p x hu hv
  · exact h.aloneTable u v i j x ((hholdsTable u i x).mp hu) ((hholdsTable v j x).mp hv)
  · have hp : s.stored p j = some value := by rw [← hs'] at hp; exact hp
    obtain ⟨x, hx⟩ := h.stored p j value hp
    exact ⟨x, hevolves.given _ hx⟩
  · rw [hgiven, List.map_cons, List.nodup_cons]
    refine ⟨fun hin => ?_, h.good.once⟩
    obtain ⟨⟨p, x⟩, hx, rfl⟩ := List.mem_map.mp hin
    exact hnew x hx
  · rw [hentry] at hpres ⊢
    obtain ⟨x, hx, hmaps⟩ := h.good.exact addr area ha hl hpres
    exact ⟨x, hevolves.given _ hx, hmaps⟩
  · rcases hmem hx with ⟨rfl, rfl⟩ | hx
    · exact .inl ⟨t, by rw [hset, if_pos rfl]; exact ⟨rfl, rfl⟩⟩
    · rw [hentry]
      refine (h.good.mapped p x hx).imp_left fun ⟨u, hu⟩ => ⟨u, ?_⟩
      have hut : u ≠ t := by
        rintro rfl
        rw [hphase] at hu
        exact hu
      rw [hset, if_neg hut]
      exact hu
  · have hx : (i, x) ∈ s.tables := by rw [← hs'] at hx; exact hx
    rw [htook.same.dir]
    exact (h.good.tables i x hx).imp_left fun ⟨u, hu⟩ => ⟨u, (hholdsTable u i x).mpr hu⟩
  · have hp : s.stored p j = some value := by rw [← hs'] at hp; exact hp
    rw [hentry, htook.same.mem]
    exact h.good.kept p j value hp

/-! ## Mapping a page -/

/-- The part of the invariant that is about the tables. -/
structure TablesOk (space : Space) (P : Paging.State) : Prop where
  sound : Sound P
  spill : (P.mem bootTable spillIndex).present = true
  inUse : ∀ t, P.IsTable t → P.Managed t → P.pageRef t ≠ 0
  apart : ∀ i j, P.dir space.dir i ≠ .zero → P.dir space.dir j ≠ .zero →
    (P.dir space.dir i).physicalAddress = (P.dir space.dir j).physicalAddress → i = j

/-- A step of the fault of `t`, which is about to map `page`: it changes no other entry that is
present and no frame of another page. -/
structure Turn (space : Space) (s s' : State) (t : Ptr) (p : Phase) (page : UInt32) (f : Frame) :
    Prop where
  holds : (s.phase t).Holds page f
  phase : ∀ u, s'.phase u = if u = t then p else s.phase u
  given : s'.given = s.given
  stored : s'.stored = s.stored
  evolves : Evolves space s s'
  tablesOk : TablesOk space s'.paging
  frames : ∀ q x, (q, x) ∈ s.given → ¬s'.paging.IsTable x
  entries : ∀ v, pageOf v = v → v ≠ page →
    s'.paging.entry space.dir v = s.paging.entry space.dir v ∨
      (s.paging.entry space.dir v).present = false ∧
        (s'.paging.entry space.dir v).present = false
  mem : ∀ q x, (q, x) ∈ s.given → q ≠ page → s'.paging.mem x = s.paging.mem x
  page : (∀ q x, p.Holds q x ↔ q = page ∧ x = f) ∧
      (s'.paging.entry space.dir page).present = false ∨
    (∀ q x, ¬p.Holds q x) ∧ (s'.paging.entry space.dir page).Maps f
  fits : Fits space s' p
  alone : ∀ i g, p.HoldsTable i g → ∀ u, u ≠ t → ∀ j, ¬(s.phase u).HoldsTable j g
  notTable : ∀ u, u ≠ t → ∀ i g, (s.phase u).HoldsTable i g → ¬s'.paging.IsTable g
  tables : ∀ i g, (i, g) ∈ s'.tables →
    (∃ u, (s'.phase u).HoldsTable i g) ∨ s'.paging.dir space.dir i = tableEntry g

lemma pageOf_pageOf (v : UInt32) : pageOf (pageOf v) = pageOf v := by
  rw [pageOf, pageOf, frameOf_addrOf]

lemma Phase.Holds.inj {p : Phase} {q : UInt32} {x : Frame} (h : p.Holds page f)
    (hq : p.Holds q x) : q = page ∧ x = f := by
  cases p with
  | acquired | noTable | gotTable | atTable =>
    obtain ⟨rfl, rfl⟩ := h
    exact ⟨hq.1.symm, hq.2.symm⟩
  | _ => exact h.elim

/-- A present page maps the frame that was taken for it. -/
lemma Inv.maps_of_present (h : Inv space s) (hf : (page, f) ∈ s.given)
    (hpresent : (s.paging.entry space.dir page).present = true) :
    (s.paging.entry space.dir page).Maps f := by
  refine (h.good.mapped page f hf).resolve_left ?_
  rintro ⟨u, hu⟩
  exact absurd (hpresent.symm.trans ((h.fits u).waiting hu).absent) (by decide)

lemma Inv.kept (h : Inv space s) {j : Index} {value : PageTable}
    (hq : s.stored page j = some value) : ∃ x, (page, x) ∈ s.given ∧
      (s.paging.entry space.dir page).Maps x ∧ s.paging.mem x j = value := by
  obtain ⟨x, hx⟩ := h.stored page j value hq
  obtain ⟨y, hm, hval⟩ := h.good.kept page j value hq
  have hxy := h.maps_of_present hx hm.1
  obtain rfl : x = y := hxy.2.symm.trans hm.2
  exact ⟨x, hx, hm, hval⟩

lemma Inv.turn (h : Inv space s) {p : Phase} (ht : Turn space s s' t p page f) :
    Inv space s' := by
  have hwaiting := (h.fits t).waiting ht.holds
  have hgiven : ∀ {x}, x ∈ s'.given ↔ x ∈ s.given := by
    intro x
    rw [ht.given]
  have hne : ∀ {v x}, (s.paging.entry space.dir v).Maps x → v ≠ page := by
    rintro v x hmaps rfl
    exact absurd (hmaps.1.symm.trans hwaiting.absent) (by decide)
  have hmaps : ∀ {v x}, pageOf v = v → (s.paging.entry space.dir v).Maps x →
      (s'.paging.entry space.dir v).Maps x := by
    intro v x hv hm
    rcases ht.entries v hv (hne hm) with he | ⟨hno, -⟩
    · rw [he]
      exact hm
    · exact absurd (hm.1.symm.trans hno) (by decide)
  have hother : ∀ {u q x}, u ≠ t → (s.phase u).Holds q x → q ≠ page := by
    rintro u q x hu hq rfl
    obtain ⟨-, rfl⟩ : q = q ∧ x = f := by
      refine ⟨rfl, ?_⟩
      have hx := ((h.fits u).waiting hq).given
      have hf := hwaiting.given
      by_contra hxf
      have hnd := List.inj_on_of_nodup_map h.good.once hx hf rfl
      exact hxf (congrArg Prod.snd hnd)
    exact hu (h.alone u t q x hq ht.holds)
  have habsent : ∀ {u q x}, u ≠ t → (s.phase u).Holds q x →
      (s'.paging.entry space.dir q).present = false := by
    intro u q x hu hq
    have hw := (h.fits u).waiting hq
    rcases ht.entries q (h.frames q x hw.given).2.2.2 (hother hu hq) with he | ⟨-, he⟩
    · rw [he]
      exact hw.absent
    · exact he
  have hholds : ∀ {u q x}, (s'.phase u).Holds q x → (s.phase u).Holds q x := by
    intro u q x hq
    rw [ht.phase] at hq
    split_ifs at hq with hu
    · rcases ht.page with ⟨hp, -⟩ | ⟨hp, -⟩
      · obtain ⟨rfl, rfl⟩ := (hp q x).mp hq
        rw [hu]
        exact ht.holds
      · exact absurd hq (hp q x)
    · exact hq
  refine ⟨ht.tablesOk.sound, ht.tablesOk.spill, ht.tablesOk.inUse, ht.tablesOk.apart,
    fun q x hx => ?_, fun p q x hp hq => h.onePage p q x (hgiven.mp hp) (hgiven.mp hq),
    fun u => ?_, fun u v q x hu hv => h.alone u v q x (hholds hu) (hholds hv),
    fun u v i j g hu hv => ?_, fun q j value hq => ?_,
    ⟨by rw [ht.given]; exact h.good.once, fun addr area ha hl hpres => ?_, fun q x hx => ?_,
      ht.tables, fun q j value hq => ?_⟩⟩
  · obtain ⟨hm, hr, -, hq⟩ := h.frames q x (hgiven.mp hx)
    exact ⟨ht.evolves.managed x hm, ht.evolves.ref x hr, ht.frames q x (hgiven.mp hx), hq⟩
  · rw [ht.phase]
    split_ifs with hu
    · exact ht.fits
    · refine (h.fits u).evolves ht.evolves (fun q x hq => habsent hu hq) fun i g hg => ?_
      exact ⟨ht.notTable u hu i g hg, fun q hq => ((h.fits u).table hg).2.2.2 q (hgiven.mp hq)⟩
  · rw [ht.phase] at hu hv
    split_ifs at hu hv with hut hvt hvt
    · rw [hut, hvt]
    · exact absurd hv (ht.alone i g hu v hvt j)
    · exact absurd hu (ht.alone j g hv u hut i)
    · exact h.aloneTable u v i j g hu hv
  · rw [ht.stored] at hq
    obtain ⟨x, hx⟩ := h.stored q j value hq
    exact ⟨x, hgiven.mpr hx⟩
  · by_cases hpage : pageOf addr = page
    · rw [hpage] at hpres ⊢
      rcases ht.page with ⟨-, hno⟩ | ⟨-, hm⟩
      · exact absurd (hpres.symm.trans hno) (by decide)
      · exact ⟨f, hgiven.mpr hwaiting.given, hm⟩
    · rcases ht.entries _ (pageOf_pageOf addr) hpage with he | ⟨-, hno⟩
      · rw [he] at hpres ⊢
        obtain ⟨x, hx, hm⟩ := h.good.exact addr area ha hl hpres
        exact ⟨x, hgiven.mpr hx, hm⟩
      · exact absurd (hpres.symm.trans hno) (by decide)
  · have hx := hgiven.mp hx
    rcases h.good.mapped q x hx with ⟨u, hu⟩ | hm
    · by_cases hut : u = t
      · subst hut
        obtain ⟨rfl, rfl⟩ := ht.holds.inj hu
        rcases ht.page with ⟨hp, -⟩ | ⟨-, hm⟩
        · exact .inl ⟨u, by rw [ht.phase, if_pos rfl]; exact (hp _ _).mpr ⟨rfl, rfl⟩⟩
        · exact .inr hm
      · exact .inl ⟨u, by rw [ht.phase, if_neg hut]; exact hu⟩
    · exact .inr (hmaps (h.frames q x hx).2.2.2 hm)
  · rw [ht.stored] at hq
    obtain ⟨x, hx, hm, hval⟩ := h.kept hq
    refine ⟨x, hmaps (h.frames q x hx).2.2.2 hm, ?_⟩
    rw [ht.mem q x hx (hne hm), hval]

lemma Inv.tablesOk (h : Inv space s) : TablesOk space s.paging :=
  ⟨h.sound, h.spill, h.inUse, h.apart⟩

lemma tablesOk_of_took {P P' : Paging.State} (h : TablesOk space P) (ht : Took P P' f) :
    TablesOk space P' where
  sound := ht.sound
  spill := by rw [ht.same.mem]; exact h.spill
  inUse x hx hm := ht.ref_ne x
    (h.inUse x ((isTable_congr ht.same.dir x).mp hx) ((ht.managed x).mp hm))
  apart := by rw [ht.same.dir]; exact h.apart

/-- A fault takes a frame for a table. -/
lemma Inv.getTable (h : Inv space s) {area : KVirtualMemoryAllocation} {paging : Paging.State}
    (hphase : s.phase t = .noTable page area f)
    (hget : mmGetPhysicalPage s.paging = (some g, paging)) :
    Inv space (DemandPaging.setPhase { s with paging, tables := (dirIndex page, g) :: s.tables } t
      (.gotTable page area f g)) := by
  have htook := took_of_some h.sound hget
  obtain ⟨hnotTable, hnotGiven, hnotHeld⟩ := h.unused htook.frame htook.free
  have hw : Fits space s (.noTable page area f) := hphase ▸ h.fits t
  have htable := isTable_congr htook.same.dir
  generalize hs' : DemandPaging.setPhase { s with paging, tables := (dirIndex page, g) :: s.tables }
    t (.gotTable page area f g) = s'
  have hpaging : paging = s'.paging := by rw [← hs']; rfl
  have hphase' : ∀ u, s'.phase u = if u = t then .gotTable page area f g else s.phase u := by
    intro u
    rw [← hs']
    exact Function.update_apply s.phase t _ u
  rw [hpaging] at htook htable
  have hgiven : s'.given = s.given := by rw [← hs']; rfl
  have hevolves : Evolves space s s' := evolves_of_took htook fun x hx => hgiven ▸ hx
  refine h.turn ⟨by rw [hphase]; exact ⟨rfl, rfl⟩, hphase', hgiven, by rw [← hs']; rfl, hevolves,
    tablesOk_of_took h.tablesOk htook, fun q x hx => ?_, fun v _ _ => .inl (htook.entry _ v),
    fun q x _ _ => congrFun htook.same.mem x, .inl ⟨fun q x => ⟨fun hq => ⟨hq.1.symm, hq.2.symm⟩,
      fun hq => ⟨hq.1.symm, hq.2.symm⟩⟩, ?_⟩, ?_, fun i x hx u _ j => ?_,
    fun u _ i x hu => ?_, fun i x hx => ?_⟩
  · rw [htable]
    exact (h.frames q x hx).2.2.1
  · rw [htook.entry]
    exact hw.absent
  · refine ⟨⟨hevolves.given _ hw.given, ?_, fun hr => hw.page (hevolves.reserved _ hr)⟩,
      (htook.managed g).mpr htook.frame, htook.ref_self, fun hh => hnotTable ((htable g).mp hh),
      fun q => ?_⟩
    · rw [htook.entry]
      exact hw.absent
    · rw [hgiven]
      exact hnotGiven q
  · rw [← hx.2]
    exact hnotHeld u j
  · rw [htable]
    exact ((h.fits u).table hu).2.2.1
  · have hx : (i, x) ∈ (dirIndex page, g) :: s.tables := by rw [← hs'] at hx; exact hx
    rcases List.mem_cons.mp hx with he | hx
    · obtain ⟨rfl, rfl⟩ := Prod.mk.inj he
      exact .inl ⟨t, by rw [hphase', if_pos rfl]; exact ⟨rfl, rfl⟩⟩
    · rw [htook.same.dir]
      refine (h.good.tables i x hx).imp_left fun ⟨u, hu⟩ => ⟨u, ?_⟩
      have hut : u ≠ t := by
        rintro rfl
        rw [hphase] at hu
        exact hu
      rw [hphase', if_neg hut]
      exact hu

lemma managed_ne {P : Paging.State} (hg : P.Managed g) : g ≠ bootTable ∧ g ≠ spillFrame :=
  ⟨fun he => absurd (he ▸ hg.1) (by decide), fun he => absurd (he ▸ hg.1) (by decide)⟩

/-- A fault puts a table without present entries where there is none. -/
lemma Inv.assign (h : Inv space s) {area : KVirtualMemoryAllocation}
    (hphase : s.phase t = .gotTable page area f g)
    (hnone : s.paging.dir space.dir (dirIndex page) = .zero)
    (hclean : ∀ j, (s.paging.mem g j).present = false) :
    Inv space (DemandPaging.setPhase
      { s with paging := s.paging.setDir space.dir (dirIndex page) (tableEntry g) } t
      (.atTable true page area f)) := by
  obtain ⟨hw, hmanaged, href, hnotTable, hnotGiven⟩ :
    Fits space s (.gotTable page area f g) := hphase ▸ h.fits t
  obtain ⟨hboot, hspill⟩ := managed_ne hmanaged
  generalize hs' : DemandPaging.setPhase
    { s with paging := s.paging.setDir space.dir (dirIndex page) (tableEntry g) } t
    (.atTable true page area f) = s'
  have hP : s'.paging = s.paging.setDir space.dir (dirIndex page) (tableEntry g) := by
    rw [← hs']
    rfl
  have htable : ∀ x, s'.paging.IsTable x ↔ s.paging.IsTable x ∨ x = g := by
    intro x
    rw [hP, isTable_setDir hnone (tableEntry_ne_zero g), tableEntry_frame]
  have hdir : ∀ j, s'.paging.dir space.dir j =
      if j = dirIndex page then tableEntry g else s.paging.dir space.dir j := by
    intro j
    rw [hP, setDir_dir]
    simp
  have hmem : s'.paging.mem = s.paging.mem := by rw [hP]; rfl
  have hseen : s'.paging.seen = s.paging.seen := by
    funext x j
    rw [State.seen, State.seen, hmem]
  have href' : s'.paging.pageRef = s.paging.pageRef := by rw [hP]; rfl
  have htotal : s'.paging.totalPages = s.paging.totalPages := by rw [hP]; rfl
  have hold : ∀ v, dirIndex v = dirIndex page → (s.paging.entry space.dir v).present = false := by
    intro v hv
    rw [entry_of_no_table (by rw [hv, hnone])]
    rfl
  have hnew : ∀ v, dirIndex v = dirIndex page → (s'.paging.entry space.dir v).present = false := by
    intro v hv
    have hne : s'.paging.dir space.dir (dirIndex v) ≠ .zero := by
      rw [hdir, if_pos hv]
      exact tableEntry_ne_zero g
    rw [entry_of_table hne, hdir, if_pos hv, tableEntry_frame, hseen,
      seen_of_not_window fun hwin => hboot hwin.1]
    exact hclean _
  have hentry : ∀ v, dirIndex v ≠ dirIndex page →
      s'.paging.entry space.dir v = s.paging.entry space.dir v := by
    intro v hv
    rw [State.entry, State.entry, State.lookup, State.lookup, hdir, if_neg hv, hseen]
  have hreserved : ∀ v, Reserved s'.paging space.dir v → Reserved s.paging space.dir v := by
    intro v hr
    by_cases hv : dirIndex v = dirIndex page
    · rw [Reserved, hdir, if_pos hv, tableEntry_frame] at hr
      exact absurd hr.2.1 hboot
    · rw [Reserved, hdir, if_neg hv] at hr
      exact hr
  have hphase' : ∀ u, s'.phase u = if u = t then .atTable true page area f else s.phase u := by
    intro u
    rw [← hs']
    exact Function.update_apply s.phase t _ u
  have hgiven : s'.given = s.given := by rw [← hs']; rfl
  have htablesOk : TablesOk space s'.paging := by
    refine ⟨⟨?_, ?_, ?_, ?_⟩, ?_, fun x hx hm => ?_, fun i j hi hj hij => ?_⟩
    · rw [show s'.paging.pageIt = s.paging.pageIt by rw [hP]; rfl, htotal]
      exact h.sound.search
    · rw [htotal]
      exact h.sound.front
    · rw [State.spill, hmem]
      exact h.sound.spill
    · rw [htable]
      exact fun hh => hh.elim h.sound.spillFree fun he => hspill he.symm
    · rw [hmem]
      exact h.spill
    · rw [href']
      rcases (htable x).mp hx with hx | rfl
      · rw [State.Managed, htotal] at hm
        exact h.inUse x hx hm
      · exact href
    · rw [hdir] at hi hj
      rw [hdir, hdir] at hij
      split_ifs at hi hj hij with hi' hj' hj'
      · rw [hi', hj']
      · rw [tableEntry_frame] at hij
        exact absurd ⟨space.dir, j, hj, hij.symm⟩ hnotTable
      · rw [tableEntry_frame] at hij
        exact absurd ⟨space.dir, i, hi, hij⟩ hnotTable
      · exact h.apart i j hi hj hij
  refine h.turn ⟨by rw [hphase]; exact ⟨rfl, rfl⟩, hphase', hgiven, by rw [← hs']; rfl,
    ⟨fun x hx => hgiven ▸ hx, fun x hm => ?_, fun x hx => href' ▸ hx, fun i hi => ?_, hreserved⟩,
    htablesOk, fun q x hx => ?_, fun v _ _ => ?_, fun q x _ _ => congrFun hmem x,
    .inl ⟨fun q x => ⟨fun hq => ⟨hq.1.symm, hq.2.symm⟩, fun hq => ⟨hq.1.symm, hq.2.symm⟩⟩,
      hnew page rfl⟩,
    ⟨⟨by rw [hgiven]; exact hw.given, hnew page rfl, fun hr => hw.page (hreserved page hr)⟩, ?_⟩,
    fun i x hx => hx.elim, fun u hu i x hx => ?_, fun i x hx => ?_⟩
  · rw [State.Managed, htotal]
    exact hm
  · have hne : i ≠ dirIndex page := fun he => hi (he ▸ hnone)
    rw [hdir, if_neg hne]
  · rw [htable]
    rintro (hh | rfl)
    · exact (h.frames q x hx).2.2.1 hh
    · exact hnotGiven q hx
  · by_cases hv : dirIndex v = dirIndex page
    · exact .inr ⟨hold v hv, hnew v hv⟩
    · exact .inl (hentry v hv)
  · rw [hdir, if_pos rfl, tableEntry_frame]
    exact ⟨tableEntry_ne_zero g, fun _ => hboot⟩
  · rw [htable]
    rintro (hh | rfl)
    · exact ((h.fits u).table hx).2.2.1 hh
    · refine hu (h.aloneTable u t i (dirIndex page) x hx ?_)
      rw [hphase]
      exact ⟨rfl, rfl⟩
  · have hx : (i, x) ∈ s.tables := by rw [← hs'] at hx; exact hx
    rw [hdir]
    rcases h.good.tables i x hx with ⟨u, hu⟩ | he
    · by_cases hut : u = t
      · rw [hut, hphase] at hu
        obtain ⟨rfl, rfl⟩ := hu
        exact .inr (if_pos rfl)
      · exact .inl ⟨u, by rw [hphase', if_neg hut]; exact hu⟩
    · have hne : i ≠ dirIndex page := fun hi =>
        tableEntry_ne_zero x (he.symm.trans (hi ▸ hnone))
      exact .inr (by rw [if_neg hne, he])

/-- What the end of `ArMapOnePage` leaves in memory. -/
lemma mapInTable_seen (P : Paging.State) (d : Ptr) (newpage : Bool) (v p a flag : UInt32)
    {x : Frame} {j : Index} (hwin : ¬IsWindow x j) :
    ∃ te, (mapInTable P d newpage v p a flag).seen x j =
      if zeroedFrame te p flag = some x then .zero
      else if x = (P.dir d (dirIndex v)).physicalAddress ∧ j = tableIndex v then
        mapEntry te p a flag
      else if newpage = true ∧ x = (P.dir d (dirIndex v)).physicalAddress ∧ tableIndex v ≤ j then
        .zero
      else if newpage = true ∧ x = P.spill ∧ j < tableIndex v then .zero
      else P.seen x j := by
  rw [mapInTable]
  generalize (P.dir d (dirIndex v)).physicalAddress = t
  have hspill : (arMapTemporaryPage P (addrOf t)).spill = P.spill := by
    rw [State.spill, arMapTemporaryPage_mem, if_neg (by decide)]
    rfl
  have hbase : (if newpage = true then zeroFrom (arMapTemporaryPage P (addrOf t)) t (tableIndex v)
      else arMapTemporaryPage P (addrOf t)).seen x j =
        if newpage = true ∧ x = t ∧ tableIndex v ≤ j then .zero
        else if newpage = true ∧ x = P.spill ∧ j < tableIndex v then .zero else P.seen x j := by
    cases newpage with
    | false => simp [arMapTemporaryPage_seen_eq]
    | true =>
      rw [if_pos rfl, seen_of_not_window hwin, seen_of_not_window hwin]
      simp only [zeroFrom, hspill, arMapTemporaryPage_mem, if_neg hwin, true_and]
  generalize (if newpage = true then zeroFrom (arMapTemporaryPage P (addrOf t)) t (tableIndex v)
    else arMapTemporaryPage P (addrOf t)) = base at hbase
  refine ⟨base.mem t (tableIndex v), ?_⟩
  rw [writeEntry_seen, if_neg hwin, hbase]

lemma mapInTable_sameBooks (P : Paging.State) (d : Ptr) (newpage : Bool) (v p a flag : UInt32) :
    SameBooks P (mapInTable P d newpage v p a flag) := by
  have hbooks := fun S : Paging.State => writeEntry_sameBooks S
    (P.dir d (dirIndex v)).physicalAddress (tableIndex v) p a flag
  cases newpage with
  | false =>
    obtain ⟨hd, hr, ht, hp⟩ := hbooks (arMapTemporaryPage P _)
    exact ⟨hd, hr, ht, hp⟩
  | true =>
    obtain ⟨hd, hr, ht, hp⟩ := hbooks (zeroFrom (arMapTemporaryPage P _)
      (P.dir d (dirIndex v)).physicalAddress (tableIndex v))
    exact ⟨hd, hr, ht, hp⟩

lemma mapFlag_both (area : KVirtualMemoryAllocation) :
    mapFlag area &&& MAP_ADDRESS ≠ 0 ∧ mapFlag area &&& MAP_ATTRIBUTE ≠ 0 := by
  rw [mapFlag]
  split_ifs <;> decide

lemma zeroedFrame_mapFlag {te : PageTable} {area : KVirtualMemoryAllocation} {x : Frame}
    (h : zeroedFrame te (addrOf f) (mapFlag area) = some x) : x = f := by
  rw [zeroedFrame, if_pos (mapFlag_both area).1, frameOf_addrOf] at h
  split_ifs at h
  exact (Option.some.inj h).symm

lemma maps_mapEntry (te : PageTable) (area : KVirtualMemoryAllocation) (f : Frame) (a : UInt32) :
    (mapEntry te (addrOf f) (a ||| PAGE_ATTR_PRESENT) (mapFlag area)).Maps f := by
  obtain ⟨haddress, hattribute⟩ := mapFlag_both area
  rw [mapEntry_both haddress hattribute, frameOf_addrOf]
  refine ⟨?_, rfl⟩
  rw [UInt32.or_comm, Paging.and_or_self]
  rfl

lemma aligned_of_pageOf {v : UInt32} (h : pageOf v = v) : v.toNat % 4096 = 0 := by
  have hlt := (frameOf v).isLt
  have hsize : (frameOf v).val * 4096 < UInt32.size := by
    rw [UInt32.size]
    omega
  rw [← h, pageOf, addrOf, UInt32.toNat_ofNat_of_lt' hsize]
  omega

/-- A fault maps its page; no entry behind it in a new table is present. -/
lemma Inv.enter (h : Inv space s) {newpage : Bool} {area : KVirtualMemoryAllocation}
    {paging : Paging.State} (hphase : s.phase t = .atTable newpage page area f)
    (hP : paging = mapInTable s.paging space.dir newpage page (addrOf f)
      (area.memoryAttribute ||| PAGE_ATTR_PRESENT) (mapFlag area))
    (hclear : newpage = true → ∀ j, tableIndex page ≤ j →
      (s.paging.mem (s.paging.dir space.dir (dirIndex page)).physicalAddress j).present = false) :
    Inv space (DemandPaging.setPhase { s with paging } t .idle) := by
  obtain ⟨hw, hdir, hboot⟩ : Fits space s (.atTable newpage page area f) := hphase ▸ h.fits t
  obtain ⟨hmanaged, -, hnotTable, hpage⟩ := h.frames page f hw.given
  have hbooks : SameBooks s.paging paging := hP ▸ mapInTable_sameBooks _ _ _ _ _ _ _
  have htable := isTable_congr hbooks.dir
  have hseen := fun (x : Frame) (j : Index) (hwin : ¬IsWindow x j) =>
    mapInTable_seen s.paging space.dir newpage page (addrOf f)
      (area.memoryAttribute ||| PAGE_ATTR_PRESENT) (mapFlag area) hwin
  rw [← hP] at hseen
  generalize hT : (s.paging.dir space.dir (dirIndex page)).physicalAddress = T at hseen hboot hclear
  have hist : s.paging.IsTable T := ⟨space.dir, _, hdir, hT⟩
  have hwinT : ¬IsWindow T (tableIndex page) := fun hwin =>
    hw.page ⟨hdir, hT.trans hwin.1, .inl hwin.2⟩
  have hTf : T ≠ f := fun he => hnotTable (he ▸ hist)
  -- outside the new frame and the part of the table that is written
  have hkeep : ∀ x j, ¬IsWindow x j → x ≠ f → x ≠ spillFrame →
      (x = T → j ≠ tableIndex page ∧ (newpage = true → ¬tableIndex page ≤ j)) →
      paging.seen x j = s.paging.seen x j := by
    intro x j hwin hxf hxs hxT
    obtain ⟨te, he⟩ := hseen x j hwin
    rw [he, if_neg fun hz => hxf (zeroedFrame_mapFlag hz), if_neg fun hh => (hxT hh.1).1 hh.2,
      if_neg fun hh => (hxT hh.2.1).2 hh.1 hh.2.2,
      if_neg fun hh => hxs (hh.2.1.trans h.sound.spill)]
  have hmaps : (paging.entry space.dir page).Maps f := by
    obtain ⟨te, he⟩ := hseen T (tableIndex page) hwinT
    rw [entry_of_table (by rw [hbooks.dir]; exact hdir), hbooks.dir, hT, he,
      if_neg fun hz => hTf (zeroedFrame_mapFlag hz), if_pos ⟨rfl, rfl⟩]
    exact maps_mapEntry te area f area.memoryAttribute
  have hcleared : ∀ j, newpage = true → tableIndex page ≤ j → j ≠ tableIndex page →
      (s.paging.seen T j).present = false ∧ (paging.seen T j).present = false := by
    intro j hnew hle hj
    have hwin : ¬IsWindow T j := fun hwin => hboot hnew hwin.1
    obtain ⟨te, he⟩ := hseen T j hwin
    rw [he, if_neg fun hz => hTf (zeroedFrame_mapFlag hz), if_neg fun hh => hj hh.2,
      if_pos ⟨hnew, rfl, hle⟩, seen_of_not_window hwin]
    exact ⟨hclear hnew j hle, rfl⟩
  have hentries : ∀ v, pageOf v = v → v ≠ page →
      paging.entry space.dir v = s.paging.entry space.dir v ∨
        (s.paging.entry space.dir v).present = false ∧
          (paging.entry space.dir v).present = false := by
    intro v hv hne
    by_cases hz : s.paging.dir space.dir (dirIndex v) = .zero
    · exact .inl (by rw [entry_of_no_table (by rwa [hbooks.dir]), entry_of_no_table hz])
    rw [entry_of_table (by rwa [hbooks.dir]), entry_of_table hz, hbooks.dir]
    by_cases hvT : (s.paging.dir space.dir (dirIndex v)).physicalAddress = T
    · have hslot : dirIndex v = dirIndex page := h.apart _ _ hz hdir (hvT.trans hT.symm)
      have hindex : tableIndex v ≠ tableIndex page := fun hi =>
        hne (eq_of_indices (aligned_of_pageOf hv) (aligned_of_pageOf hpage) hslot hi)
      rw [hvT]
      by_cases hcut : newpage = true ∧ tableIndex page ≤ tableIndex v
      · exact .inr (hcleared _ hcut.1 hcut.2 hindex)
      · by_cases hwin : IsWindow T (tableIndex v)
        · exact .inl (by rw [State.seen, State.seen, if_pos hwin, if_pos hwin])
        · exact .inl (hkeep T _ hwin hTf (fun hs => h.sound.spillFree (hs ▸ hist))
            fun _ => ⟨hindex, fun hnew hle => hcut ⟨hnew, hle⟩⟩)
    · have hvist : s.paging.IsTable (s.paging.dir space.dir (dirIndex v)).physicalAddress :=
        ⟨space.dir, _, hz, rfl⟩
      generalize (s.paging.dir space.dir (dirIndex v)).physicalAddress = x at hvT hvist
      by_cases hwin : IsWindow x (tableIndex v)
      · exact .inl (by rw [State.seen, State.seen, if_pos hwin, if_pos hwin])
      · exact .inl (hkeep x _ hwin (fun hx => hnotTable (hx ▸ hvist))
          (fun hs => h.sound.spillFree (hs ▸ hvist)) fun hx => absurd hx hvT)
  have hspill : paging.mem bootTable spillIndex = s.paging.mem bootTable spillIndex := by
    have hwin : ¬IsWindow bootTable spillIndex := by decide
    rw [← seen_of_not_window (s := paging) hwin, ← seen_of_not_window (s := s.paging) hwin]
    refine hkeep _ _ hwin (managed_ne hmanaged).1.symm (by decide) fun hx => ⟨fun hi => ?_, ?_⟩
    · exact hw.page ⟨hdir, hT.trans hx.symm, .inr hi.symm⟩
    · exact fun hnew => absurd hx.symm (hboot hnew)
  have hmem : ∀ q x, (q, x) ∈ s.given → q ≠ page → paging.mem x = s.paging.mem x := by
    intro q x hx hq
    obtain ⟨hxm, -, hxt, -⟩ := h.frames q x hx
    funext j
    have hwin : ¬IsWindow x j := fun hwin => (managed_ne hxm).1 hwin.1
    rw [← seen_of_not_window (s := paging) hwin, ← seen_of_not_window (s := s.paging) hwin]
    exact hkeep x j hwin (fun he => hq (h.onePage q page f (he ▸ hx) hw.given))
      (managed_ne hxm).2 fun he => absurd (he ▸ hist) hxt
  have htablesOk : TablesOk space paging := by
    refine ⟨⟨?_, ?_, ?_, ?_⟩, ?_, fun x hx hm => ?_, ?_⟩
    · rw [hbooks.pageIt, hbooks.totalPages]
      exact h.sound.search
    · rw [hbooks.totalPages]
      exact h.sound.front
    · rw [State.spill, hspill]
      exact h.sound.spill
    · rw [htable]
      exact h.sound.spillFree
    · rw [hspill]
      exact h.spill
    · rw [State.Managed, hbooks.totalPages] at hm
      rw [hbooks.pageRef]
      exact h.inUse x ((htable x).mp hx) hm
    · rw [hbooks.dir]
      exact h.apart
  have hevolves : Evolves space s (DemandPaging.setPhase { s with paging } t .idle) := by
    refine ⟨fun _ => id, fun x hm => ?_, fun x hx => ?_, fun i _ => ?_, fun v hr => ?_⟩
    · change pageFront ≤ x.val ∧ x.val < paging.totalPages
      rw [hbooks.totalPages]
      exact hm
    · exact (show paging.pageRef = _ from hbooks.pageRef) ▸ hx
    · exact congrFun (congrFun hbooks.dir space.dir) i
    · change Reserved paging space.dir v at hr
      rw [Reserved, hbooks.dir] at hr
      exact hr
  refine h.turn ⟨by rw [hphase]; exact ⟨rfl, rfl⟩, Function.update_apply s.phase t _, rfl, rfl,
    hevolves, htablesOk, fun q x hx => ?_, hentries, hmem, .inr ⟨fun _ _ => id, hmaps⟩, trivial,
    fun i x hx => hx.elim, fun u hu i x hx => ?_, fun i x hx => ?_⟩
  · exact fun hh => (h.frames q x hx).2.2.1 ((htable x).mp hh)
  · exact fun hh => ((h.fits u).table hx).2.2.1 ((htable x).mp hh)
  · have hdir' : paging.dir space.dir i = s.paging.dir space.dir i :=
      congrFun (congrFun hbooks.dir space.dir) i
    refine (h.good.tables i x hx).imp (fun hex => hex.imp fun u hu => ?_) hdir'.trans
    have hut : u ≠ t := by
      rintro rfl
      rw [hphase] at hu
      exact hu
    change (Function.update s.phase t .idle u).HoldsTable i x
    rw [Function.update_of_ne hut]
    exact hu

/-! ## Stores -/

/-- A store to a page with a frame of its own. -/
lemma Inv.store (h : Inv space s) {addr : UInt32} {value : PageTable}
    (hpresent : (s.paging.entry space.dir (pageOf addr)).present = true)
    (hgiven : ∃ f, (pageOf addr, f) ∈ s.given) : Inv space (store s space.dir addr value) := by
  obtain ⟨f, hf⟩ := hgiven
  have hmaps := h.maps_of_present hf hpresent
  obtain ⟨hmanaged, -, hnotTable, -⟩ := h.frames _ f hf
  obtain ⟨hboot, -⟩ := managed_ne hmanaged
  rw [DemandPaging.store, hmaps.2]
  split_ifs with hwrite
  swap
  · exact h
  generalize hP : s.paging.setEntry f (wordOf addr) value = P
  have hmem : ∀ x, x ≠ f → P.mem x = s.paging.mem x := by
    intro x hx
    rw [← hP]
    exact Function.update_of_ne hx _ _
  have hdir : P.dir = s.paging.dir := by rw [← hP]; rfl
  have htable := isTable_congr hdir
  have hseen : ∀ x, s.paging.IsTable x → P.seen x = s.paging.seen x := by
    intro x hx
    funext j
    rw [State.seen, State.seen, hmem x fun he => hnotTable (he ▸ hx)]
  have hentry : ∀ v, P.entry space.dir v = s.paging.entry space.dir v := by
    intro v
    by_cases hz : s.paging.dir space.dir (dirIndex v) = .zero
    · rw [entry_of_no_table (by rwa [hdir]), entry_of_no_table hz]
    · rw [entry_of_table (by rwa [hdir]), entry_of_table hz, hdir, hseen _ ⟨space.dir, _, hz, rfl⟩]
  have hspill : P.mem bootTable = s.paging.mem bootTable := hmem _ hboot.symm
  have hwin : ∀ j, ¬IsWindow f j := fun j hw => hboot hw.1
  have hmemf : ∀ j, P.mem f j = if j = wordOf addr then value else s.paging.mem f j := by
    intro j
    rw [← hP, setEntry_mem]
    simp
  generalize hstore : Function.update s.stored (pageOf addr)
    (Function.update (s.stored (pageOf addr)) (wordOf addr) (some value)) = stored
  have hstored : ∀ q j v, stored q j = some v → q = pageOf addr ∧ j = wordOf addr ∧ v = value ∨
      s.stored q j = some v ∧ ¬(q = pageOf addr ∧ j = wordOf addr) := by
    intro q j v hv
    rw [← hstore, Function.update_apply] at hv
    split_ifs at hv with hq
    · rw [Function.update_apply] at hv
      split_ifs at hv with hj
      · exact .inl ⟨hq, hj, (Option.some.inj hv).symm⟩
      · exact .inr ⟨hq ▸ hv, fun hh => hj hh.2⟩
    · exact .inr ⟨hv, fun hh => hq hh.1⟩
  have hmanage : ∀ x, P.Managed x ↔ s.paging.Managed x := fun x => by rw [← hP]; rfl
  have href : P.pageRef = s.paging.pageRef := by rw [← hP]; rfl
  have hsound : Sound P := by
    refine ⟨by rw [← hP]; exact h.sound.search, by rw [← hP]; exact h.sound.front, ?_, ?_⟩
    · rw [State.spill, hspill]
      exact h.sound.spill
    · rw [htable]
      exact h.sound.spillFree
  have hgood : Good space { s with paging := P, stored } := by
    refine ⟨h.good.once, fun a area ha hl hpres => ?_, fun q x hx => ?_, fun i g hg => ?_,
      fun q j v hq => ?_⟩
    · rw [hentry] at hpres ⊢
      exact h.good.exact a area ha hl hpres
    · rw [hentry]
      exact h.good.mapped q x hx
    · rw [hdir]
      exact h.good.tables i g hg
    · rw [hentry]
      rcases hstored q j v hq with ⟨rfl, rfl, rfl⟩ | ⟨hold, hne⟩
      · exact ⟨f, hmaps, by rw [hmemf, if_pos rfl]⟩
      · obtain ⟨x, hx, hm, hval⟩ := h.kept hold
        refine ⟨x, hm, ?_⟩
        by_cases hxf : x = f
        · subst hxf
          obtain rfl := h.onePage q (pageOf addr) x hx hf
          rw [hmemf, if_neg fun hj => hne ⟨rfl, hj⟩]
          exact hval
        · rw [hmem x hxf]
          exact hval
  refine ⟨hsound, by rw [hspill]; exact h.spill, fun x hx hm => ?_, by rw [hdir]; exact h.apart,
    fun q x hx => ?_, h.onePage, fun u => ?_, h.alone, h.aloneTable, fun q j v hq => ?_, hgood⟩
  · rw [href]
    exact h.inUse x ((htable x).mp hx) ((hmanage x).mp hm)
  · obtain ⟨hm, hr, ht, hq⟩ := h.frames q x hx
    exact ⟨(hmanage x).mpr hm, href ▸ hr, fun hh => ht ((htable x).mp hh), hq⟩
  · refine (h.fits u).evolves ⟨fun _ => id, fun x => (hmanage x).mpr, fun x hx => href ▸ hx,
      fun i _ => congrFun (congrFun hdir space.dir) i, fun v hr => ?_⟩ (fun q x hq => ?_)
        fun i x hx => ?_
    · rw [Reserved, hdir] at hr
      exact hr
    · rw [hentry]
      exact ((h.fits u).waiting hq).absent
    · obtain ⟨-, -, ht, hg⟩ := (h.fits u).table hx
      exact ⟨fun hh => ht ((htable x).mp hh), hg⟩
  · rcases hstored q j v hq with ⟨rfl, -, -⟩ | ⟨hold, -⟩
    · exact ⟨f, hf⟩
    · exact h.stored q j v hold

/-! ## Runs -/

/-- A fault begins on a page that is not reserved, since those are present. -/
lemma Inv.not_reserved (h : Inv space s) {v : UInt32}
    (habsent : (s.paging.entry space.dir v).present = false) :
    ¬Reserved s.paging space.dir v := by
  rintro ⟨hdir, hboot, hi | hi⟩ <;> rw [entry_of_table hdir, hboot, hi] at habsent
  · rw [State.seen, if_pos ⟨rfl, rfl⟩] at habsent
    cases habsent
  · rw [seen_of_not_window (by decide), h.spill] at habsent
    cases habsent

lemma Inv.fault (h : Inv space s) (hidle : s.phase t = .idle) {addr : UInt32}
    (habsent : (s.paging.entry space.dir (pageOf addr)).present = false) :
    Inv space (DemandPaging.setPhase s t (.entered addr)) := by
  refine h.setPhase (h.not_reserved habsent) (fun _ _ => ?_) fun _ _ => ?_ <;>
    rw [hidle] <;> exact Iff.rfl

lemma advance_inv (h : Inv space s) (t : Ptr) (hok : StepOk space s (.advance t)) :
    Inv space (advance space s t) := by
  have hfits := h.fits t
  rw [StepOk] at hok
  rw [advance]
  cases hphase : s.phase t with
  | idle => exact h
  | entered addr =>
    rw [hphase] at hfits
    have hidle : Inv space (DemandPaging.setPhase s t .idle) :=
      h.setPhase trivial (fun _ _ => by rw [hphase]; exact Iff.rfl)
        fun _ _ => by rw [hphase]; exact Iff.rfl
    dsimp only
    split
    · exact hidle
    · split_ifs
      · exact h.setPhase ⟨hfits, pageOf_pageOf addr⟩ (fun _ _ => by rw [hphase]; exact Iff.rfl)
          fun _ _ => by rw [hphase]; exact Iff.rfl
      · exact hidle
  | decided page area =>
    rw [hphase] at hok
    obtain ⟨hframe, habsent, hother⟩ := hok
    dsimp only
    split
    · rename_i hget
      rw [hget] at hframe
      exact absurd rfl hframe
    · rename_i f paging hget
      exact h.acquire hphase hget habsent hother
  | acquired page area f =>
    rw [hphase] at hfits
    dsimp only
    split_ifs with hdir
    · exact h.setPhase hfits (fun _ _ => by rw [hphase]; exact Iff.rfl)
        fun _ _ => by rw [hphase]; exact Iff.rfl
    · exact h.setPhase ⟨hfits, hdir, fun hnew => absurd hnew Bool.false_ne_true⟩
        (fun _ _ => by rw [hphase]; exact Iff.rfl) fun _ _ => by rw [hphase]; exact Iff.rfl
  | noTable page area f =>
    rw [hphase] at hok
    dsimp only
    split
    · rename_i hget
      rw [hget] at hok
      exact absurd rfl hok
    · rename_i g paging hget
      exact h.getTable hphase hget
  | gotTable page area f g =>
    rw [hphase] at hok
    exact h.assign hphase hok.1 hok.2
  | atTable newpage page area f =>
    rw [hphase] at hok
    refine h.enter hphase rfl fun hnew => ?_
    subst hnew
    exact hok

theorem step_inv (s : State) (e : Event) (h : Inv space s) (hok : StepOk space s e) :
    Inv space (step space s e) := by
  cases e with
  | read t addr =>
    rw [step]
    split_ifs with hidle hpresent
    · exact h
    · exact h.fault hidle (Bool.eq_false_iff.mpr hpresent)
    · exact h
  | write t addr value =>
    rw [step]
    split_ifs with hidle hpresent
    · exact h.store hpresent (hok hidle hpresent)
    · exact h.fault hidle (Bool.eq_false_iff.mpr hpresent)
    · exact h
  | advance t => exact advance_inv h t hok

lemma Fresh.inv (h : Fresh space s) : Inv space s := by
  have hidle : ∀ {u p x}, ¬(s.phase u).Holds p x := fun {u _ _} hu => by
    rw [h.phase u] at hu
    exact hu
  have htable : ∀ {u i x}, ¬(s.phase u).HoldsTable i x := fun {u _ _} hu => by
    rw [h.phase u] at hu
    exact hu
  have hgiven : ∀ {x}, x ∉ s.given := fun {x} hx => by
    rw [h.given] at hx
    exact List.not_mem_nil hx
  have hstored : ∀ {q j v}, s.stored q j ≠ some v := fun {q j _} hv => by
    rw [h.stored q j] at hv
    cases hv
  refine ⟨h.sound, h.spill, h.inUse, h.apart, fun _ _ hx => absurd hx hgiven,
    fun _ _ _ hx => absurd hx hgiven, fun u => by rw [h.phase u]; trivial,
    fun _ _ _ _ hu => absurd hu hidle, fun _ _ _ _ _ hu => absurd hu htable,
    fun _ _ _ hv => absurd hv hstored, ⟨?_, fun addr area ha hl hpres => ?_,
      fun _ _ hx => absurd hx hgiven, fun i g hg => ?_, fun _ _ _ hv => absurd hv hstored⟩⟩
  · rw [h.given]
    exact List.nodup_nil
  · exact absurd (hpres.symm.trans (h.absent addr area ha hl)) (by decide)
  · rw [h.tables] at hg
    exact absurd hg List.not_mem_nil

/-- The second fault that takes a frame for a page breaks the law. -/
theorem second_not_good (h : Inv space s) {area : KVirtualMemoryAllocation}
    (hphase : s.phase t = .decided page area) (hother : (s.phase u).Holds page f)
    (hframe : (mmGetPhysicalPage s.paging).1 ≠ none) :
    ¬Good space (step space s (.advance t)) := by
  have hmem : page ∈ s.given.map Prod.fst :=
    List.mem_map.mpr ⟨_, ((h.fits u).waiting hother).given, rfl⟩
  intro hgood
  have honce := hgood.once
  rcases hget : mmGetPhysicalPage s.paging with ⟨_ | g, paging⟩
  · rw [hget] at hframe
    exact hframe rfl
  · simp only [step, advance, hphase, hget, DemandPaging.setPhase, List.map_cons,
      List.nodup_cons] at honce
    exact honce.1 hmem

end Inv

def word : PageTable := PageTable.ofWord 0x12345678

end Sgos.DemandPaging
