import Sgos.SpaceCreation
import Sgos.UserPages

/-!
# When a space is created

The frame for the page directory is the last thing that a creation asks for, and the only one whose
lack it misses. Without it the creation comes to an end only where the page happens to be mapped.
-/
namespace Sgos.SpaceCreation
open Paging
open VirtualMemory (ALLOC_RANDOM KVirtualMemoryAllocation AreaList BestAt allocateVma)

/-! ## The page for the directory -/

section Page
variable {s s' : Paging.State} {d d' : Ptr} {v : UInt32}

/-- An address in the range of the kernel's areas has a table beyond the one of the boot code. -/
lemma dirIndex_kernel (hlow : 0xC0400000 ≤ v.toNat) : 768 < (dirIndex v).val := by
  unfold dirIndex
  dsimp only
  omega

/-- Directories that share the table of a page share its entry. -/
lemma entry_shared (h : s.dir d (dirIndex v) = s.dir d' (dirIndex v)) :
    s.entry d v = s.entry d' v := by
  simp only [State.entry, State.lookup, h]

lemma entry_congr (hdir : s'.dir d = s.dir d) (hmem : s'.mem = s.mem) :
    s'.entry d v = s.entry d v := by
  have hseen : s'.seen = s.seen := by
    funext f i
    simp only [State.seen, hmem]
  simp only [State.entry, State.lookup, hdir, hseen]

lemma query_dir (s : Paging.State) (d : Ptr) (v : UInt32) :
    (arQueryPageInformation s d v).2.dir = s.dir := by
  unfold arQueryPageInformation
  dsimp only
  split_ifs
  · rfl
  · rfl

lemma query_entry (s : Paging.State) (d d' : Ptr) (v w : UInt32) :
    (arQueryPageInformation s d v).2.entry d' w = s.entry d' w := by
  have hseen : (arQueryPageInformation s d v).2.seen = s.seen := by
    unfold arQueryPageInformation
    dsimp only
    split_ifs
    · rfl
    · exact arMapTemporaryPage_seen_eq ..
  simp only [State.entry, State.lookup, query_dir, hseen]

/-- A query finds the frame of a page that has a table. -/
lemma query_frame (h : s.dir d (dirIndex v) ≠ .zero) :
    ∃ attr, (arQueryPageInformation s d v).1 =
      some (addrOf (s.entry d v).physicalAddress, attr) := by
  rw [arQueryPageInformation_eq, lookup_eq_entry h]
  exact ⟨_, rfl⟩

/-- Without a frame, no bytes are acquired, and no negative number is returned. -/
lemma acquire_full (hs : Sound s) (hfull : NoFrame s) (attr flag : UInt32) :
    ∃ s', mmAcquireMultiplePhysicalPages s d v PAGE_SIZE attr flag = (0, s') ∧ SameTables s s' := by
  have hget : mmGetPhysicalPage s = (none, (mmGetPhysicalPage s).2) :=
    Prod.ext ((get_none_iff hs).mpr hfull) rfl
  refine ⟨_, ?_, (mmGetPhysicalPage_none hs.search hs.front hget).1⟩
  have hone : PAGE_SIZE.toNat / 4096 = 1 := by decide
  rw [mmAcquireMultiplePhysicalPages, hone, acquirePages, mmAcquirePhysicalPage, hget]
  rfl

/-- With a free frame, the page is mapped. -/
lemma acquire_mapped (hs : Sound s) (hroom : ¬NoFrame s) (htable : s.dir d (dirIndex v) ≠ .zero)
    (hboot : (s.dir d (dirIndex v)).physicalAddress ≠ bootTable) :
    ∃ s', mmAcquireMultiplePhysicalPages s d v PAGE_SIZE PAGE_ATTR_WRITE MAP_ATTRIBUTE =
        (4096, s') ∧ s'.dir = s.dir ∧ (s'.entry d v).present = true := by
  obtain ⟨f, hf⟩ := Option.ne_none_iff_exists'.mp fun hnone => hroom ((get_none_iff hs).mp hnone)
  have hget : mmGetPhysicalPage s = (some f, (mmGetPhysicalPage s).2) := Prod.ext hf rfl
  obtain ⟨-, -, hsame, -⟩ := mmGetPhysicalPage_some hs.search hs.front hget
  generalize (mmGetPhysicalPage s).2 = g at hget hsame
  have htable' : g.dir d (dirIndex v) ≠ .zero := by rwa [hsame.dir]
  have hdir := (arMapOnePage_books htable' (addrOf f) (PAGE_ATTR_WRITE ||| PAGE_ATTR_PRESENT)
    mapBoth).dir
  refine ⟨arMapOnePage g d v (addrOf f) (PAGE_ATTR_WRITE ||| PAGE_ATTR_PRESENT) mapBoth, ?_,
    hdir.trans hsame.dir, ?_⟩
  · have hone : PAGE_SIZE.toNat / 4096 = 1 := by decide
    rw [mmAcquireMultiplePhysicalPages, hone, acquirePages, mmAcquirePhysicalPage, hget]
    rfl
  · have hwindow : ¬IsWindow (g.dir d (dirIndex v)).physicalAddress (tableIndex v) := by
      rw [hsame.dir]
      exact fun hw => hboot hw.1
    rw [entry_of_table (by rwa [hdir]), hdir, seen_table htable' rfl, if_neg hwindow,
      if_pos ⟨rfl, rfl⟩, mapEntry_both (by decide) (by decide)]
    rfl

/-- After the attempt the page is mapped unless it was not and no frame was free. -/
lemma acquire_spec (hs : Sound s) (htable : s.dir d (dirIndex v) ≠ .zero)
    (hboot : (s.dir d (dirIndex v)).physicalAddress ≠ bootTable) :
    ∃ n s', mmAcquireMultiplePhysicalPages s d v PAGE_SIZE PAGE_ATTR_WRITE MAP_ATTRIBUTE =
        (n, s') ∧ ¬n < 0 ∧ s'.dir = s.dir ∧
      (s'.translate d v = none ↔ NoFrame s ∧ s.translate d v = none) := by
  by_cases hfull : NoFrame s
  · obtain ⟨s', hacquire, hsame⟩ := acquire_full (d := d) (v := v) hs hfull PAGE_ATTR_WRITE
      MAP_ATTRIBUTE
    refine ⟨0, s', hacquire, by decide, hsame.dir, ?_⟩
    have hentry : s'.entry d v = s.entry d v := entry_congr (congrFun hsame.dir d) hsame.mem
    rw [translate_congr hentry]
    simp [hfull]
  · obtain ⟨s', hacquire, hdir, hpresent⟩ := acquire_mapped hs hfull htable hboot
    refine ⟨4096, s', hacquire, by decide, hdir, ?_⟩
    simp [hfull, translate_eq_none, hpresent]

end Page

/-! ## One creation -/

section Creation
variable {k : Kernel} {space parent : Ptr} {addr : UInt32}

@[simp] lemma modifySpace_space (k : Kernel) (p q : Ptr) (f : KSpace → KSpace) :
    (k.modifySpace p f).space q = if q = p then f (k.space p) else k.space q :=
  Function.update_apply ..

/-- The linking of a space touches no page and no area, and of directories only their owners. -/
structure SameKernel (k k' : Kernel) : Prop where
  paging : k'.paging = k.paging
  firstSpace : k'.firstSpace = k.firstSpace
  currentSpace : k'.currentSpace = k.currentSpace
  directory : ∀ q, (k'.space q).pageDirectory = (k.space q).pageDirectory

lemma linkSpace_same (k : Kernel) (space parent : Ptr) :
    SameKernel k (linkSpace k space parent) := by
  constructor
  case directory =>
    intro q
    unfold linkSpace
    dsimp only
    split
    all_goals
      simp only [modifySpace_space]
      split_ifs <;> simp_all
  all_goals
    unfold linkSpace
    dsimp only
    split <;> rfl

/-- The new space is linked in front of the children of its parent. -/
structure LinkedFirst (k k' : Kernel) (space parent : Ptr) : Prop where
  parent_eq : (k'.space space).parent = some parent
  child_eq : (k'.space parent).child = some space
  next_eq : (k'.space space).next = (k.space parent).child
  prev_eq : (k'.space space).prev = (k.space space).prev
  sibling : ∀ c, (k.space parent).child = some c → (k'.space c).prev = some space

lemma linkSpace_linked (hparent : parent ≠ space)
    (hchild : ∀ c, (k.space parent).child = some c → c ≠ space) :
    LinkedFirst k (linkSpace k space parent) space parent := by
  cases hc : (k.space parent).child with
  | none =>
    constructor
    all_goals simp [linkSpace, hc, hparent, Ne.symm hparent]
  | some c =>
    have hcs := hchild c hc
    constructor
    case sibling =>
      intro c' hc'
      obtain rfl := Option.some.inj (hc.symm.trans hc')
      by_cases hcp : c = parent
      · subst hcp
        simp [linkSpace, hc, hparent]
      · simp [linkSpace, hc, hparent, hcs, hcp]
    all_goals simp [linkSpace, hc, hparent, Ne.symm hparent, Ne.symm hcs]

/-- What a creation relies on once the area for the directory is there. -/
structure Placed (k : Kernel) (space parent : Ptr) (addr : UInt32) : Prop where
  paging : Sound k.paging
  table : k.paging.dir k.currentSpace (dirIndex addr) ≠ .zero
  notBoot : (k.paging.dir k.currentSpace (dirIndex addr)).physicalAddress ≠ bootTable
  shared : k.paging.dir k.currentSpace (dirIndex addr) = k.paging.dir k.firstSpace (dirIndex addr)
  first_ne : k.firstSpace ≠ space
  current_ne : k.currentSpace ≠ space
  parent_ne : parent ≠ space
  child_ne : ∀ c, (k.space parent).child = some c → c ≠ space
  prev : (k.space space).prev = none

/-- The kernel before the directory is filled. -/
def withDirectory (k : Kernel) (space : Ptr) (s : Paging.State) (dir : KPageDirectory) : Kernel :=
  { k.modifySpace space fun sp => { sp with pageDirectory := dir } with paging := s }

/-- After the attempt to map it, the directory is filled through its page. -/
lemma Placed.createDirectory_eq (h : Placed k space parent addr) :
    ∃ s phys, s.dir = k.paging.dir ∧
      (s.translate k.currentSpace addr = none ↔
        NoFrame k.paging ∧ k.paging.translate k.currentSpace addr = none) ∧
      phys = addrOf (s.entry k.currentSpace addr).physicalAddress ∧
      createDirectory k space parent addr =
        finishSpace (withDirectory k space s ⟨addr, phys⟩) space parent := by
  obtain ⟨n, s, hacquire, hn, hdir, hmapped⟩ := acquire_spec (v := addr) h.paging h.table h.notBoot
  have hshared : s.entry k.firstSpace addr = s.entry k.currentSpace addr :=
    entry_shared (by rw [hdir, h.shared])
  have htable : s.dir k.firstSpace (dirIndex addr) ≠ .zero := by
    rw [hdir, ← h.shared]
    exact h.table
  obtain ⟨attr, hquery⟩ := query_frame htable
  refine ⟨(arQueryPageInformation s k.firstSpace addr).2, _, ?_, ?_, rfl, ?_⟩
  · rw [query_dir, hdir]
  · rw [translate_congr (query_entry ..), hmapped]
  · have hacquire' : mmAcquireMultiplePhysicalPages (k.modifySpace space fun sp => { sp with
        pageDirectory := { sp.pageDirectory with virtualAddress := addr } }).paging
        (k.modifySpace space fun sp => { sp with
          pageDirectory := { sp.pageDirectory with virtualAddress := addr } }).currentSpace addr
        PAGE_SIZE PAGE_ATTR_WRITE MAP_ATTRIBUTE = (n, s) := hacquire
    rw [createDirectory]
    dsimp only
    rw [hacquire', if_neg hn]
    dsimp only [Kernel.modifySpace]
    rw [hquery, query_entry, hshared, withDirectory]
    simp only [Function.update_idem, Function.update_self, Kernel.modifySpace]

/-- Without a frame for a page that is not mapped, the creation ends its thread. -/
lemma Placed.terminated (h : Placed k space parent addr) (hfull : NoFrame k.paging)
    (hnone : k.paging.translate k.currentSpace addr = none) :
    ∃ k', createDirectory k space parent addr = .terminated k' := by
  obtain ⟨s, phys, -, hmapped, -, heq⟩ := h.createDirectory_eq
  have hnot : arInitializePageDirectory (withDirectory k space s ⟨addr, phys⟩) space = none := by
    have hdirectory : ((withDirectory k space s ⟨addr, phys⟩).space space).pageDirectory =
        ⟨addr, phys⟩ := by simp [withDirectory]
    rw [arInitializePageDirectory, hdirectory]
    exact if_pos (hmapped.mpr ⟨hfull, hnone⟩)
  rw [finishSpace, hnot] at heq
  exact ⟨_, heq⟩

lemma withDirectory_space (k : Kernel) (space : Ptr) (s : Paging.State) (dir : KPageDirectory)
    (q : Ptr) : (withDirectory k space s dir).space q =
      if q = space then { k.space space with pageDirectory := dir } else k.space q :=
  Function.update_apply ..

lemma fillDirectory_dir (k : Kernel) (space q : Ptr) (i : Index) :
    (fillDirectory k space).paging.dir q i =
      if q = space then (if i.val < 768 then .zero else k.paging.dir k.firstSpace i)
      else k.paging.dir q i := by
  by_cases hq : q = space
  · simp [fillDirectory, hq]
  · simp [fillDirectory, hq]

/-- Otherwise the creation returns the new space. -/
lemma Placed.created (h : Placed k space parent addr)
    (hmap : ¬(NoFrame k.paging ∧ k.paging.translate k.currentSpace addr = none)) :
    ∃ k', createDirectory k space parent addr = .returned (some space) k' ∧
      Created k k' parent space := by
  obtain ⟨s, phys, -, hmapped, hphys, heq⟩ := h.createDirectory_eq
  have hpresent : s.translate k.currentSpace addr ≠ none := fun hnone => hmap (hmapped.mp hnone)
  have hframe : s.translate k.currentSpace addr = some (frameOf phys) := by
    rw [hphys, frameOf_addrOf]
    have hentry := mt translate_eq_none.mpr hpresent
    rw [translate_of_present (by simpa using hentry)]
  generalize hk : withDirectory k space s ⟨addr, phys⟩ = k₁ at heq
  have hspace : ∀ q, k₁.space q =
      if q = space then { k.space space with pageDirectory := ⟨addr, phys⟩ } else k.space q := by
    rw [← hk]
    exact withDirectory_space k space s ⟨addr, phys⟩
  have hself : k₁.space space = { k.space space with pageDirectory := ⟨addr, phys⟩ } := by
    rw [hspace, if_pos rfl]
  have hparent : k₁.space parent = k.space parent := by rw [hspace, if_neg h.parent_ne]
  have hpaging : k₁.paging = s := by rw [← hk]; rfl
  have hcurrent : k₁.currentSpace = k.currentSpace := by rw [← hk]; rfl
  have hfirst : k₁.firstSpace = k.firstSpace := by rw [← hk]; rfl
  rw [finishSpace, arInitializePageDirectory, hself, hpaging, hcurrent, if_neg hpresent] at heq
  refine ⟨_, heq, ?_⟩
  have hdir : ∀ q i, (fillDirectory k₁ space).paging.dir q i = if q = space then
      (if i.val < 768 then .zero else s.dir k.firstSpace i) else s.dir q i := by
    intro q i
    rw [fillDirectory_dir, hpaging, hfirst]
  have htranslate : (fillDirectory k₁ space).paging.translate k.currentSpace addr =
      some (frameOf phys) := by
    rw [← hframe]
    refine translate_congr (entry_congr ?_ (by rw [← hpaging]; rfl))
    funext i
    rw [hdir, if_neg h.current_ne]
  have hfill : (fillDirectory k₁ space).space = k₁.space := rfl
  have hchild : ∀ c, ((fillDirectory k₁ space).space parent).child = some c → c ≠ space := by
    rw [hfill, hparent]
    exact h.child_ne
  have hsame := linkSpace_same (fillDirectory k₁ space) space parent
  have hlinked := linkSpace_linked h.parent_ne hchild
  have hnow : (linkSpace (fillDirectory k₁ space) space parent).currentSpace = k.currentSpace :=
    hsame.currentSpace.trans hcurrent
  have hstart : (linkSpace (fillDirectory k₁ space) space parent).firstSpace = k.firstSpace :=
    hsame.firstSpace.trans hfirst
  have hdirectory : ((linkSpace (fillDirectory k₁ space) space parent).space
      space).pageDirectory = ⟨addr, phys⟩ := by
    rw [hsame.directory, hfill, hself]
  constructor
  case mapped => rw [hsame.paging, hnow, hdirectory, htranslate]
  case user =>
    intro i hi
    rw [hsame.paging, hdir, if_pos rfl, if_pos hi]
  case kernel =>
    intro i hi
    rw [hsame.paging, hstart, hdir, hdir, if_pos rfl, if_neg h.first_ne,
      if_neg (Nat.not_lt.mpr hi)]
  case parent_eq => exact hlinked.parent_eq
  case child_eq => exact hlinked.child_eq
  case next_eq => rw [hlinked.next_eq, hfill, hparent]
  case prev_eq => rw [hlinked.prev_eq, hfill, hself, h.prev]
  case sibling =>
    intro c hc
    refine hlinked.sibling c ?_
    rw [hfill, hparent, hc]

end Creation

/-! ## The area for the directory -/

section Area
variable {s : VirtualMemory.State} {xs : List Ptr}

/-- What fits does not depend on the old contents of a block outside the list. -/
lemma fitsAt_write (h : AreaList s xs) {buf : Ptr} (hbuf : buf ∉ xs)
    (stale : KVirtualMemoryAllocation) (n a : ℕ) :
    VirtualMemory.FitsAt (s.write buf stale) n a ↔ VirtualMemory.FitsAt s n a := by
  have heap : ∀ x ∈ xs, (s.write buf stale).heap x = s.heap x := fun x hx =>
    Function.update_of_ne (ne_of_mem_of_not_mem hx hbuf) _ _
  rw [(h.write hbuf stale).fitsAt_iff, h.fitsAt_iff]
  refine and_congr_right fun _ => and_congr_right fun _ => forall₂_congr fun x hx => ?_
  simp only [VirtualMemory.State.beg, VirtualMemory.State.fin, heap x hx]

/-- The page for the directory is the lowest that is free, if one is. -/
lemma allocateVma_lowest (h : AreaList s xs) {buf : Ptr} (hbuf : buf ∉ xs)
    (hlow : s.vm.lowerLimit = 0xC0400000) (hhigh : s.vm.upperLimit = 0xE0000000)
    (stale : KVirtualMemoryAllocation) :
    (∃ r, allocateVma (s.write buf stale) buf 0 PAGE_SIZE PAGE_ATTR_WRITE ALLOC_RANDOM = some r ∧
        BestAt s PAGE_SIZE ALLOC_RANDOM r.1.toNat ∧ 0xC0400000 ≤ r.1.toNat) ∨
      allocateVma (s.write buf stale) buf 0 PAGE_SIZE PAGE_ATTR_WRITE ALLOC_RANDOM = none ∧
        ∀ a, ¬BestAt s PAGE_SIZE ALLOC_RANDOM a := by
  have hbest : ∀ t a, BestAt t PAGE_SIZE ALLOC_RANDOM a ↔
      IsLeast {a | VirtualMemory.FitsAt t PAGE_SIZE.toNat a} a := by
    intro t a
    rw [BestAt, if_neg (by decide)]
  have hsame : ∀ a, BestAt (s.write buf stale) PAGE_SIZE ALLOC_RANDOM a ↔
      BestAt s PAGE_SIZE ALLOC_RANDOM a := by
    intro a
    simp only [hbest, fitsAt_write h hbuf]
  have hvalid : ¬(PAGE_SIZE < PAGE_SIZE ∨ PAGE_SIZE % PAGE_SIZE ≠ 0) := by decide
  have hroom : (s.write buf stale).vm.upperLimit.toNat + PAGE_SIZE.toNat < addressSpace := by
    change s.vm.upperLimit.toNat + _ < _
    rw [hhigh]
    decide
  have hlimits : (s.write buf stale).vm.lowerLimit.toNat ≤
      (s.write buf stale).vm.upperLimit.toNat := by
    change s.vm.lowerLimit.toNat ≤ s.vm.upperLimit.toNat
    rw [hlow, hhigh]
    decide
  have hrandom : ALLOC_RANDOM &&& ALLOC_RANDOM ≠ 0 := by decide
  have hnothigh : ¬ALLOC_RANDOM &&& VirtualMemory.ALLOC_HIGHMEM ≠ 0 := by decide
  rcases (h.write hbuf stale).placeLowest hbuf hroom hlimits 0 hrandom hnothigh with
    ⟨r, hplace, hsettled⟩ | ⟨hplace, hnone⟩
  · have hb := (hsame _).mp hsettled.best
    refine .inl ⟨(r.1, r.2.setArea buf r.1 PAGE_SIZE PAGE_ATTR_WRITE ALLOC_RANDOM), ?_, hb, ?_⟩
    · rw [allocateVma, if_neg hvalid, hplace, Option.map_some]
    · have hfits := ((hbest _ _).mp hb).1.1
      rw [hlow] at hfits
      exact hfits
  · refine .inr ⟨?_, fun a ha => ?_⟩
    · rw [allocateVma, if_neg hvalid, hplace, Option.map_none]
    · exact hnone a ((hbest _ _).mp ((hsame a).mpr ha)).1

/-- Without a block or a free page, the area list stays as it is. -/
lemma allocateKernelArea_cases (k : Kernel) (h : AreaList k.areas xs) (hlive : ∀ x ∈ xs, x ∈ k.live)
    (hlow : k.areas.vm.lowerLimit = 0xC0400000) (hhigh : k.areas.vm.upperLimit = 0xE0000000)
    (vmabuf : Option Ptr) (stale : KVirtualMemoryAllocation) :
    (∃ areas, allocateKernelArea k vmabuf stale 0 PAGE_SIZE PAGE_ATTR_WRITE ALLOC_RANDOM =
          (0, { k with areas := areas }) ∧ areas.vm = k.areas.vm ∧
        (∀ x ∈ xs, areas.heap x = k.areas.heap x) ∧
        (mmAllocateKernelMemory k.live vmabuf = none ∨
          ∀ a, ¬BestAt k.areas PAGE_SIZE ALLOC_RANDOM a)) ∨
      ∃ buf, ∃ r : UInt32 × VirtualMemory.State,
        allocateKernelArea k vmabuf stale 0 PAGE_SIZE PAGE_ATTR_WRITE ALLOC_RANDOM =
          (r.1, { k with areas := r.2, live := buf :: k.live }) ∧
        mmAllocateKernelMemory k.live vmabuf = some buf ∧
        BestAt k.areas PAGE_SIZE ALLOC_RANDOM r.1.toNat ∧ 0xC0400000 ≤ r.1.toNat := by
  cases hbuf : mmAllocateKernelMemory k.live vmabuf with
  | none =>
    refine .inl ⟨k.areas, ?_, rfl, fun _ _ => rfl, .inl rfl⟩
    simp only [allocateKernelArea, hbuf]
  | some buf =>
    have hfresh : buf ∉ xs := fun hm => not_mem_of_allocated hbuf (hlive buf hm)
    rcases allocateVma_lowest h hfresh hlow hhigh stale with ⟨r, hr, hbest, hle⟩ | ⟨hr, hnone⟩
    · refine .inr ⟨buf, r, ?_, rfl, hbest, hle⟩
      simp only [allocateKernelArea, hbuf, hr]
    · refine .inl ⟨k.areas.write buf stale, ?_, rfl, fun x hx => ?_, .inr hnone⟩
      · simp only [allocateKernelArea, hbuf, hr]
      · exact Function.update_of_ne (ne_of_mem_of_not_mem hx hfresh) _ _

end Area

/-! ## All or nothing -/

section Law
variable {k k' : Kernel} {space p : Ptr} {parent block vmabuf : Option Ptr} {addr : UInt32}

lemma unchanged_refl (k : Kernel) : Unchanged k k :=
  ⟨rfl, rfl, fun _ _ => rfl, rfl, fun _ _ => rfl⟩

lemma bestAt_unique {s : VirtualMemory.State} {a b : ℕ} (ha : BestAt s PAGE_SIZE ALLOC_RANDOM a)
    (hb : BestAt s PAGE_SIZE ALLOC_RANDOM b) : a = b := by
  rw [BestAt, if_neg (by decide)] at ha hb
  exact ha.unique hb

/-- Where the area was found at `addr`, only the frame and the old mapping decide. -/
lemma starves_iff (hblock : mmAllocateKernelMemory k.live block = some space)
    (hbuf : mmAllocateKernelMemory (space :: k.live) vmabuf ≠ none)
    (hbest : BestAt k.areas PAGE_SIZE ALLOC_RANDOM addr.toNat) :
    Starves k block vmabuf (some p) ↔
      NoFrame k.paging ∧ k.paging.translate k.currentSpace addr = none := by
  constructor
  · intro hstarves
    obtain ⟨-, hfull, -, addr', hbest', hnone⟩ := hstarves
    obtain rfl := UInt32.toNat_inj.mp (bestAt_unique hbest hbest')
    exact ⟨hfull, hnone⟩
  · intro hmap
    obtain ⟨hfull, hnone⟩ := hmap
    exact ⟨Option.some_ne_none p, hfull, ⟨space, hblock, hbuf⟩, addr, hbest, hnone⟩

/-- A new descriptor is not one of the spaces. -/
lemma describeSpace_space (hfresh : space ∉ k.live) :
    ∀ q ∈ k.live, (describeSpace k space).space q = k.space q := by
  intro q hq
  exact Function.update_of_ne (ne_of_mem_of_not_mem hq hfresh) _ _

lemma describeSpace_self (k : Kernel) (space : Ptr) :
    (describeSpace k space).space space = { KSpace.zero with magic := SPACE_MAGIC } :=
  Function.update_self ..

/-- The area for the directory of a new descriptor. -/
lemma Ok.placed (h : Ok k (some p)) (hfresh : space ∉ k.live) (hle : 0xC0400000 ≤ addr.toNat)
    (areas : VirtualMemory.State) (live : List Ptr) :
    Placed { describeSpace k space with areas := areas, live := live } space p addr := by
  obtain ⟨hp, hchild⟩ := h.parent p rfl
  have hindex := dirIndex_kernel hle
  have htables := h.tables _ hindex
  have hshared := h.shared _ hindex.le
  have hspaces : ∀ q ∈ k.live, q ≠ space := fun q hq => ne_of_mem_of_not_mem hq hfresh
  constructor
  case paging => exact h.paging
  case table => exact hshared ▸ htables.1
  case notBoot => exact hshared ▸ htables.2
  case shared => exact hshared
  case first_ne => exact hspaces _ h.first
  case current_ne => exact hspaces _ h.current
  case parent_ne => exact hspaces _ hp
  case child_ne =>
    intro c hc
    change ((describeSpace k space).space p).child = some c at hc
    rw [describeSpace_space hfresh p hp] at hc
    exact hspaces c (hchild c hc)
  case prev =>
    change ((describeSpace k space).space space).prev = none
    rw [describeSpace_self]
    rfl

lemma Created.of_child {k₁ : Kernel} (h : Created k₁ k' p space)
    (hchild : (k₁.space p).child = (k.space p).child) : Created k k' p space where
  mapped := h.mapped
  user := h.user
  kernel := h.kernel
  parent_eq := h.parent_eq
  child_eq := h.child_eq
  next_eq := h.next_eq.trans hchild
  prev_eq := h.prev_eq
  sibling c hc := h.sibling c (hchild.trans hc)

/-- A creation returns null with nothing changed, or a new space, unless it starves. -/
lemma Ok.mmCreateSpace_cases (h : Ok k parent) (stale : KVirtualMemoryAllocation) :
    (¬Starves k block vmabuf parent ∧ (∃ k', mmCreateSpace k block vmabuf stale parent =
        .returned none k' ∧ Unchanged k k')) ∨
      (¬Starves k block vmabuf parent ∧ ∃ p space k', parent = some p ∧
        mmCreateSpace k block vmabuf stale parent = .returned (some space) k' ∧
        Created k k' p space) ∨
      Starves k block vmabuf parent ∧
        ∃ k', mmCreateSpace k block vmabuf stale parent = .terminated k' := by
  obtain ⟨xs, hxs, hlive⟩ := h.areas
  unfold mmCreateSpace
  cases parent with
  | none => exact .inl ⟨fun hstarves => hstarves.1 rfl, k, rfl, unchanged_refl k⟩
  | some p =>
    cases hblock : mmAllocateKernelMemory k.live block with
    | none =>
      refine .inl ⟨fun hstarves => ?_, k, rfl, unchanged_refl k⟩
      obtain ⟨-, -, ⟨space, hspace, -⟩, -⟩ := hstarves
      exact Option.some_ne_none space (hspace.symm.trans hblock)
    | some space =>
      have hfresh := not_mem_of_allocated hblock
      have hother := describeSpace_space hfresh
      have hlive' : ∀ x ∈ xs, x ∈ (describeSpace k space).live := fun x hx =>
        List.mem_cons_of_mem _ (hlive x hx)
      dsimp only
      rcases allocateKernelArea_cases (describeSpace k space) hxs hlive' h.lower h.upper vmabuf
        stale with ⟨areas, harea, hvm, hheap, hwhy⟩ | ⟨buf, r, harea, hbuf, hbest, hle⟩
      · rw [harea, if_pos rfl]
        refine .inl ⟨fun hstarves => ?_, _, rfl, ?_, hvm, fun x hx => ?_, rfl, hother⟩
        · obtain ⟨-, -, ⟨space', hspace', hbuf⟩, addr, hbest, -⟩ := hstarves
          obtain rfl := Option.some.inj (hblock.symm.trans hspace')
          exact hwhy.elim hbuf fun hnone => hnone _ hbest
        · exact List.erase_cons_head ..
        · exact hheap x (hxs.recorded_iff.mp hx)
      · have hne : r.1 ≠ 0 := by
          intro hzero
          rw [hzero] at hle
          exact absurd hle (by decide)
        have hbuf' : mmAllocateKernelMemory (space :: k.live) vmabuf ≠ none := fun hnone =>
          Option.some_ne_none buf (hbuf.symm.trans hnone)
        have hplaced := h.placed hfresh hle r.2 (buf :: (describeSpace k space).live)
        rw [harea, if_neg hne, starves_iff hblock hbuf' hbest]
        by_cases hmap : NoFrame k.paging ∧ k.paging.translate k.currentSpace r.1 = none
        · exact .inr (.inr ⟨hmap, hplaced.terminated hmap.1 hmap.2⟩)
        · obtain ⟨k', hreturned, hcreated⟩ := hplaced.created hmap
          have hchild := congrArg (fun sp : KSpace => sp.child) (hother p (h.parent p rfl).1)
          exact .inr (.inl ⟨hmap, p, space, k', rfl, hreturned, hcreated.of_child hchild⟩)

/-- A creation that starves does not return. -/
lemma Ok.not_allOrNothing (h : Ok k parent) (hstarves : Starves k block vmabuf parent)
    (stale : KVirtualMemoryAllocation) :
    ¬AllOrNothing k parent (mmCreateSpace k block vmabuf stale parent) := by
  rcases h.mmCreateSpace_cases stale with ⟨hnot, -⟩ | ⟨hnot, -⟩ | ⟨-, k', hterminated⟩
  · exact absurd hstarves hnot
  · exact absurd hstarves hnot
  · rw [hterminated]
    exact id

/-- Any other is all or nothing. -/
lemma Ok.allOrNothing (h : Ok k parent) (hnot : ¬Starves k block vmabuf parent)
    (stale : KVirtualMemoryAllocation) :
    AllOrNothing k parent (mmCreateSpace k block vmabuf stale parent) := by
  rcases h.mmCreateSpace_cases stale with ⟨-, k', hreturned, hsame⟩ |
    ⟨-, p, space, k', hp, hreturned, hcreated⟩ | ⟨hstarves, -⟩
  · rw [hreturned]
    exact hsame
  · rw [hreturned]
    exact ⟨p, hp, hcreated⟩
  · exact absurd hstarves hnot

end Law

/-- A creation is all or nothing exactly unless it starves of a frame. -/
theorem mmCreateSpace_allOrNothing_iff (k : Kernel) (parent : Option Ptr) (h : Ok k parent)
    (block vmabuf : Option Ptr) (stale : KVirtualMemoryAllocation) :
    AllOrNothing k parent (mmCreateSpace k block vmabuf stale parent) ↔
      ¬Starves k block vmabuf parent := by
  constructor
  · intro hall hstarves
    exact h.not_allOrNothing hstarves stale hall
  · intro hnot
    exact h.allOrNothing hnot stale

/-! ## A kernel with and without free frames -/

/-- The frame of a table of the kernel, as they are allocated one after the other at the start. -/
def kernelTable (i : Index) : Frame := frameOf (UInt32.ofNat ((i.val + 255) * 4096))

/-- The tables of the kernel occupy the first 255 frames that are counted. `used` frames are in
use, of 6MB. -/
def pages (used : ℕ) : Paging.State where
  mem f i :=
    if f = bootTable ∧ i = spillIndex then tableEntry spillFrame else .zero
  dir _ i := if i.val < 768 then .zero else if i.val = 768 then tableEntry bootTable else
    tableEntry (kernelTable i)
  pageRef f := if f.val < used then 1 else 0
  totalPages := 0x600
  pageIt := 0x500

/-- A kernel whose first space has a child. -/
def started (used : ℕ) : Kernel where
  space p := if p = 0x1000 then { KSpace.zero with child := some 0xC0400100 } else KSpace.zero
  firstSpace := 0x1000
  currentSpace := 0x1000
  spaceId := 8
  areas := ⟨fun _ => ⟨none, none, 0xC0400000, 0x0FC00000, 2, 64⟩,
    ⟨some 0xC0400018, some 0xC0400018, 0xC0400000, 0xE0000000⟩⟩
  paging := pages used
  live := [0x1000, 0xC0400018, 0xC0400100]

lemma kernelTable_val (i : Index) : (kernelTable i).val = i.val + 255 := by
  have hi := i.isLt
  have hlt : (i.val + 255) * 4096 < UInt32.size := by rw [UInt32.size]; omega
  simp only [kernelTable, frameOf, UInt32.toNat_ofNat_of_lt' hlt]
  omega

lemma pages_dir (used : ℕ) (d : Ptr) (i : Index) (hi : 768 < i.val) :
    (pages used).dir d i = tableEntry (kernelTable i) := by
  simp only [pages]
  rw [if_neg (by omega), if_neg (by omega)]

lemma pages_sound (used : ℕ) : Sound (pages used) where
  search := by change 0x500 ≤ 0x600; decide
  front := by change 0x400 ≤ 0x600; decide
  spill := by
    change (if bootTable = bootTable ∧ spillIndex = spillIndex then tableEntry spillFrame
      else .zero).physicalAddress = spillFrame
    rw [if_pos ⟨rfl, rfl⟩, tableEntry_frame]
  spillFree := by
    intro htable
    obtain ⟨d, i, hne, hframe⟩ := htable
    by_cases hi : 768 < i.val
    · rw [pages_dir used d i hi, tableEntry_frame] at hframe
      have hval := congrArg Fin.val hframe
      rw [kernelTable_val] at hval
      have hspill : spillFrame.val = 0x304 := by decide
      omega
    · simp only [pages] at hne hframe
      split_ifs at hne hframe with hlow hboot
      · exact hne rfl
      · rw [tableEntry_frame] at hframe
        exact absurd hframe (by decide)
      · omega

lemma pool_le :
    (0xC0400000 : UInt32).toNat + (0x0FC00000 : UInt32).toNat ≤ (0xE0000000 : UInt32).toNat := by
  decide

lemma started_areas (used : ℕ) : AreaList (started used).areas [0xC0400018] where
  links := ⟨⟨rfl, List.nodup_singleton _, rfl, rfl, trivial⟩, rfl⟩
  apart := .cons (fun _ hmem => absurd hmem List.not_mem_nil) .nil
  lower := by
    rw [List.forall_mem_singleton]
    simp only [started, VirtualMemory.State.beg]
    exact le_rfl
  upper := by
    rw [List.forall_mem_singleton]
    simp only [started, VirtualMemory.State.fin]
    exact pool_le

lemma started_ok (used : ℕ) : Ok (started used) (some 0x1000) where
  areas := ⟨_, started_areas used, List.forall_mem_singleton.mpr (by simp [started])⟩
  lower := rfl
  upper := rfl
  paging := pages_sound used
  tables i hi := by
    change (pages used).dir _ i ≠ _ ∧ ((pages used).dir _ i).physicalAddress ≠ _
    rw [pages_dir used _ i hi, tableEntry_frame]
    refine ⟨tableEntry_ne_zero _, fun hboot => ?_⟩
    have hval := congrArg Fin.val hboot
    rw [kernelTable_val] at hval
    have hboot : bootTable.val = 0x301 := by decide
    omega
  shared _ _ := rfl
  first := by simp [started]
  current := by simp [started]
  parent p hp := by
    obtain rfl := Option.some.inj hp
    simp [started]

/-- With free frames, a second child of the first space. -/
theorem mmCreateSpace_allOrNothing_iff_started :
    AllOrNothing (started 0x4FF) (some 0x1000)
      (mmCreateSpace (started 0x4FF) (some 0xC0400200) (some 0xC0400300)
        ⟨none, none, 0, 0, 0, 0⟩ (some 0x1000)) :=
  (mmCreateSpace_allOrNothing_iff (started 0x4FF) (some 0x1000) (started_ok _) _ _ _).mpr
    fun hstarves => hstarves.2.1 (frameOf 0x500000) (by decide) (by decide)

/-- The first page above the pool of the kernel. -/
lemma started_best (used : ℕ) :
    BestAt (started used).areas PAGE_SIZE ALLOC_RANDOM (0xD0000000 : UInt32).toNat := by
  have hfits : ∀ a, VirtualMemory.FitsAt (started used).areas PAGE_SIZE.toNat a ↔
      3225419776 ≤ a ∧ a + 4096 ≤ 3758096384 ∧ (3489660928 ≤ a ∨ a + 4096 ≤ 3225419776) := by
    intro a
    rw [(started_areas used).fitsAt_iff, List.forall_mem_singleton]
    simp only [started, VirtualMemory.State.beg, VirtualMemory.State.fin, UInt32.reduceToNat]
    exact Iff.rfl
  have haddr : (0xD0000000 : UInt32).toNat = 3489660928 := by decide
  rw [BestAt, if_neg (by decide), haddr]
  constructor
  · exact (hfits _).mpr (by omega)
  · intro a ha
    have hbounds := (hfits a).mp ha
    omega

lemma pages_unmapped (used : ℕ) (d : Ptr) : (pages used).translate d 0xD0000000 = none := by
  have hdir := pages_dir used d (dirIndex 0xD0000000) (by decide)
  have hframe : kernelTable (dirIndex 0xD0000000) ≠ bootTable := by decide
  have hentry : (pages used).entry d 0xD0000000 = .zero := by
    rw [entry_of_table (by rw [hdir]; exact tableEntry_ne_zero _), hdir, tableEntry_frame,
      seen_of_not_window (not_and_of_not_left _ hframe)]
    simp only [pages, hframe, false_and, if_false]
  rw [translate_eq_none, hentry]
  rfl

/-- All frames are in use. -/
lemma started_starves :
    Starves (started 0x600) (some 0xC0400200) (some 0xC0400300) (some 0x1000) := by
  refine ⟨by decide, fun f hf => ?_, ⟨0xC0400200, by decide, by decide⟩, 0xD0000000,
    started_best _, pages_unmapped ..⟩
  have hlt : f.val < 0x600 := hf.2
  change (if f.val < 0x600 then 1 else 0 : UInt8) ≠ 0
  rw [if_pos hlt]
  decide

/-- A creation that finds no frame never returns. -/
theorem not_mmCreateSpace_allOrNothing :
    ¬∀ (k : Kernel) (parent : Option Ptr), Ok k parent →
      ∀ (block vmabuf : Option Ptr) (stale : KVirtualMemoryAllocation),
        AllOrNothing k parent (mmCreateSpace k block vmabuf stale parent) := by
  intro hall
  have hok := started_ok 0x600
  have hstarves := started_starves
  -- the kernel is made a variable, so that the call is not evaluated
  generalize started 0x600 = k at hok hstarves
  exact hok.not_allOrNothing hstarves ⟨none, none, 0, 0, 0, 0⟩ (hall k _ hok _ _ _)

end Sgos.SpaceCreation
