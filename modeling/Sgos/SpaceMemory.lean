import Sgos.DemandPaging
import Sgos.SpaceAreas

/-!
# Memory of several spaces

The calls of `kernel/mm/usermemory.c` with the page tables behind them: the pages of an area are
acquired at once, at the first access, or not at all, and released with the area. However the calls
and accesses of several spaces follow one another, no page has the frame of another.
-/
namespace Sgos.SpaceMemory
open GuardedRun Paging SpacePages SpaceAreas
open VirtualMemory (AreasApart Contains Recorded mmFreeVirtualMemory mmGetVmaByAddress)
open UserMemory (Supply allocateArea setAllocated started)
open SpaceCreation (mmAcquireMultiplePhysicalPages)
open RangePages (firstPages mmReleaseMultiplePhysicalPages)
open CopyOnWrite (ALLOC_VIRTUAL)
open DemandPaging (ALLOC_LAZY ALLOC_ZERO pageOf)

/-- The spaces, each under the address of its page directory, and the page tables. -/
structure State where
  users : Ptr → UserMemory.State
  paging : Paging.State

def setUser (s : State) (d : Ptr) (user : UserMemory.State) : State :=
  { s with users := Function.update s.users d user }

def mapFlag (flag : UInt32) : UInt32 :=
  if flag &&& ALLOC_ZERO ≠ 0 then MAP_ATTRIBUTE ||| MAP_ZERO else MAP_ATTRIBUTE

def userAttr (pattr : UInt32) : UInt32 := pattr ||| (PAGE_ATTR_USER ||| PAGE_ATTR_PRESENT)

/-- Neither `ALLOC_VIRTUAL` nor `ALLOC_LAZY`: pages are acquired at once. -/
def AtOnce (flag : UInt32) : Prop := flag &&& ALLOC_VIRTUAL = 0 ∧ flag &&& ALLOC_LAZY = 0

instance (flag : UInt32) : Decidable (AtOnce flag) := inferInstanceAs (Decidable (_ ∧ _))

def mmFreeUserMemory (s : State) (d : Ptr) (p : UInt32) : State :=
  let siz := (mmFreeVirtualMemory (s.users d).memory.state p).1
  { setUser s d (UserMemory.mmFreeUserMemory (s.users d) p) with
    paging := mmReleaseMultiplePhysicalPages s.paging d p siz }

/-- Of the supply only the block counts: the frames are those of the page tables. -/
def mmAllocateUserMemoryAddress (s : State) (d : Ptr) (supply : Supply)
    (addr siz pattr flag : UInt32) : UInt32 × State :=
  let user := s.users d
  let allocated := user.info.userMemoryAllocated + siz.toInt32
  let info := setAllocated user.info allocated
  if allocated > info.userMemoryCapacity then
    (0, setUser s d { user with info := setAllocated info (allocated - siz.toInt32) })
  else
    let pattr := userAttr pattr
    let (ptr, memory) := allocateArea user.memory supply addr siz pattr flag
    if ptr = 0 then (0, setUser s d ⟨setAllocated info (allocated - siz.toInt32), memory⟩)
    else if AtOnce flag then
      let (ret, paging) :=
        mmAcquireMultiplePhysicalPages s.paging d ptr siz pattr (mapFlag flag)
      let s := { setUser s d ⟨info, memory⟩ with paging }
      if ret < 0 then (0, mmFreeUserMemory s d ptr) else (ptr, s)
    else (ptr, setUser s d ⟨info, memory⟩)

def mmAllocateUserMemory (s : State) (d : Ptr) (supply : Supply) (siz attr flag : UInt32) :
    UInt32 × State :=
  mmAllocateUserMemoryAddress s d supply 0 siz attr (flag ||| VirtualMemory.ALLOC_RANDOM)

/-- The branch of `MmHandleNonPresentPageFault` for user addresses. -/
def mmHandleNonPresentPageFault (s : State) (d : Ptr) (addr : UInt32) : State :=
  match mmGetVmaByAddress (s.users d).memory.state addr with
  | none => s
  | some vma =>
      let area := (s.users d).memory.state.heap vma
      if area.allocationFlag &&& ALLOC_LAZY ≠ 0 then
        { s with
          paging := (mmAcquirePhysicalPage s.paging d (pageOf addr) area.memoryAttribute
            (mapFlag area.allocationFlag)).2 }
      else s

/-! ## Calls and accesses as events -/

inductive Event
  | allocateAddress (d : Ptr) (supply : Supply) (addr siz pattr flag : UInt32)
  | allocate (d : Ptr) (supply : Supply) (siz attr flag : UInt32)
  | free (d : Ptr) (p : UInt32)
  | access (d : Ptr) (addr : UInt32)

/-- An access to a page that is not present is a fault. -/
def step (s : State) : Event → State
  | .allocateAddress d supply addr siz pattr flag =>
      (mmAllocateUserMemoryAddress s d supply addr siz pattr flag).2
  | .allocate d supply siz attr flag => (mmAllocateUserMemory s d supply siz attr flag).2
  | .free d p => mmFreeUserMemory s d p
  | .access d addr =>
      if (s.paging.entry d (pageOf addr)).present then s
      else mmHandleNonPresentPageFault s d addr

/-- No page is in an area, and none is mapped. -/
def start (totalPages : ℕ) (junk : Frame → Index → PageTable)
    (heap : Ptr → VirtualMemory.KVirtualMemoryAllocation) : State :=
  ⟨fun _ => started heap, boot totalPages junk⟩

/-- The areas of each space are apart; a page that is present is in an area of its space; it has a
frame of its own; and every frame is counted for the places that map it. -/
structure Isolated (s : State) : Prop where
  apart : ∀ d, AreasApart (s.users d).memory.state
  inside : ∀ d v, UserPage v → (s.paging.entry d v).present = true →
    ∃ x, Recorded (s.users d).memory.state x ∧ Contains (s.users d).memory.state x v
  own : ∀ d v d' v', UserPage v → UserPage v' → (s.paging.entry d v).present = true →
    (s.paging.entry d' v').present = true →
      (s.paging.entry d v).physicalAddress = (s.paging.entry d' v').physicalAddress →
        d = d' ∧ v = v'
  law : FrameLaw s.paging

/-! ## Conditions -/

/-- The address is that of a page, its placement keeps the areas apart, and the tables of pages that
are acquired at once are there or can be made. -/
structure RequestOk (s : State) (d : Ptr) (supply : Supply) (addr siz pattr flag : UInt32) :
    Prop where
  aligned : Aligned addr
  placement : VirtualMemory.StepOk (s.users d).memory
    (.allocate supply.block supply.stale addr siz (userAttr pattr) flag)
  tables : AtOnce flag → TablesOk d (userAttr pattr) (mapFlag flag) (siz.toNat / 4096) s.paging
    (allocateArea (s.users d).memory supply addr siz (userAttr pattr) flag).1

/-- Only the beginning of an area is given back, and accesses are to user addresses. -/
def StepOk (s : State) : Event → Prop
  | .allocateAddress d supply addr siz pattr flag => RequestOk s d supply addr siz pattr flag
  | .allocate d supply siz attr flag =>
      RequestOk s d supply 0 siz attr (flag ||| VirtualMemory.ALLOC_RANDOM)
  | .free d p => AtStart (s.users d).memory p
  | .access d addr => addr < KERNEL_BASE ∧
      ∀ x, mmGetVmaByAddress (s.users d).memory.state addr = some x →
        TableOk s.paging d (pageOf addr)

/-! ## The invariant -/

/-- The pages of the areas of all spaces. -/
def userPages (s : State) : Set (Ptr × UInt32) := {x | x.2 ∈ covered (s.users x.1).memory}

/-- The areas are of whole pages, and only their pages are mapped, each to a frame of its own. -/
structure Inv (s : State) : Prop where
  areas : ∀ d, UserAreas (s.users d).memory
  owned : Owned s.paging (userPages s)

section Steps
variable {s : State} {d : Ptr} {user : UserMemory.State} {paging : Paging.State}
  {ys : Set (Ptr × UInt32)} {supply : Supply} {addr siz pattr flag p : UInt32}

/-- A call for one space leaves the areas of the others. -/
lemma Inv.update (h : Inv s) (hareas : UserAreas user.memory) (howned : Owned paging ys)
    (hself : ∀ v, (d, v) ∈ ys → v ∈ covered user.memory)
    (hother : ∀ x ∈ ys, x.1 ≠ d → x ∈ userPages s) :
    Inv { setUser s d user with paging } := by
  refine ⟨fun d' => ?_, howned.mono fun x hx => ?_⟩
  · by_cases hd : d' = d
    · subst hd
      simpa [setUser] using hareas
    · simpa [setUser, Function.update_of_ne hd] using h.areas d'
  · obtain ⟨d', v⟩ := x
    rw [userPages, Set.mem_ofPred_eq]
    by_cases hd : d' = d
    · subst hd
      simpa [setUser] using hself v hx
    · have hold := hother _ hx hd
      rw [userPages, Set.mem_ofPred_eq] at hold
      simpa [setUser, Function.update_of_ne hd] using hold

/-- Areas without pages. -/
lemma Inv.grow (h : Inv s) (hareas : UserAreas user.memory)
    (hsub : covered (s.users d).memory ⊆ covered user.memory) : Inv (setUser s d user) :=
  h.update hareas h.owned (fun _ hv => hsub hv) fun _ hx _ => hx

lemma mapFlag_attribute (flag : UInt32) : mapFlag flag &&& MAP_ATTRIBUTE ≠ 0 := by
  rw [mapFlag]
  split_ifs <;> decide

/-- A release takes the pages of the area away with it. -/
lemma Inv.free (h : Inv s) (hstart : AtStart (s.users d).memory p) :
    Inv (mmFreeUserMemory s d p) := by
  obtain ⟨hareas, ⟨hsiz, hsame⟩ | ⟨hrange, hleft⟩⟩ := free_removed (h.areas d) hstart
  · have hmemory : (UserMemory.mmFreeUserMemory (s.users d) p).memory = (s.users d).memory := hsame
    rw [mmFreeUserMemory, hsiz]
    refine h.update hareas h.owned (fun v hv => ?_) fun _ hx _ => hx
    rw [hmemory]
    exact hv
  · have howned := h.owned.releasePages (d := d) hrange
    rw [mmFreeUserMemory, mmReleaseMultiplePhysicalPages, MemoryRanges.toNat_count]
    refine h.update hareas howned (fun v hv => hleft v hv.1 fun hin => hv.2 ⟨rfl, hin⟩) ?_
    exact fun x hx _ => hx.1

/-- The pages of a new area are acquired. -/
lemma Inv.acquire (h : Inv s) {attr : UInt32}
    (hadded : Added (s.users d).memory user.memory addr siz)
    (htables : TablesOk d attr (mapFlag flag) (siz.toNat / 4096) s.paging addr) :
    Inv { setUser s d user with
      paging := (mmAcquireMultiplePhysicalPages s.paging d addr siz attr (mapFlag flag)).2 } := by
  have howned := @Owned.acquirePages s.paging (userPages s) d attr (mapFlag flag) addr siz
    (siz.toNat / 4096) h.owned hadded.range (fun k hk hin => hadded.apart k hk hin)
    (mapFlag_attribute flag) htables
  refine h.update hadded.areas howned (fun v hv => ?_) fun x hx hne => ?_
  · rcases hv with hv | ⟨-, hv⟩
    · exact hadded.sub hv
    · exact hadded.new hv
  · exact hx.resolve_right fun hin => hne hin.1

/-- A request either fails, with nothing lost, or adds an area, whose pages are acquired at once or
later. -/
lemma Inv.request (h : Inv s) (hok : RequestOk s d supply addr siz pattr flag) :
    Inv (mmAllocateUserMemoryAddress s d supply addr siz pattr flag).2 := by
  have hcases := allocateArea_added (h.areas d) hok.placement hok.aligned
  unfold mmAllocateUserMemoryAddress
  dsimp only at hcases ⊢
  split_ifs with hcap hnull honce hneg
  · exact h.grow (h.areas d) subset_rfl
  · rcases hcases with ⟨-, hareas, hsub⟩ | hadded
    · exact h.grow hareas hsub
    · exact h.grow hadded.areas hadded.sub
  all_goals
    have hadded := hcases.resolve_left fun hc => hnull hc.1
  -- pages were acquired, and the area is given back
  · refine Inv.free (h.acquire hadded (hok.tables honce)) ?_
    simpa [setUser] using hadded.start
  · exact h.acquire hadded (hok.tables honce)
  · exact h.grow hadded.areas hadded.sub

lemma toNat_pageOf (addr : UInt32) : (pageOf addr).toNat = addr.toNat / 4096 * 4096 := by
  have hlt := addr.toNat_lt
  rw [pageOf, addrOf, UInt32.toNat_ofNat', frameOf]
  dsimp only
  omega

/-- A fault gives a page of a lazy area its frame. -/
lemma Inv.fault (h : Inv s) (haddr : addr < KERNEL_BASE)
    (htable : ∀ x, mmGetVmaByAddress (s.users d).memory.state addr = some x →
      TableOk s.paging d (pageOf addr))
    (habsent : ¬(s.paging.entry d (pageOf addr)).present = true) :
    Inv (mmHandleNonPresentPageFault s d addr) := by
  rw [mmHandleNonPresentPageFault]
  cases hvma : mmGetVmaByAddress (s.users d).memory.state addr with
  | none => exact h
  | some vma =>
    dsimp only
    split_ifs
    · obtain ⟨xs, hxs, -⟩ := h.areas d
      have hfloor := toNat_pageOf addr
      have hpage : UserPage (pageOf addr) := by
        rw [UInt32.lt_iff_toNat_lt] at haddr
        refine ⟨?_, ?_⟩
        · rw [Aligned, hfloor]
          omega
        · rw [UInt32.lt_iff_toNat_lt, hfloor]
          omega
      have howned := @Owned.acquire s.paging (userPages s) d (pageOf addr)
        ((s.users d).memory.state.heap vma).memoryAttribute
        (mapFlag ((s.users d).memory.state.heap vma).allocationFlag) h.owned hpage
        (Bool.not_eq_true _ ▸ habsent) (mapFlag_attribute _) (htable vma hvma)
      refine ⟨h.areas, howned.mono ?_⟩
      -- the area begins at a page boundary, and so contains the page
      rw [Set.insert_subset_iff]
      refine ⟨hxs.mem_covered.mpr ⟨hpage, vma, ?_⟩, subset_rfl⟩
      obtain ⟨hmem, hle, hlt⟩ := hxs.found hvma
      have hbeg := hxs.beg vma hmem
      refine ⟨hmem, ?_, ?_⟩
      · rw [hfloor]
        omega
      · rw [hfloor]
        omega
    · exact h

lemma step_inv (s : State) (e : Event) (h : Inv s) (hok : StepOk s e) : Inv (step s e) := by
  cases e with
  | allocateAddress d supply addr siz pattr flag => exact h.request hok
  | allocate d supply siz attr flag => exact h.request hok
  | free d p => exact h.free hok
  | access d addr =>
    rw [step]
    split_ifs with hpresent
    · exact h
    · exact h.fault hok.1 hok.2 hpresent

lemma Inv.isolated (h : Inv s) : Isolated s := by
  have hhas : ∀ d v, UserPage v → (s.paging.entry d v).present = true →
      Has s.paging (d, v) (s.paging.entry d v).physicalAddress := fun d v hv hpresent =>
    ⟨hv, hpresent, rfl⟩
  refine ⟨fun d => ?_, fun d v hv hpresent => ?_, fun d v d' v' hv hv' hp hp' he => ?_,
    h.owned.lawful.frameLaw⟩
  · obtain ⟨xs, hxs, -⟩ := h.areas d
    exact hxs.list.areasApart
  · exact (h.owned.inside _ _ (hhas d v hv hpresent)).2
  · have hother := hhas d' v' hv' hp'
    rw [← he] at hother
    exact Prod.ext_iff.mp (h.owned.own (hhas d v hv hp) hother)

end Steps

/-! ## Runs -/

/-- No page below the kernel is mapped at boot. -/
lemma start_inv {totalPages : ℕ} (hpages : pageFront ≤ totalPages)
    (junk : Frame → Index → PageTable) (heap : Ptr → VirtualMemory.KVirtualMemoryAllocation) :
    Inv (start totalPages junk heap) := by
  have hnone : ∀ x f, ¬Has (boot totalPages junk) x f := fun x f hx => by
    have hindex := hx.page.dirIndex_lt
    rw [(boot_table hx.table).1] at hindex
    exact absurd hindex (by decide)
  refine ⟨fun d => ⟨[], ?_, ?_⟩, boot_lawful hpages junk, boot_userTables totalPages junk, ?_, ?_⟩
  · refine ⟨⟨⟨.nil, rfl⟩, List.Pairwise.nil, ?_, ?_⟩, ?_, ?_, ?_, ?_, ?_⟩
    · simp
    · simp
    · exact show 0x100000 % 4096 = 0 by decide
    · exact show 0xC0000000 % 4096 = 0 by decide
    · exact show 0xC0000000 ≤ KERNEL_BASE.toNat by decide
    · simp
    · simp
  · simp
  · exact fun x f hx => absurd hx (hnone x f)
  · exact fun x f hx => absurd hx (hnone x f)

/-- A machine at boot with 16MB of clear memory, and no space in use. -/
def clean : State := start 0x1000 (fun _ _ => .zero) fun _ => VirtualMemory.emptyNode

end Sgos.SpaceMemory
