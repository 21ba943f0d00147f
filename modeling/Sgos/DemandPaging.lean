import Sgos.FrameRuns

/-!
# Page faults of several threads

`pagefault_handler` lets interrupts in before `MmHandleNonPresentPageFault` looks for the area, so
that threads of one space may be in the middle of faults at the same time. A thread may be
interrupted behind the search of the area, behind each `MmGetPhysicalPage`, behind the look at the
directory and behind the entry of a new table; only the end of `ArMapOnePage` runs with interrupts
off. The areas do not change.
-/
namespace Sgos.DemandPaging
open GuardedRun Paging
open VirtualMemory (KVirtualMemoryAllocation)

def ALLOC_ZERO : UInt32 := 2
def ALLOC_LAZY : UInt32 := 64

/-- A page directory, and the area that `MmGetVmaByAddress` finds for an address. -/
structure Space where
  dir : Ptr
  vma : UInt32 → Option KVirtualMemoryAllocation

/-- How far the fault of a thread is. `acquired`: `ArMapOnePage` is called; `noTable`: it has seen
no table; `gotTable`: it has a frame for one; `atTable`: it is about to turn interrupts off. -/
inductive Phase
  | idle
  | entered (addr : UInt32)
  | decided (page : UInt32) (area : KVirtualMemoryAllocation)
  | acquired (page : UInt32) (area : KVirtualMemoryAllocation) (f : Frame)
  | noTable (page : UInt32) (area : KVirtualMemoryAllocation) (f : Frame)
  | gotTable (page : UInt32) (area : KVirtualMemoryAllocation) (f g : Frame)
  | atTable (newpage : Bool) (page : UInt32) (area : KVirtualMemoryAllocation) (f : Frame)
  deriving DecidableEq

/-- `given` and `tables` record the frames taken for pages and for tables, `stored` the last value
of each word that a thread has written. -/
structure State where
  paging : Paging.State
  phase : Ptr → Phase
  given : List (UInt32 × Frame)
  tables : List (Index × Frame)
  stored : UInt32 → Index → Option PageTable

def setPhase (s : State) (t : Ptr) (p : Phase) : State :=
  { s with phase := Function.update s.phase t p }

def pageOf (addr : UInt32) : UInt32 := addrOf (frameOf addr)

def wordOf (addr : UInt32) : Index := ⟨addr.toNat / 4 % 1024, Nat.mod_lt _ (by decide)⟩

def lazyArea (area : KVirtualMemoryAllocation) : Prop := area.allocationFlag &&& ALLOC_LAZY ≠ 0

instance (area : KVirtualMemoryAllocation) : Decidable (lazyArea area) :=
  inferInstanceAs (Decidable (_ ≠ _))

/-- `mapFlag` and `MAP_ADDRESS`. -/
def mapFlag (area : KVirtualMemoryAllocation) : UInt32 :=
  MAP_ADDRESS ||| (MAP_ATTRIBUTE |||
    if area.allocationFlag &&& ALLOC_ZERO ≠ 0 then MAP_ZERO else 0)

/-- The part of `ArMapOnePage` with interrupts off. -/
def mapInTable (s : Paging.State) (d : Ptr) (newpage : Bool)
    (virtAddr physAddr attr flag : UInt32) : Paging.State :=
  let t := (s.dir d (dirIndex virtAddr)).physicalAddress
  let s := arMapTemporaryPage s (addrOf t)
  let s := if newpage then zeroFrom s t (tableIndex virtAddr) else s
  writeEntry s t (tableIndex virtAddr) physAddr attr flag

/-- The next part of the fault of `t`. An access violation, a page of another area and a page
without a frame are not handled. -/
def advance (space : Space) (s : State) (t : Ptr) : State :=
  match s.phase t with
  | .idle => s
  | .entered addr =>
      match space.vma addr with
      | none => setPhase s t .idle
      | some area =>
          if lazyArea area then setPhase s t (.decided (pageOf addr) area) else setPhase s t .idle
  | .decided page area =>
      match mmGetPhysicalPage s.paging with
      | (none, paging) => setPhase { s with paging } t .idle
      | (some f, paging) =>
          setPhase { s with paging, given := (page, f) :: s.given } t (.acquired page area f)
  | .acquired page area f =>
      if s.paging.dir space.dir (dirIndex page) = .zero then setPhase s t (.noTable page area f)
      else setPhase s t (.atTable false page area f)
  | .noTable page area f =>
      match mmGetPhysicalPage s.paging with
      | (none, paging) => setPhase { s with paging } t .idle
      | (some g, paging) =>
          setPhase { s with paging, tables := (dirIndex page, g) :: s.tables } t
            (.gotTable page area f g)
  | .gotTable page area f g =>
      setPhase { s with paging := s.paging.setDir space.dir (dirIndex page) (tableEntry g) } t
        (.atTable true page area f)
  | .atTable newpage page area f =>
      let paging := mapInTable s.paging space.dir newpage page (addrOf f)
        (area.memoryAttribute ||| PAGE_ATTR_PRESENT) (mapFlag area)
      setPhase { s with paging } t .idle

/-- Threads read and write words; `advance` goes on with a fault. -/
inductive Event
  | read (t : Ptr) (addr : UInt32)
  | write (t : Ptr) (addr : UInt32) (value : PageTable)
  | advance (t : Ptr)

/-- A store to a page that may be written. -/
def store (s : State) (d : Ptr) (addr : UInt32) (value : PageTable) : State :=
  let e := s.paging.entry d (pageOf addr)
  if e.write then
    { s with
      paging := s.paging.setEntry e.physicalAddress (wordOf addr) value
      stored := Function.update s.stored (pageOf addr)
        (Function.update (s.stored (pageOf addr)) (wordOf addr) (some value)) }
  else s

/-- An access to an absent page is a fault, and is tried again behind it. -/
def step (space : Space) (s : State) : Event → State
  | .read t addr =>
      if s.phase t = .idle then
        if (s.paging.entry space.dir (pageOf addr)).present then s
        else setPhase s t (.entered addr)
      else s
  | .write t addr value =>
      if s.phase t = .idle then
        if (s.paging.entry space.dir (pageOf addr)).present then store s space.dir addr value
        else setPhase s t (.entered addr)
      else s
  | .advance t => advance space s t

/-! ## One fault alone -/

lemma mapInTable_of_table {s : Paging.State} {d : Ptr} {v : UInt32}
    (h : s.dir d (dirIndex v) ≠ .zero) (p a flag : UInt32) :
    mapInTable s d false v p a flag = arMapOnePage s d v p a flag := by
  rw [arMapOnePage_of_table h]
  rfl

lemma mapInTable_of_new {s s' : Paging.State} {d : Ptr} {v : UInt32} {g : Frame}
    (h : s.dir d (dirIndex v) = .zero) (hget : mmGetPhysicalPage s = (some g, s'))
    (p a flag : UInt32) :
    mapInTable (s'.setDir d (dirIndex v) (tableEntry g)) d true v p a flag =
      arMapOnePage s d v p a flag := by
  have hframe :
      ((s'.setDir d (dirIndex v) (tableEntry g)).dir d (dirIndex v)).physicalAddress = g := by
    rw [setDir_dir, if_pos ⟨rfl, rfl⟩]
    exact frameOf_addrOf g
  rw [arMapOnePage_of_new h hget, mapInTable, hframe]
  rfl

/-- A fault that is not interrupted is one call of `MmAcquirePhysicalPage`. -/
theorem run_alone {space : Space} {s : State} {t : Ptr} {page : UInt32}
    {area : KVirtualMemoryAllocation} (h : s.phase t = .decided page area) :
    ∃ n, (run (step space) s (List.replicate n (.advance t))).paging =
      (mmAcquirePhysicalPage s.paging space.dir page area.memoryAttribute
        (MAP_ATTRIBUTE ||| if area.allocationFlag &&& ALLOC_ZERO ≠ 0 then MAP_ZERO else 0)).2 := by
  rcases hget : mmGetPhysicalPage s.paging with ⟨_ | f, paging⟩
  · refine ⟨1, ?_⟩
    simp [mmAcquirePhysicalPage, run, step, advance, h, hget, setPhase]
  by_cases hdir : paging.dir space.dir (dirIndex page) = .zero
  · rcases hget' : mmGetPhysicalPage paging with ⟨_ | g, paging'⟩
    · refine ⟨3, ?_⟩
      simp [mmAcquirePhysicalPage, run, step, advance, h, hget, hget', setPhase, hdir,
        arMapOnePage_of_full hdir hget']
    · refine ⟨5, ?_⟩
      simp [mmAcquirePhysicalPage, run, step, advance, h, hget, hget', setPhase, hdir,
        mapInTable_of_new hdir hget', mapFlag]
  · refine ⟨3, ?_⟩
    simp [mmAcquirePhysicalPage, run, step, advance, h, hget, setPhase, hdir,
      mapInTable_of_table hdir, mapFlag]

/-! ## The law -/

/-- A fault on `page` that has the frame `f` and has not mapped it yet. -/
def Phase.Holds (p : Phase) (page : UInt32) (f : Frame) : Prop :=
  match p with
  | .acquired q _ g | .noTable q _ g | .gotTable q _ g _ | .atTable _ q _ g => q = page ∧ g = f
  | _ => False

/-- A fault that has the frame `g` for the table at `i`. -/
def Phase.HoldsTable (p : Phase) (i : Index) (g : Frame) : Prop :=
  match p with
  | .gotTable page _ _ g' => dirIndex page = i ∧ g' = g
  | _ => False

/-- Each page of a lazy area has one frame, taken frames are mapped or about to be, and stored
values are there. -/
structure Good (space : Space) (s : State) : Prop where
  once : (s.given.map Prod.fst).Nodup
  exact : ∀ addr area, space.vma addr = some area → lazyArea area →
    (s.paging.entry space.dir (pageOf addr)).present = true →
      ∃ f, (pageOf addr, f) ∈ s.given ∧ (s.paging.entry space.dir (pageOf addr)).Maps f
  mapped : ∀ page f, (page, f) ∈ s.given →
    (∃ t, (s.phase t).Holds page f) ∨ (s.paging.entry space.dir page).Maps f
  tables : ∀ i g, (i, g) ∈ s.tables →
    (∃ t, (s.phase t).HoldsTable i g) ∨ s.paging.dir space.dir i = tableEntry g
  kept : ∀ page j value, s.stored page j = some value →
    ∃ f, (s.paging.entry space.dir page).Maps f ∧ s.paging.mem f j = value

/-! ## Conditions -/

/-- There is a frame when one is asked for. When a fault takes a frame, its page is still absent
and no other fault has taken one for it; when it puts a new table in the directory there is still
none, and no entry of the new one is present; when it clears the table no fault has mapped a page
there that would be cleared. A store is to a page that was given a frame. -/
def StepOk (space : Space) (s : State) : Event → Prop
  | .read _ _ => True
  | .write t addr _ => s.phase t = .idle →
      (s.paging.entry space.dir (pageOf addr)).present = true → ∃ f, (pageOf addr, f) ∈ s.given
  | .advance t =>
      match s.phase t with
      | .decided page _ => (mmGetPhysicalPage s.paging).1 ≠ none ∧
          (s.paging.entry space.dir page).present = false ∧ ∀ u f, ¬(s.phase u).Holds page f
      | .noTable _ _ _ => (mmGetPhysicalPage s.paging).1 ≠ none
      | .gotTable page _ _ g => s.paging.dir space.dir (dirIndex page) = .zero ∧
          ∀ j, (s.paging.mem g j).present = false
      | .atTable true page _ _ => ∀ j, tableIndex page ≤ j →
          (s.paging.mem (s.paging.dir space.dir (dirIndex page)).physicalAddress j).present = false
      | _ => True

/-- At the start no page of a lazy area is present and no fault is in progress; tables are in use
and apart, and the page above the window is mapped where the boot mapping puts it. -/
structure Fresh (space : Space) (s : State) : Prop where
  sound : Sound s.paging
  spill : (s.paging.mem bootTable spillIndex).present = true
  inUse : ∀ t, s.paging.IsTable t → s.paging.Managed t → s.paging.pageRef t ≠ 0
  apart : ∀ i j, s.paging.dir space.dir i ≠ .zero → s.paging.dir space.dir j ≠ .zero →
    (s.paging.dir space.dir i).physicalAddress = (s.paging.dir space.dir j).physicalAddress → i = j
  absent : ∀ addr area, space.vma addr = some area → lazyArea area →
    (s.paging.entry space.dir (pageOf addr)).present = false
  phase : ∀ t, s.phase t = .idle
  given : s.given = []
  tables : s.tables = []
  stored : ∀ page j, s.stored page j = none

end Sgos.DemandPaging
