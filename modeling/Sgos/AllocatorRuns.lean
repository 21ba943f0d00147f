import Sgos.AllocatorLaw
import Sgos.GuardedRun

/-!
# Runs of the allocators

Allocations, frees of live pointers and writes of the clients, in any order, keep the heap law.
-/
namespace Sgos.Allocator
open LinkedChain Tiling GuardedRun

/-- The bytes at an address, read as a descriptor. -/
structure Node where
  prev : Option Ptr
  next : Option Ptr
  hashPrev : Option Ptr
  hashNext : Option Ptr
  nodeAttribute : UInt32
  size : UInt32

def writeNode (s : Heap) (p : Ptr) (n : Node) : Heap :=
  { s with
    prev := Function.update s.prev p n.prev
    next := Function.update s.next p n.next
    hashPrev := Function.update s.hashPrev p n.hashPrev
    hashNext := Function.update s.hashNext p n.hashNext
    nodeAttribute := Function.update s.nodeAttribute p n.nodeAttribute
    size := Function.update s.size p n.size }

/-- Some nodes, in address order, and buckets give the shape of the heap. -/
def Lawful {v : Variant} (a : Arena v) (s : Heap) (live : Ptr → Option UInt32) : Prop :=
  ∃ nodes buckets, Shape a s live nodes buckets

/-- The heap invariant, and what it says about the live blocks: `live` gives the size each was
requested with. -/
structure HeapLaw {v : Variant} (a : Arena v) (s : Heap) (live : Ptr → Option UInt32) :
    Prop where
  shape : Lawful a s live
  inside : ∀ p n, live p = some n →
    a.base.toNat ≤ p.toNat ∧ p.toNat + n.toNat ≤ a.base.toNat + a.size.toNat
  disjoint : ∀ p q n m, live p = some n → live q = some m → p ≠ q →
    p.toNat + n.toNat ≤ q.toNat ∨ q.toNat + m.toNat ≤ p.toNat

section Law
variable {v : Variant} {a : Arena v} {s : Heap} {live : Ptr → Option UInt32} {nodes : List Ptr}
  {buckets : ℕ → List Ptr}

/-- A live block lies behind the descriptor of an occupied node. -/
lemma Blocks.block (h : Blocks a s live nodes) {p : Ptr} {n : UInt32} (hp : live p = some n) :
    ∃ x ∈ nodes, p = x + SIZEOF_NODE ∧ p.toNat = x.toNat + SIZEOF_NODE.toNat ∧
      n.toNat ≤ (s.size x).toNat := by
  obtain ⟨x, hx, hocc, rfl⟩ := h.lived p n hp
  obtain ⟨m, hm, hpos, hle⟩ := h.owned x hx hocc
  obtain rfl := Option.some.inj (hm.symm.trans hp)
  obtain ⟨-, -, hend⟩ := h.toLayout.bounds hx
  exact ⟨x, hx, rfl, toNat_add_of_lt (by omega), hle⟩

theorem Shape.heapLaw (h : Shape a s live nodes buckets) : HeapLaw a s live where
  shape := ⟨nodes, buckets, h⟩
  inside p n hp := by
    obtain ⟨x, hx, -, hpos, hle⟩ := h.toBlocks.block hp
    obtain ⟨hlow, hhigh, -⟩ := h.toLayout.bounds hx
    omega
  disjoint p q n m hp hq hne := by
    obtain ⟨x, hx, hpx, hpos, hle⟩ := h.toBlocks.block hp
    obtain ⟨y, hy, hqy, hqos, hle'⟩ := h.toBlocks.block hq
    have hxy : y ≠ x := by
      rintro rfl
      exact hne (hpx.trans hqy.symm)
    have happart := h.tiles.apart hx hy hxy
    simp only [span] at happart
    omega

/-- A write that hits no descriptor leaves the heap in shape. -/
lemma Shape.write (h : Shape a s live nodes buckets) {p : Ptr} (hp : p ∉ nodes) (n : Node) :
    Shape a (writeNode s p n) live nodes buckets := by
  have hne : ∀ x ∈ nodes, x ≠ p := fun x hx he => hp (he ▸ hx)
  have hfree : ∀ x ∈ nodes, isFreeNode (writeNode s p n) x = isFreeNode s x := fun x hx => by
    simp only [isFreeNode, writeNode, Function.update_of_ne (hne x hx)]
  have hsize : ∀ x ∈ nodes, (writeNode s p n).size x = s.size x := fun x hx =>
    Function.update_of_ne (hne x hx) _ _
  refine ⟨⟨⟨?_, ?_⟩, fun x hx hxo => ?_, fun q m hq => ?_⟩, ⟨fun j hj => ?_, fun j hj x => ?_⟩,
    h.quiet.congr fun x hx hxf => by rwa [hfree x hx] at hxf⟩
  · exact h.chain.congr (fun x hx => Function.update_of_ne (hne x hx) _ _)
      fun x hx => Function.update_of_ne (hne x hx) _ _
  · exact h.tiles.congr fun x hx => by rw [span, span, hsize x hx]
  · rw [hsize x hx]
    exact h.owned x hx (by rwa [hfree x hx] at hxo)
  · obtain ⟨x, hx, hxo, rfl⟩ := h.lived q m hq
    exact ⟨x, hx, by rwa [hfree x hx], rfl⟩
  · have hmem : ∀ x ∈ buckets j, x ∈ nodes := fun x hx => ((h.binned.mem j hj x).mp hx).1.1
    exact (h.binned.chain j hj).congr
      (fun x hx => Function.update_of_ne (hne x (hmem x hx)) _ _)
      fun x hx => Function.update_of_ne (hne x (hmem x hx)) _ _
  · rw [h.binned.mem j hj]
    refine and_congr_left' (and_congr_right fun hx => ?_) |>.trans (and_congr_right fun hx => ?_)
    · rw [hfree x hx]
    · rw [hashIndex, hashIndex, hsize x hx.1]

end Law

/-! ## The kernel's allocator -/

/-- The heap, and the live pointers with the sizes they were requested with. -/
structure State where
  heap : Heap
  live : Ptr → Option UInt32

/-- What the clients know of an allocation. -/
def record (live : Ptr → Option UInt32) (p : Option Ptr) (siz : UInt32) : Ptr → Option UInt32 :=
  match p with
  | some p => Function.update live p (some siz)
  | none => live

inductive Event
  | alloc (siz : UInt32)
  | free (p : Ptr)
  | write (p : Ptr) (n : Node)

def step (s : State) : Event → State
  | .alloc siz =>
      let (p, heap) := mmAlloc s.heap siz
      ⟨heap, record s.live p siz⟩
  | .free p => ⟨(mmFree s.heap (some p)).2, Function.update s.live p none⟩
  | .write p n => { s with heap := writeNode s.heap p n }

/-- Live pointers are freed, and no descriptor is overwritten. -/
def StepOk (s : State) : Event → Prop
  | .alloc _ => True
  | .free p => (s.live p).isSome
  | .write p _ => ¬ Reaches s.heap.next s.heap.firstNode p

def start (a : Arena kernelVariant) (s : Heap) : State :=
  ⟨mmInitBlock s a.base a.size, fun _ => none⟩

section Steps
variable {v : Variant} {a : Arena v} {s : Heap} {live : Ptr → Option UInt32}

lemma Lawful.allocate (h : Lawful a s live) {siz n : UInt32} (hpos : n ≠ 0)
    (hn : n.toNat ≤ siz.toNat) :
    Lawful a (allocate v s siz).2 (record live (allocate v s siz).1 n) := by
  obtain ⟨nodes, buckets, hshape⟩ := h
  have hpos : 0 < n.toNat := Nat.pos_of_ne_zero fun h0 => hpos (UInt32.toNat_inj.mp h0)
  rcases hshape.allocate hpos hn with he | ⟨x, nodes', buckets', he, -, hshape'⟩
  · rw [he]
    exact ⟨nodes, buckets, hshape⟩
  · rw [he]
    exact ⟨nodes', buckets', hshape'⟩

/-- The descriptor of a live block says that it is occupied, and freeing it keeps the law. -/
lemma Lawful.free (h : Lawful a s live) {p : Ptr} (hp : (live p).isSome) :
    isFreeNode s (p - SIZEOF_NODE) = false ∧
      Lawful a (coalesce v (makeFree s (p - SIZEOF_NODE)) (p - SIZEOF_NODE))
        (Function.update live p none) := by
  obtain ⟨nodes, buckets, hshape⟩ := h
  obtain ⟨n, hn⟩ := Option.isSome_iff_exists.mp hp
  obtain ⟨x, hx, hocc, rfl⟩ := hshape.lived p n hn
  rw [UInt32.add_sub_cancel]
  exact ⟨hocc, hshape.coalesce hx hocc⟩

lemma Lawful.write (h : Lawful a s live) {p : Ptr} (hp : ¬ Reaches s.next s.firstNode p)
    (n : Node) : Lawful a (writeNode s p n) live := by
  obtain ⟨nodes, buckets, hshape⟩ := h
  exact ⟨nodes, buckets, hshape.write (fun hm => hp (hshape.chain.reaches_iff.mpr hm)) n⟩

end Steps

lemma step_lawful (a : Arena kernelVariant) (s : State) (e : Event) (h : Lawful a s.heap s.live)
    (hok : StepOk s e) : Lawful a (step s e).heap (step s e).live := by
  cases e with
  | alloc siz =>
    rw [step, mmAlloc]
    split_ifs with hzero
    · exact h
    · exact h.allocate hzero (Nat.le_refl _)
  | free p =>
    obtain ⟨hocc, hlaw⟩ := h.free hok
    simp only [step, mmFree, hocc, Bool.false_eq_true, if_false]
    exact hlaw
  | write p n => exact h.write hok n

/-! ## The library's allocator -/

/-- The 256MB that `SysAllocateMemory` returns. -/
abbrev LibraryBlock := {p : Ptr // p ≠ 0 ∧ p.toNat + 0x10000000 ≤ addressSpace}

def LibraryBlock.arena (p : LibraryBlock) : Arena libraryVariant where
  base := p.1
  size := 256 * 1024 * 1024
  base_ne := p.2.1
  end_le := p.2.2
  last := by decide

structure LibraryState where
  library : Library
  live : Ptr → Option UInt32

inductive LibraryEvent
  | malloc (mem : Option LibraryBlock) (siz : UInt32)
  | free (p : Ptr)
  | write (p : Ptr) (n : Node)

/-- A call that does not return leaves the state as it is. -/
def libraryStep (s : LibraryState) : LibraryEvent → LibraryState
  | .malloc mem siz =>
      match malloc s.library (mem.map (·.1)) siz with
      | some (p, library) => ⟨library, record s.live p siz⟩
      | none => s
  | .free p =>
      match free s.library (some p) with
      | some library => ⟨library, Function.update s.live p none⟩
      | none => s
  | .write p n => { s with library := { s.library with heap := writeNode s.library.heap p n } }

def LibraryStepOk (s : LibraryState) : LibraryEvent → Prop
  | .malloc _ _ => True
  | .free p => (s.live p).isSome
  | .write p _ => ¬ Reaches s.library.heap.next s.library.heap.firstNode p

/-- The statics at the start of a process. -/
def libraryStart (s : Heap) : LibraryState :=
  ⟨⟨{ s with freeTable := fun _ => none, firstNode := none }, 0⟩, fun _ => none⟩

/-- Before the first allocation nothing is live; afterwards the mutex is open between calls, and
the law holds of an arena of 256MB. -/
def LibraryLawful (s : LibraryState) : Prop :=
  (s.library.heap.firstNode = none ∧ ∀ p, s.live p = none) ∨
    s.library.mutex = 1 ∧ ∃ p : LibraryBlock, Lawful p.arena s.library.heap s.live

lemma Lawful.firstNode {v : Variant} {a : Arena v} {s : Heap} {live : Ptr → Option UInt32}
    (h : Lawful a s live) : s.firstNode ≠ none := by
  obtain ⟨nodes, buckets, hshape⟩ := h
  intro hnone
  have hnil : nodes = [] := List.head?_eq_none_iff.mp (hshape.chain.head_eq.symm.trans hnone)
  have htiles := hshape.tiles
  rw [hnil] at htiles
  have hsize := a.le_size
  change a.base.toNat = _ at htiles
  omega

/-- On an initialised heap with an open mutex the critical section is entered and left. -/
lemma malloc_of_init {s : Library} (hm : s.mutex = 1) (hf : s.heap.firstNode ≠ none)
    (mem : Option Ptr) {siz : UInt32} (hsiz : siz ≠ 0) :
    malloc s mem siz = some ((allocate libraryVariant s.heap (if siz < 8 then 8 else siz)).1,
      ⟨(allocate libraryVariant s.heap (if siz < 8 then 8 else siz)).2, 1⟩) := by
  have hlock : lock s = some { s with mutex := 0 } := by
    rw [lock, hm]
    rfl
  simp only [malloc, if_neg hsiz, if_neg hf, hlock, Option.bind_eq_bind, Option.bind_some]
  rfl

lemma libraryStep_lawful (s : LibraryState) (e : LibraryEvent) (h : LibraryLawful s)
    (hok : LibraryStepOk s e) : LibraryLawful (libraryStep s e) := by
  cases e with
  | malloc mem siz =>
    by_cases hsiz : siz = 0
    · simp only [libraryStep, malloc, if_pos hsiz]
      exact h
    have hle : siz.toNat ≤ (if siz < 8 then 8 else siz : UInt32).toNat := by
      split_ifs with hlt
      · exact Nat.le_of_lt (UInt32.lt_iff_toNat_lt.mp hlt)
      · exact Nat.le_refl _
    rcases h with ⟨hfirst, hlive⟩ | ⟨hmutex, p, hlaw⟩
    · cases mem with
      | none =>
        have hnone : malloc s.library none siz = none := by
          simp only [malloc, if_neg hsiz, if_pos hfirst, allocationInit, Option.bind_eq_bind,
            Option.bind_none]
        simp only [libraryStep, Option.map_none, hnone]
        exact .inl ⟨hfirst, hlive⟩
      | some p =>
        have hlaw : Lawful p.arena (allocationInit s.library (some p.1)).heap s.live := by
          obtain ⟨buckets, hshape⟩ := initBlock_shape p.arena s.library.heap
          rw [show s.live = fun _ => none from funext hlive]
          exact ⟨_, buckets, hshape⟩
        have hcall := malloc_of_init rfl hlaw.firstNode (some p.1) hsiz
        have hsame : malloc s.library (some p.1) siz =
            malloc (allocationInit s.library (some p.1)) (some p.1) siz := by
          simp only [malloc, if_neg hsiz, if_pos hfirst, if_neg hlaw.firstNode]
        simp only [libraryStep, Option.map_some, hsame, hcall]
        exact .inr ⟨rfl, p, hlaw.allocate hsiz hle⟩
    · have hcall := malloc_of_init hmutex hlaw.firstNode (mem.map (·.1)) hsiz
      simp only [libraryStep, hcall]
      exact .inr ⟨rfl, p, hlaw.allocate hsiz hle⟩
  | free p =>
    have hlive : (s.live p).isSome := hok
    rcases h with ⟨-, hnone⟩ | ⟨hmutex, q, hlaw⟩
    · rw [hnone] at hlive
      cases hlive
    · obtain ⟨hocc, hlaw'⟩ := hlaw.free hlive
      have hcall : free s.library (some p) = some ⟨coalesce libraryVariant
          (makeFree s.library.heap (p - SIZEOF_NODE)) (p - SIZEOF_NODE), 1⟩ := by
        simp only [free, hocc, Bool.false_eq_true, if_false, lock, hmutex]
        rfl
      simp only [libraryStep, hcall]
      exact .inr ⟨rfl, q, hlaw'⟩
  | write p n =>
    rcases h with hnone | ⟨hmutex, q, hlaw⟩
    · exact .inl hnone
    · exact .inr ⟨hmutex, q, hlaw.write hok n⟩

/-! ## Whole runs -/

/-- The law of the library's heap, from the first allocation on. -/
def LibraryLaw (s : LibraryState) : Prop :=
  (s.library.heap.firstNode = none ∧ ∀ p, s.live p = none) ∨
    ∃ p : LibraryBlock, HeapLaw p.arena s.library.heap s.live

lemma Lawful.heapLaw {v : Variant} {a : Arena v} {s : Heap} {live : Ptr → Option UInt32}
    (h : Lawful a s live) : HeapLaw a s live := by
  obtain ⟨nodes, buckets, hshape⟩ := h
  exact hshape.heapLaw

/-- Both allocators keep their heap in shape: from any memory, in every run that frees live
pointers only and overwrites no descriptor. -/
theorem run_heapLaw (a : Arena kernelVariant) (s : Heap) {es : List Event}
    (hok : Guarded step StepOk (start a s) es) {ls : List LibraryEvent}
    (hlok : Guarded libraryStep LibraryStepOk (libraryStart s) ls) :
    HeapLaw a (run step (start a s) es).heap (run step (start a s) es).live ∧
      LibraryLaw (run libraryStep (libraryStart s) ls) := by
  constructor
  · obtain ⟨buckets, hshape⟩ := initBlock_shape a s
    exact (hok.invariant (fun s => Lawful a s.heap s.live) (step_lawful a)
      ⟨_, buckets, hshape⟩).heapLaw
  · have hlaw := hlok.invariant LibraryLawful libraryStep_lawful (.inl ⟨rfl, fun _ => rfl⟩)
    exact hlaw.imp_right fun ⟨_, p, hp⟩ => ⟨p, hp.heapLaw⟩

/-- The kernel's arena. -/
def kernelArena : Arena kernelVariant where
  base := 0xC0400000
  size := 0xE0000000 - 0xC0400000
  base_ne := by decide
  end_le := by decide
  last := by decide

def zeroHeap : Heap :=
  ⟨fun _ => none, fun _ => none, fun _ => none, fun _ => none, fun _ => 0, fun _ => 0,
    fun _ => none, none⟩

/-- Three blocks, of which the first and then the middle one are freed. -/
theorem run_heapLaw_threeBlocks :
    HeapLaw kernelArena
        (run step (start kernelArena zeroHeap)
          [.alloc 100, .alloc 1, .alloc 5000, .free 0xC0400018, .free 0xC0400094]).heap
        (run step (start kernelArena zeroHeap)
          [.alloc 100, .alloc 1, .alloc 5000, .free 0xC0400018, .free 0xC0400094]).live ∧
      LibraryLaw (run libraryStep (libraryStart zeroHeap)
        [.malloc (some ⟨0x10000000, by decide⟩) 3, .malloc none 64, .free 0x10000018]) :=
  run_heapLaw kernelArena zeroHeap (by
    refine ⟨trivial, trivial, trivial, ?_, ?_, trivial⟩
    · change (Option.isSome _ : Prop); decide +kernel
    · change (Option.isSome _ : Prop); decide +kernel) (by
    refine ⟨trivial, trivial, ?_, trivial⟩
    change (Option.isSome _ : Prop); decide +kernel)

end Sgos.Allocator
