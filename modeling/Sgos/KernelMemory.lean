import Mathlib.Algebra.BigOperators.Group.List.Basic
import Mathlib.Algebra.Ring.Nat
import Sgos.AllocatorRuns

/-!
# The accounting of kernel memory

`MmAllocateKernelMemory` and `MmFreeKernelMemory` of `kernel/mm/kernelmemory.c`: the kernel's
allocator behind a count of the bytes that the current space uses.
-/
namespace Sgos

/-- The counts of bytes of a space, and their limits. -/
structure KMemoryInformation where
  userMemoryAllocated : Int32
  kernelMemoryAllocated : Int32
  userMemoryCapacity : Int32
  kernelMemoryCapacity : Int32

/-- The limits that `MmInitializeSpaceBasicInformation` sets in a cleared space. -/
def mmInitializeSpaceBasicInformation : KMemoryInformation where
  userMemoryAllocated := 0
  kernelMemoryAllocated := 0
  userMemoryCapacity := 0x40000000
  kernelMemoryCapacity := 0x01000000

/-- A count of bytes after `siz` bytes were freed. -/
def refund (allocated : Int32) (siz : UInt32) : Int32 :=
  let allocated := allocated - siz.toInt32
  if allocated < 0 then 0 else allocated

namespace KernelMemory
open Allocator GuardedRun LinkedChain

/-- The alignment of a request to 4 bytes. -/
def align (siz : UInt32) : UInt32 := if siz &&& 3 ≠ 0 then (siz &&& ~~~3) + 4 else siz

/-- `info` belongs to the current space. -/
def mmAllocateKernelMemory (heap : Heap) (info : KMemoryInformation) (siz : UInt32) :
    Option Ptr × Heap × KMemoryInformation :=
  let siz := align siz
  let info := { info with
    kernelMemoryAllocated := info.kernelMemoryAllocated + siz.toInt32 }
  if info.kernelMemoryAllocated > info.kernelMemoryCapacity then
    (none, heap, { info with
      kernelMemoryAllocated := info.kernelMemoryAllocated - siz.toInt32 })
  else
    let (ptr, heap) := mmAlloc heap siz
    (ptr, heap, info)

def mmFreeKernelMemory (heap : Heap) (info : KMemoryInformation) (p : Option Ptr) :
    Heap × KMemoryInformation :=
  let (siz, heap) := mmFree heap p
  (heap, { info with kernelMemoryAllocated := refund info.kernelMemoryAllocated siz })

/-! ## Calls as events -/

/-- A block that was allocated while the space was current, and what was charged for it. -/
structure Block where
  ptr : Ptr
  charge : UInt32
  deriving DecidableEq, Repr

/-- The heap with all its live blocks, the count of the space, and the live blocks charged to it. -/
structure State where
  heap : Heap
  live : Ptr → Option UInt32
  info : KMemoryInformation
  charged : List Block

inductive Event
  | allocate (siz : UInt32)
  | free (b : Block)
  | write (p : Ptr) (n : Node)

def step (s : State) : Event → State
  | .allocate siz =>
      match mmAllocateKernelMemory s.heap s.info siz with
      | (some p, heap, info) =>
          ⟨heap, Function.update s.live p (some (align siz)), info, ⟨p, align siz⟩ :: s.charged⟩
      | (none, heap, info) => ⟨heap, s.live, info, s.charged⟩
  | .free b =>
      match mmFreeKernelMemory s.heap s.info (some b.ptr) with
      | (heap, info) => ⟨heap, Function.update s.live b.ptr none, info, s.charged.erase b⟩
  | .write p n => { s with heap := writeNode s.heap p n }

/-- Live blocks are freed, and no descriptor is overwritten. -/
def Proper (s : State) : Event → Prop
  | .allocate _ => True
  | .free b => b ∈ s.charged
  | .write p _ => ¬Reaches s.heap.next s.heap.firstNode p

/-- The sum of the charges. -/
def total (charged : List Block) : ℕ := (charged.map fun b => b.charge.toNat).sum

/-- The space uses what is charged to it, beyond the `base` it started with. -/
def Balanced (base : ℕ) (s : State) : Prop :=
  s.info.kernelMemoryAllocated.toInt = base + total s.charged

/-- The limit refuses a request of `siz` bytes. -/
def Refused (s : State) (siz : UInt32) : Prop :=
  s.info.kernelMemoryAllocated + siz.toInt32 > s.info.kernelMemoryCapacity

instance (s : State) (siz : UInt32) : Decidable (Refused s siz) :=
  inferInstanceAs (Decidable (_ > _))

/-- A free block is long enough. -/
def Fits (s : State) (siz : UInt32) : Prop :=
  searchTable kernelVariant.maxHashEntry s.heap siz
    (calcHashIndex kernelVariant.maxHashEntry (siz + SIZEOF_NODE)) ≠ none

/-- A request is empty, refused or finds room. A block that is freed is as long as its charge, or
nothing else is counted. -/
def StepOk (s : State) : Event → Prop
  | .allocate siz => align siz = 0 ∨ Refused s (align siz) ∨ Fits s (align siz)
  | .free b =>
      s.heap.size (b.ptr - SIZEOF_NODE) = b.charge ∨
        s.info.kernelMemoryAllocated.toInt = b.charge.toNat
  | .write _ _ => True

instance (s : State) : ∀ e : Event, Decidable (StepOk s e)
  | .allocate _ => inferInstanceAs (Decidable (_ ∨ Refused _ _ ∨ _ ≠ _))
  | .free _ => inferInstanceAs (Decidable (_ = _ ∨ _ = _))
  | .write _ _ => .isTrue trivial

/-! ## Counts -/

lemma toInt_toInt32 {n : UInt32} (h : n.toNat < 2147483648) : n.toInt32.toInt = n.toNat := by
  have hn : n.toInt32.toInt = n.toBitVec.toInt := rfl
  rw [hn, BitVec.toInt_eq_toNat_of_lt]
  · rfl
  · rw [UInt32.toNat_toBitVec]
    omega

/-- Charging and refunding in 32 bits. -/
lemma toInt_add {a : Int32} {n : UInt32} {k : ℕ} (ha : a.toInt = k)
    (hn : k + n.toNat < 2147483648) : (a + n.toInt32).toInt = (k + n.toNat : ℕ) := by
  rw [Int32.toInt_add, ha, toInt_toInt32 (by omega), Int.bmod_def]
  omega

lemma toInt_sub {a : Int32} {n : UInt32} {k : ℕ} (ha : a.toInt = k) (hk : k < 2147483648)
    (hn : n.toNat < 2147483648) : (a - n.toInt32).toInt = (k : ℤ) - n.toNat := by
  rw [Int32.toInt_sub, ha, toInt_toInt32 hn, Int.bmod_def]
  omega

lemma toInt_refund {a : Int32} {n : UInt32} {k : ℕ} (ha : a.toInt = k) (hk : k < 2147483648)
    (hn : n.toNat < 2147483648) : (refund a n).toInt = max 0 ((k : ℤ) - n.toNat) := by
  have hsub := toInt_sub ha hk hn
  rw [refund]
  split_ifs with hneg
  · rw [Int32.lt_iff_toInt_lt, hsub, Int32.toInt_zero] at hneg
    rw [Int32.toInt_zero]
    omega
  · rw [Int32.lt_iff_toInt_lt, hsub, Int32.toInt_zero] at hneg
    rw [hsub]
    omega

/-- A charge changes the count unless it is empty. -/
lemma add_ne {a : Int32} {n : UInt32} (hn : n ≠ 0) : (a + n.toInt32).toInt ≠ a.toInt := by
  intro h
  have hzero : n.toInt32 = 0 := by simpa using Int32.toInt_inj.mp h
  exact hn (congrArg Int32.toUInt32 hzero)

lemma total_cons (b : Block) (charged : List Block) :
    total (b :: charged) = b.charge.toNat + total charged := List.sum_cons

lemma total_erase {b : Block} {charged : List Block} (hb : b ∈ charged) :
    total charged = b.charge.toNat + total (charged.erase b) := by
  exact (List.sum_map_erase _ hb).symm

/-! ## One call -/

/-- The heap is in shape, and the charged blocks are live. -/
structure Sound (s : State) : Prop where
  lawful : Lawful kernelArena s.heap s.live
  live_eq : ∀ b ∈ s.charged, s.live b.ptr = some b.charge
  nodup : s.charged.Nodup
  capacity : s.info.kernelMemoryCapacity = 0x01000000
  le_capacity : s.info.kernelMemoryAllocated ≤ s.info.kernelMemoryCapacity

section Call
variable {s : State} {base : ℕ}

lemma Sound.toInt_le (h : Sound s) : s.info.kernelMemoryAllocated.toInt ≤ 16777216 := by
  have hle := h.le_capacity
  rw [h.capacity] at hle
  exact Int32.le_iff_toInt_le.mp hle

/-- The count after a request that is not refused. -/
def charge (info : KMemoryInformation) (siz : UInt32) : KMemoryInformation :=
  { info with kernelMemoryAllocated := info.kernelMemoryAllocated + siz.toInt32 }

/-- A refusal takes the charge back. -/
lemma allocate_eq (s : State) (siz : UInt32) :
    mmAllocateKernelMemory s.heap s.info siz =
      if Refused s (align siz) then (none, s.heap, s.info)
      else ((mmAlloc s.heap (align siz)).1, (mmAlloc s.heap (align siz)).2,
        charge s.info (align siz)) := by
  have hback : s.info.kernelMemoryAllocated + (align siz).toInt32 - (align siz).toInt32 =
      s.info.kernelMemoryAllocated := Int32.add_sub_cancel ..
  unfold mmAllocateKernelMemory
  dsimp only
  rw [hback]
  rfl

/-- A refused or empty request changes nothing. -/
lemma allocate_nothing {siz : UInt32} (h : Refused s (align siz) ∨ align siz = 0) :
    mmAllocateKernelMemory s.heap s.info siz = (none, s.heap, s.info) := by
  rw [allocate_eq]
  split_ifs with hrefused
  · rfl
  · have hzero := h.resolve_left hrefused
    have hsame : charge s.info (align siz) = s.info := by
      have hadd : s.info.kernelMemoryAllocated + (0 : UInt32).toInt32 =
          s.info.kernelMemoryAllocated := Int32.add_zero _
      rw [hzero, charge, hadd]
    rw [hsame, mmAlloc, if_pos hzero]

/-- A request without room is charged all the same. -/
lemma allocate_failed {siz : UInt32} (hallowed : ¬Refused s (align siz)) (hpos : align siz ≠ 0)
    (hfits : ¬Fits s (align siz)) :
    mmAllocateKernelMemory s.heap s.info siz =
      (none, s.heap, charge s.info (align siz)) := by
  rw [allocate_eq, if_neg hallowed, mmAlloc, if_neg hpos, allocate, not_not.mp hfits]

/-- A request with room gets a block that was not live. -/
lemma Sound.allocate (h : Sound s) {siz : UInt32} (hallowed : ¬Refused s (align siz))
    (hpos : align siz ≠ 0) (hfits : Fits s (align siz)) :
    ∃ p heap, mmAllocateKernelMemory s.heap s.info siz =
        (some p, heap, charge s.info (align siz)) ∧ s.live p = none ∧
      Lawful kernelArena heap (Function.update s.live p (some (align siz))) ∧
      (align siz).toNat < 0x20000000 := by
  obtain ⟨nodes, buckets, hshape⟩ := h.lawful
  have hlt : 0 < (align siz).toNat := Nat.pos_of_ne_zero fun h0 => hpos (UInt32.toNat_inj.mp h0)
  have hsome : ∃ p, (Allocator.allocate kernelVariant s.heap (align siz)).1 = some p := by
    obtain ⟨found, hfound⟩ := Option.ne_none_iff_exists'.mp hfits
    rw [Allocator.allocate, hfound]
    exact ⟨_, rfl⟩
  rcases hshape.allocate hlt le_rfl with he | ⟨x, nodes', buckets', he, hnew, hshape'⟩
  · obtain ⟨p, hp⟩ := hsome
    rw [he] at hp
    cases hp
  · refine ⟨x + SIZEOF_NODE, _, ?_, hnew, ⟨nodes', buckets', hshape'⟩, ?_⟩
    · rw [allocate_eq, if_neg hallowed, mmAlloc, if_neg hpos, he]
    · obtain ⟨y, hy, -, -, hle⟩ := hshape'.toBlocks.block
        (Function.update_self (x + SIZEOF_NODE) (some (align siz)) s.live)
      have hbounds := (hshape'.toLayout.bounds hy).2.1
      have hend : kernelArena.base.toNat + kernelArena.size.toNat = 0xE0000000 := by decide
      have hbase : kernelArena.base.toNat = 0xC0400000 := by decide
      have hlow := (hshape'.toLayout.bounds hy).1
      omega

/-- A live block is freed, and its length refunded. -/
lemma Sound.free (h : Sound s) {b : Block} (hb : b ∈ s.charged) :
    ∃ heap, mmFree s.heap (some b.ptr) = (s.heap.size (b.ptr - SIZEOF_NODE), heap) ∧
      Lawful kernelArena heap (Function.update s.live b.ptr none) ∧
      b.charge.toNat ≤ (s.heap.size (b.ptr - SIZEOF_NODE)).toNat ∧
      (s.heap.size (b.ptr - SIZEOF_NODE)).toNat < 0x20000000 := by
  have hlive := h.live_eq b hb
  obtain ⟨hocc, hlaw⟩ := h.lawful.free (Option.isSome_of_mem hlive)
  obtain ⟨nodes, buckets, hshape⟩ := h.lawful
  obtain ⟨x, hx, hptr, -, hle⟩ := hshape.toBlocks.block hlive
  have hnode : b.ptr - SIZEOF_NODE = x := by rw [hptr, UInt32.add_sub_cancel]
  refine ⟨_, ?_, hlaw, hnode ▸ hle, ?_⟩
  · simp only [mmFree, hocc, Bool.false_eq_true, if_false]
  · obtain ⟨hlow, hbounds, -⟩ := hshape.toLayout.bounds hx
    have hend : kernelArena.base.toNat + kernelArena.size.toNat = 0xE0000000 := by decide
    have hbase : kernelArena.base.toNat = 0xC0400000 := by decide
    rw [hnode]
    omega

/-- What is charged is balanced after a request exactly if the request meets no defect. -/
lemma Sound.step_allocate (h : Sound s) (hbal : Balanced base s) (siz : UInt32) :
    (Balanced base (step s (.allocate siz)) ↔ StepOk s (.allocate siz)) ∧
      (StepOk s (.allocate siz) → Sound (step s (.allocate siz))) := by
  by_cases hnothing : Refused s (align siz) ∨ align siz = 0
  · have hok : StepOk s (.allocate siz) := by
      rcases hnothing with hrefused | hzero
      · exact .inr (.inl hrefused)
      · exact .inl hzero
    have hstep : step s (.allocate siz) = s := by
      simp only [step, allocate_nothing hnothing]
    rw [hstep]
    exact ⟨⟨fun _ => hok, fun _ => hbal⟩, fun _ => h⟩
  · rw [not_or] at hnothing
    obtain ⟨hallowed, hpos⟩ := hnothing
    have hiff : StepOk s (.allocate siz) ↔ Fits s (align siz) := by simp [StepOk, hpos, hallowed]
    rw [hiff]
    by_cases hfits : Fits s (align siz)
    · obtain ⟨p, heap, hcall, hnew, hlaw, hlt⟩ := h.allocate hallowed hpos hfits
      have hle := h.toInt_le
      have hadd : (s.info.kernelMemoryAllocated + (align siz).toInt32).toInt =
          (base + total s.charged + (align siz).toNat : ℕ) := by
        have hbase : s.info.kernelMemoryAllocated.toInt = (base + total s.charged : ℕ) := by
          rw [hbal]
          rfl
        exact toInt_add hbase (by omega)
      have hfresh : ∀ b ∈ s.charged, b.ptr ≠ p := by
        rintro b hb rfl
        rw [h.live_eq b hb] at hnew
        cases hnew
      simp only [step, hcall]
      refine ⟨⟨fun _ => hfits, fun _ => ?_⟩, fun _ => ?_⟩
      · simp only [Balanced, charge, total_cons, hadd]
        omega
      · refine ⟨hlaw, fun b hb => ?_, List.nodup_cons.mpr ⟨fun hb => ?_, h.nodup⟩, h.capacity, ?_⟩
        · rcases List.mem_cons.mp hb with rfl | hb
          · exact Function.update_self ..
          · exact (Function.update_of_ne (hfresh b hb) ..).trans (h.live_eq b hb)
        · exact hfresh _ hb rfl
        · exact Int32.not_lt.mp hallowed
    · simp only [step, allocate_failed hallowed hpos hfits]
      refine ⟨⟨fun hb => ?_, fun hf => absurd hf hfits⟩, fun hf => absurd hf hfits⟩
      exact absurd (hb.trans hbal.symm) (add_ne hpos)

/-- A refund is balanced if it is the charge, or if it empties the count. -/
lemma Sound.step_free (h : Sound s) (hbal : Balanced base s) {b : Block} (hb : b ∈ s.charged) :
    (Balanced base (step s (.free b)) ↔ StepOk s (.free b)) ∧ Sound (step s (.free b)) := by
  obtain ⟨heap, hfree, hlaw, hle, hlt⟩ := h.free hb
  have hcap := h.toInt_le
  have hsum := total_erase hb
  have hbase : s.info.kernelMemoryAllocated.toInt = (base + total s.charged : ℕ) := by
    rw [hbal]
    rfl
  have hrefund := toInt_refund (n := s.heap.size (b.ptr - SIZEOF_NODE)) hbase (by omega) (by omega)
  have hinfo : (mmFreeKernelMemory s.heap s.info (some b.ptr)).2.kernelMemoryAllocated =
      refund s.info.kernelMemoryAllocated (s.heap.size (b.ptr - SIZEOF_NODE)) := by
    rw [mmFreeKernelMemory, hfree]
  have hheap : (mmFreeKernelMemory s.heap s.info (some b.ptr)).1 = heap := by
    rw [mmFreeKernelMemory, hfree]
  have hstep : step s (.free b) = ⟨heap, Function.update s.live b.ptr none,
      (mmFreeKernelMemory s.heap s.info (some b.ptr)).2, s.charged.erase b⟩ := by
    rw [← hheap]
    rfl
  rw [hstep]
  constructor
  · have hlen : s.heap.size (b.ptr - SIZEOF_NODE) = b.charge ↔
        (s.heap.size (b.ptr - SIZEOF_NODE)).toNat = b.charge.toNat := UInt32.toNat_inj.symm
    rw [Balanced, StepOk, hinfo, hrefund, hbase, hlen]
    dsimp only
    omega
  · refine ⟨hlaw, fun b' hb' => ?_, h.nodup.erase b, h.capacity, ?_⟩
    · obtain ⟨hne, hmem⟩ := h.nodup.mem_erase_iff.mp hb'
      have hptr : b'.ptr ≠ b.ptr := by
        intro he
        have hcharge := h.live_eq b' hmem
        rw [he, h.live_eq b hb] at hcharge
        have hc := Option.some.inj hcharge
        cases b
        cases b'
        simp only at he hc
        exact hne (by rw [he, hc])
      exact (Function.update_of_ne hptr ..).trans (h.live_eq b' hmem)
    · rw [Int32.le_iff_toInt_le, hinfo, hrefund]
      change _ ≤ s.info.kernelMemoryCapacity.toInt
      rw [h.capacity]
      change _ ≤ (16777216 : ℤ)
      omega

end Call

/-! ## Runs -/

/-- From any state in order, all states of a run are balanced exactly if no request is charged
without getting a block, and no block is freed that is longer than its charge, unless nothing else
is counted. -/
theorem charges_balanced_iff {s : State} {base : ℕ} (hs : Sound s) (hbal : Balanced base s)
    {es : List Event} (hproper : Guarded step Proper s es) :
    (∀ fs, fs <+: es → Balanced base (run step s fs)) ↔ Guarded step StepOk s es := by
  have hstep : ∀ s e, Sound s ∧ Balanced base s → Proper s e →
      (Balanced base (step s e) ↔ StepOk s e) ∧ (StepOk s e → Sound (step s e)) := by
    intro s e h hproper
    obtain ⟨hs, hbal⟩ := h
    cases e with
    | allocate siz => exact hs.step_allocate hbal siz
    | free b =>
      obtain ⟨hiff, hsound⟩ := hs.step_free hbal hproper
      exact ⟨hiff, fun _ => hsound⟩
    | write p n =>
      refine ⟨⟨fun _ => trivial, fun _ => hbal⟩, fun _ => ?_⟩
      exact ⟨hs.lawful.write hproper n, hs.live_eq, hs.nodup, hs.capacity, hs.le_capacity⟩
  refine hproper.forall_prefix_iff (fun s => Sound s ∧ Balanced base s) (Balanced base) ?_ ?_
    ⟨hs, hbal⟩ hbal
  · intro s e h hproper hok
    obtain ⟨hiff, hsound⟩ := hstep s e h hproper
    exact ⟨hsound hok, hiff.mpr hok⟩
  · intro s e h hproper
    exact (hstep s e h hproper).1

/-- The pool at its start, in a cleared space. -/
def started : State :=
  ⟨(start kernelArena zeroHeap).heap, fun _ => none, mmInitializeSpaceBasicInformation, []⟩

lemma started_sound : Sound started := by
  obtain ⟨buckets, hshape⟩ := initBlock_shape kernelArena zeroHeap
  exact ⟨⟨_, buckets, hshape⟩, by simp [started], List.nodup_nil, rfl, by decide⟩

/-- Two blocks are allocated, and the first is freed. -/
def twoBlocks : List Event := [.allocate 99, .allocate 1, .free ⟨0xC0400018, 100⟩]

theorem charges_balanced_iff_twoBlocks :
    (∀ fs, fs <+: twoBlocks → Balanced 0 (run step started fs)) ↔
      Guarded step StepOk started twoBlocks :=
  charges_balanced_iff started_sound rfl (by
    refine ⟨trivial, trivial, ?_, trivial⟩
    change _ ∈ State.charged _
    decide +kernel)

/-- A request of 2GB passes the limit, finds no room and stays charged. -/
theorem not_charges_balanced : ¬ ∀ (s : State) (base : ℕ) (es : List Event), Sound s →
    Balanced base s → Guarded step Proper s es →
    ∀ fs, fs <+: es → Balanced base (run step s fs) := by
  intro h
  have hbal := h started 0 [.allocate 0x80000000] started_sound rfl ⟨trivial, trivial⟩ _
    (List.prefix_refl _)
  revert hbal
  change ¬(_ : ℤ) = _
  decide +kernel

end KernelMemory
end Sgos
