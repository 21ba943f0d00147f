import Sgos.AllocatorRuns

/-!
# The allocator finds what there is

A search begins in the bucket of the request and skips all lower ones. Since the bucket index grows
with the size, a block that is long enough is in none of these. Free neighbours are joined, so that
a heap without live blocks is one free block.
-/
namespace Sgos.Allocator
open LinkedChain Tiling GuardedRun

lemma calcHashIndex_mono (v : Variant) {k l : UInt32} (h : k.toNat ≤ l.toNat) :
    calcHashIndex v.maxHashEntry k ≤ calcHashIndex v.maxHashEntry l := by
  rw [calcHashIndex_eq_log, calcHashIndex_eq_log]
  exact min_le_min_right _ (Nat.log_mono_right (Nat.div_le_div_right h))

section Complete
variable {v : Variant} {a : Arena v} {s : Heap} {live : Ptr → Option UInt32} {nodes : List Ptr}
  {buckets : ℕ → List Ptr} {x : Ptr}

/-- A block that is long enough is in no bucket below that of the request; the size of a block and
its descriptor does not wrap, and so that of the request does not. -/
lemma Layout.index_le (h : Layout a s nodes) (hx : x ∈ nodes) {siz : UInt32}
    (hsiz : siz ≤ s.size x) :
    calcHashIndex v.maxHashEntry (siz + SIZEOF_NODE) ≤ hashIndex v s x := by
  have hle : siz.toNat ≤ (s.size x).toNat := UInt32.le_iff_toNat_le.mp hsiz
  have hpos := h.pos hx
  obtain ⟨-, -, hend⟩ := h.bounds hx
  have hrequest : (siz + SIZEOF_NODE).toNat = siz.toNat + SIZEOF_NODE.toNat :=
    toNat_add_of_lt (by omega)
  have hblock : (s.size x + SIZEOF_NODE).toNat = (s.size x).toNat + SIZEOF_NODE.toNat :=
    toNat_add_of_lt (by omega)
  rw [hashIndex]
  exact calcHashIndex_mono v (by omega)

/-- A bucket is searched to its end. -/
lemma Shape.searchBucket_none (h : Shape a s live nodes buckets) {siz : UInt32} {j : ℕ}
    (hj : j < v.maxHashEntry) (hnone : searchBucket s siz j = none) (hx : x ∈ buckets j) :
    s.size x < siz := by
  have hchain := h.binned.chain j hj
  rw [searchBucket, hchain.head_eq, search_eq_find hchain.linked (nodup_length_le hchain.nodup)]
    at hnone
  have hshort := List.find?_eq_none.mp hnone x hx
  exact UInt32.not_le.mp fun hle => hshort (decide_eq_true hle)

/-- An allocation fails only if all free blocks are too short. -/
theorem Shape.complete (h : Shape a s live nodes buckets) {siz : UInt32}
    (hfail : (Allocator.allocate v s siz).1 = none) (hx : x ∈ nodes) (hfree : isFreeNode s x = true) :
    s.size x < siz := by
  have hsearch : Allocator.searchTable v.maxHashEntry s siz
      (calcHashIndex v.maxHashEntry (siz + SIZEOF_NODE)) = none := by
    rw [Allocator.allocate] at hfail
    split at hfail
    · assumption
    · cases hfail
  by_contra hlong
  have hle := h.toLayout.index_le hx (UInt32.not_lt.mp hlong)
  have hlt := calcHashIndex_lt v (s.size x + SIZEOF_NODE)
  rw [← hashIndex] at hlt
  have hbucket : searchBucket s siz (hashIndex v s x) = none := by
    have hrange : hashIndex v s x ∈ List.range' (calcHashIndex v.maxHashEntry (siz + SIZEOF_NODE))
        (v.maxHashEntry - calcHashIndex v.maxHashEntry (siz + SIZEOF_NODE)) :=
      List.mem_range'_1.mpr ⟨hle, by omega⟩
    exact Option.map_eq_none_iff.mp (List.findSome?_eq_none_iff.mp hsearch _ hrange)
  have hmem : x ∈ buckets (hashIndex v s x) := (h.binned.mem _ hlt x).mpr ⟨⟨hx, hfree⟩, rfl⟩
  exact hlong (h.searchBucket_none hlt hbucket hmem)

/-- Without live blocks all blocks are free, and so there is one. -/
theorem Shape.single (h : Shape a s live nodes buckets) (hnone : ∀ p, live p = none) :
    nodes = [a.base] ∧ isFreeNode s a.base = true ∧
      SIZEOF_NODE.toNat + (s.size a.base).toNat = a.size.toNat := by
  have hfree : ∀ x ∈ nodes, isFreeNode s x = true := by
    intro x hx
    by_contra hocc
    obtain ⟨n, hn, -⟩ := h.owned x hx (Bool.eq_false_of_not_eq_true hocc)
    rw [hnone] at hn
    cases hn
  have htiles := h.tiles
  have hquiet := h.quiet
  have hsize := a.le_size
  rcases nodes with - | ⟨x, - | ⟨y, rest⟩⟩
  · have hend : a.base.toNat = a.base.toNat + a.size.toNat := htiles
    omega
  · obtain ⟨hx, hend⟩ := htiles
    obtain rfl := UInt32.toNat_inj.mp hx
    have hspan : a.base.toNat + span s a.base = a.base.toNat + a.size.toNat := hend
    exact ⟨rfl, hfree _ List.mem_cons_self, Nat.add_left_cancel hspan⟩
  · have hpair := (List.isChain_cons_cons.mp hquiet).1
    exact absurd ⟨hfree x (by simp), hfree y (by simp)⟩ hpair

end Complete

/-! ## Runs of the kernel's heap -/

/-- Calls of `mm_alloc` and `mm_free`, and writes of the clients. -/
inductive Call
  | alloc (siz : UInt32)
  | free (p : Option Ptr)
  | write (p : Ptr) (n : Node)

def call (s : State) : Call → State
  | .alloc siz => step s (.alloc siz)
  | .free none => { s with heap := (mmFree s.heap none).2 }
  | .free (some p) => step s (.free p)
  | .write p n => step s (.write p n)

/-- `mm_free` may be given a live pointer, `NULL`, and any pointer it refuses since the descriptor
before it is marked as free. -/
def CallOk (s : State) : Call → Prop
  | .alloc _ => True
  | .free none => True
  | .free (some p) => (s.live p).isSome ∨ isFreeNode s.heap (p - SIZEOF_NODE) = true
  | .write p n => StepOk s (.write p n)

lemma call_lawful (a : Arena kernelVariant) (s : State) (c : Call) (h : Lawful a s.heap s.live)
    (hok : CallOk s c) : Lawful a (call s c).heap (call s c).live := by
  cases c with
  | alloc siz => exact step_lawful a s (.alloc siz) h trivial
  | write p n => exact step_lawful a s (.write p n) h hok
  | free p =>
    cases p with
    | none => exact h
    | some p =>
      by_cases hlive : (s.live p).isSome
      · exact step_lawful a s (.free p) h hlive
      · have hrefused : isFreeNode s.heap (p - SIZEOF_NODE) = true := hok.resolve_left hlive
        have hnone : s.live p = none := Option.not_isSome_iff_eq_none.mp hlive
        have hsame : Function.update s.live p none = s.live := by
          rw [← hnone, Function.update_eq_self]
        simp only [call, step, mmFree, hrefused, if_true, hsame]
        exact h

/-- In every state of the heap an allocation fails only if no free block is as long as the
request, and without live blocks the heap is one free block that covers the arena. -/
theorem complete_of_run (a : Arena kernelVariant) (s : Heap) {cs : List Call}
    (hok : Guarded call CallOk (start a s) cs) :
    let r := run call (start a s) cs
    (∀ siz, siz ≠ 0 → (mmAlloc r.heap siz).1 = none → ∀ x, Reaches r.heap.next r.heap.firstNode x →
      isFreeNode r.heap x = true → r.heap.size x < siz) ∧
    ((∀ p, r.live p = none) → r.heap.firstNode = some a.base ∧ r.heap.next a.base = none ∧
      isFreeNode r.heap a.base = true ∧
      SIZEOF_NODE.toNat + (r.heap.size a.base).toNat = a.size.toNat) := by
  obtain ⟨first, hfirst⟩ := initBlock_shape a s
  have hlaw := hok.invariant (fun s => Lawful a s.heap s.live) (call_lawful a) ⟨_, first, hfirst⟩
  obtain ⟨nodes, buckets, hshape⟩ := hlaw
  refine ⟨fun siz hsiz hfail x hx hfree => ?_, fun hnone => ?_⟩
  · rw [mmAlloc, if_neg hsiz] at hfail
    exact hshape.complete hfail (hshape.chain.reaches_iff.mp hx) hfree
  · obtain ⟨rfl, hfree, hsize⟩ := hshape.single hnone
    have hlast : (run call (start a s) cs).heap.next a.base = none := by
      simpa using hshape.chain.linked.2.1
    exact ⟨hshape.chain.head_eq, hlast, hfree, hsize⟩

/-- Two blocks, freed in the order they were allocated in, one of them twice. -/
theorem complete_of_run_twoBlocks :
    let r := run call (start kernelArena zeroHeap) [.alloc 100, .alloc 1, .free (some 0xC0400018),
      .free (some 0xC0400018), .free none, .free (some 0xC0400094)]
    (∀ siz, siz ≠ 0 → (mmAlloc r.heap siz).1 = none → ∀ x, Reaches r.heap.next r.heap.firstNode x →
      isFreeNode r.heap x = true → r.heap.size x < siz) ∧
    ((∀ p, r.live p = none) → r.heap.firstNode = some kernelArena.base ∧
      r.heap.next kernelArena.base = none ∧ isFreeNode r.heap kernelArena.base = true ∧
      SIZEOF_NODE.toNat + (r.heap.size kernelArena.base).toNat = kernelArena.size.toNat) :=
  complete_of_run kernelArena zeroHeap (by
    refine ⟨trivial, trivial, .inl ?_, .inr ?_, trivial, .inl ?_, trivial⟩
    · decide +kernel
    · decide +kernel
    · decide +kernel)

end Sgos.Allocator
