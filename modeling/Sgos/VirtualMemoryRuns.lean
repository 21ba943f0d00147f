import Sgos.VirtualMemoryAreas

/-!
# Runs of the area list

Allocations and releases in any order. Where every allocation meets the condition of its
placement, the recorded areas stay inside the limits and apart.
-/
namespace Sgos.VirtualMemory
open GuardedRun LinkedChain State

/-- Links and areas are well formed, and every node of the list is a live block. -/
def Inv (m : Memory) : Prop := ∃ xs, AreaList m.state xs ∧ ∀ x ∈ xs, x ∈ m.live

def StepOk (m : Memory) : Event → Prop
  | .allocate block stale addr size _ flag =>
      ∀ buf, mmAllocateKernelMemory m.live block = some buf →
        AllocateOk (m.withBlock buf stale) buf addr size flag
  | .free _ => True

/-- An address range just initialised, before any node is allocated for it. -/
def initial (heap : Ptr → KVirtualMemoryAllocation) (lower upper : UInt32) : Memory :=
  ⟨mmInitializeVirtualMemory heap lower upper, []⟩

theorem initial_inv (heap : Ptr → KVirtualMemoryAllocation) (lower upper : UInt32) :
    Inv (initial heap lower upper) :=
  ⟨[], ⟨⟨.nil, rfl⟩, List.Pairwise.nil, by simp, by simp⟩, by simp⟩

/-- Each of the three placements, under its condition, extends the list by the new node. -/
theorem allocateVma_placed {s : State} {xs : List Ptr} {buf : Ptr} {addr size attr flag : UInt32}
    {r : UInt32 × State} (h : AreaList s xs) (hbuf : buf ∉ xs)
    (hok : AllocateOk s buf addr size flag)
    (hr : allocateVma s buf addr size attr flag = some r) :
    ∃ pre post, xs = pre ++ post ∧ AreaList r.2 (pre ++ buf :: post) := by
  rw [allocateVma] at hr
  split_ifs at hr with hsize
  obtain ⟨r, hp, rfl⟩ := Option.map_eq_some_iff.mp hr
  obtain ⟨hsmall, haligned⟩ := not_or.mp hsize
  rcases hok with hbad | hbad | hok
  · exact absurd hbad hsmall
  · exact absurd hbad haligned
  split_ifs at hok with hrandom hhigh
  · exact placeHigh h hbuf hok hrandom hhigh hp
  · exact placeLow h hbuf hok hrandom hhigh hp
  · exact placeFixed h hbuf hok hrandom hp

theorem mmGetVmaByAddress_mem {s : State} {xs : List Ptr} {p : UInt32} {vma : Ptr}
    (h : AreaList s xs) (hv : mmGetVmaByAddress s p = some vma) : vma ∈ xs := by
  rw [mmGetVmaByAddress, h.links.last_eq, ← List.head?_reverse,
    search_eq_find h.links.chain.linked.reverse (by simpa using h.length_le)] at hv
  exact List.mem_reverse.mp (List.mem_of_find?_eq_some hv)

theorem step_inv (m : Memory) (e : Event) (h : Inv m) (hok : StepOk m e) : Inv (step m e) := by
  obtain ⟨xs, hxs, hlive⟩ := h
  cases e with
  | allocate block stale addr size attr flag =>
    rw [step]
    cases hb : mmAllocateKernelMemory m.live block with
    | none => exact ⟨xs, hxs, hlive⟩
    | some buf =>
      have hbuf : buf ∉ xs := fun hm => not_mem_of_allocated hb (hlive buf hm)
      have hstale := hxs.write hbuf stale
      simp only [mmAllocateVirtualMemory]
      cases hr : allocateVma (m.withBlock buf stale) buf addr size attr flag with
      | none => exact ⟨xs, hstale, hlive⟩
      | some r =>
        obtain ⟨pre, post, rfl, hplaced⟩ := allocateVma_placed hstale hbuf (hok buf hb) hr
        refine ⟨pre ++ buf :: post, hplaced, fun x hx => ?_⟩
        rcases List.mem_cons.mp (List.perm_middle.mem_iff.mp hx) with rfl | hx
        · exact List.mem_cons_self
        · exact List.mem_cons_of_mem _ (hlive x hx)
  | free p =>
    simp only [step, mmFreeVirtualMemory]
    cases hv : mmGetVmaByAddress m.state p with
    | none => exact ⟨xs, hxs, hlive⟩
    | some vma =>
      refine ⟨xs.erase vma, hxs.removed (mmGetVmaByAddress_mem hxs hv), fun x hx => ?_⟩
      obtain ⟨hne, hx⟩ := hxs.links.chain.nodup.mem_erase_iff.mp hx
      exact (List.mem_erase_of_ne hne).mpr (hlive x hx)

/-- In a run whose allocations all meet their conditions, the recorded areas stay inside the
limits and apart. -/
theorem run_areasApart (heap : Ptr → KVirtualMemoryAllocation) (lower upper : UInt32)
    (es : List Event) (hok : Guarded step StepOk (initial heap lower upper) es) :
    AreasApart (run step (initial heap lower upper) es).state := by
  obtain ⟨xs, hxs, _⟩ := hok.invariant Inv step_inv (initial_inv heap lower upper)
  exact hxs.areasApart

def emptyNode : KVirtualMemoryAllocation := ⟨none, none, 0, 0, 0, 0⟩

/-- Two areas placed from below in the user range, the first of them released again. -/
theorem run_areasApart_lowTwice :
    AreasApart (run step (initial (fun _ => emptyNode) 0x100000 0xC0000000)
      [.allocate (some 16) emptyNode 0 0x2000 0 ALLOC_RANDOM,
        .allocate (some 40) emptyNode 0 0x1000 0 ALLOC_RANDOM, .free 0x100000]).state := by
  refine run_areasApart _ _ _ _ ⟨?_, ?_, trivial, trivial⟩
  · rintro buf hbuf
    obtain rfl : 16 = buf := Option.some.inj hbuf
    exact .inr (.inr (.inr (by decide +kernel)))
  · rintro buf hbuf
    obtain rfl : 40 = buf := Option.some.inj hbuf
    exact .inr (.inr (.inr (by decide +kernel)))

/-- A fixed address inside the previous area is accepted: the search compares only with the next
area. -/
theorem run_not_areasApart :
    ¬ ∀ (heap : Ptr → KVirtualMemoryAllocation) (lower upper : UInt32) (es : List Event),
      lower < upper → AreasApart (run step (initial heap lower upper) es).state := by
  intro h
  have hrun := h (fun _ => emptyNode) 0x100000 0xC0000000
    [.allocate (some 16) emptyNode 0x200000 0x2000 0 0,
      .allocate (some 40) emptyNode 0x201000 0x1000 0 0] (by decide)
  have hfirst : Recorded (run step (initial (fun _ => emptyNode) 0x100000 0xC0000000)
      [.allocate (some 16) emptyNode 0x200000 0x2000 0 0,
        .allocate (some 40) emptyNode 0x201000 0x1000 0 0]).state 16 :=
    .head (by decide +kernel)
  have hsecond := Reaches.next hfirst (y := 40) (by decide +kernel)
  have hapart := hrun.disjoint 16 40 hfirst hsecond (by decide)
  revert hapart
  decide +kernel

end Sgos.VirtualMemory
