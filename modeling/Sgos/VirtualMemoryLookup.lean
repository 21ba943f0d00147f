import Sgos.VirtualMemoryRuns

/-!
# Lookups in the area list

Whether or not the areas are apart, the two chains of the list agree and `MmGetVmaByAddress` finds
the recorded areas, as long as no placement puts a node in front of the whole list that was empty
or whose new node has an old `prev` field, and no recorded end wraps.
-/
namespace Sgos.VirtualMemory
open GuardedRun LinkedChain State

/-- The address lies in the area. -/
def Contains (s : State) (x : Ptr) (a : UInt32) : Prop := s.beg x ≤ a.toNat ∧ a.toNat < s.fin x

/-- The recorded areas are those whose descriptors are live. Both chains visit them, in opposite
orders, and the lookup of an address finds an area that contains it, if there is one. -/
structure ListIntact (m : Memory) : Prop where
  chains : ∃ xs : List Ptr, xs.Perm m.live ∧
    Visits m.state.next m.state.vm.firstAllocation xs ∧
    Visits m.state.prev m.state.vm.lastAllocation xs.reverse
  found : ∀ a x, mmGetVmaByAddress m.state a = some x → x ∈ m.live ∧ Contains m.state x a
  missing : ∀ a, mmGetVmaByAddress m.state a = none → ∀ x ∈ m.live, ¬ Contains m.state x a

/-- The address at which the search of the placement ends. -/
def candidate (s : State) (addr size flag : UInt32) : UInt32 :=
  if flag &&& ALLOC_RANDOM ≠ 0 then
    if flag &&& ALLOC_HIGHMEM ≠ 0 then (highSearch s size).1 else (lowSearch s size).1
  else addr

/-- The tests by which a placement is refused. -/
def Refused (s : State) (addr size flag : UInt32) : Prop :=
  if flag &&& ALLOC_RANDOM ≠ 0 then
    if flag &&& ALLOC_HIGHMEM ≠ 0 then
      (highSearch s size).2 = none ∧ (highSearch s size).1 < s.vm.lowerLimit
    else (lowSearch s size).2 = none ∧ (lowSearch s size).1 + size > s.vm.upperLimit
  else FixedRefused s addr size

/-- The top-down search has found no area to stay above: the new node goes to the front. -/
def ToFront (s : State) (size flag : UInt32) : Prop :=
  flag &&& ALLOC_RANDOM ≠ 0 ∧ flag &&& ALLOC_HIGHMEM ≠ 0 ∧ (highSearch s size).2 = none

/-- The end of the area does not wrap; and a node that goes to the front finds a list that is not
empty, and has a null `prev` field already. -/
def PlacementOk (s : State) (buf : Ptr) (addr size flag : UInt32) : Prop :=
  size < PAGE_SIZE ∨ size % PAGE_SIZE ≠ 0 ∨ Refused s addr size flag ∨
    (candidate s addr size flag).toNat + size.toNat < addressSpace ∧
      (ToFront s size flag → s.vm.firstAllocation ≠ none ∧ s.prev buf = none)

def LookupOk (m : Memory) : Event → Prop
  | .allocate block stale addr size _ flag =>
      ∀ buf, mmAllocateKernelMemory m.live block = some buf →
        PlacementOk (m.withBlock buf stale) buf addr size flag
  | .free _ => True

/-! ## The invariant -/

/-- The links describe the list `xs`, and no end wraps. -/
structure Linking (s : State) (xs : List Ptr) : Prop where
  links : Links s xs
  noWrap : ∀ x ∈ xs, s.fin x < addressSpace

section Linking
variable {s : State} {xs : List Ptr} {v : Ptr}

theorem Linking.length_le (h : Linking s xs) : xs.length ≤ addressSpace :=
  nodup_length_le h.links.chain.nodup

theorem Linking.write (h : Linking s xs) (hv : v ∉ xs) (k : KVirtualMemoryAllocation) :
    Linking (s.write v k) xs := by
  have heap : ∀ x ∈ xs, (s.write v k).heap x = s.heap x := fun x hx =>
    Function.update_of_ne (ne_of_mem_of_not_mem hx hv) _ _
  refine ⟨⟨h.links.chain.congr ?_ ?_, h.links.last_eq⟩, fun x hx => ?_⟩
  · exact fun x hx => by simp [State.next, heap x hx]
  · exact fun x hx => by simp [State.prev, heap x hx]
  · rw [fin, heap x hx]
    exact h.noWrap x hx

/-- A lookup tests the areas from the last to the first. -/
theorem Linking.lookup_eq (h : Linking s xs) (a : UInt32) :
    mmGetVmaByAddress s a =
      xs.reverse.find? fun x => (s.heap x).virtualAddress ≤ a && a < areaEnd s x := by
  rw [mmGetVmaByAddress, h.links.last_eq, ← List.head?_reverse]
  exact search_eq_find h.links.chain.linked.reverse (by simpa using h.length_le)

theorem Linking.test_iff (h : Linking s xs) {x : Ptr} (hx : x ∈ xs) (a : UInt32) :
    ((s.heap x).virtualAddress ≤ a && a < areaEnd s x) = true ↔ Contains s x a := by
  have hend : (areaEnd s x).toNat = s.fin x := toNat_add_of_lt (h.noWrap x hx)
  rw [Bool.and_eq_true, decide_eq_true_iff, decide_eq_true_iff, UInt32.le_iff_toNat_le,
    UInt32.lt_iff_toNat_lt, hend]
  rfl

theorem Linking.found (h : Linking s xs) {a : UInt32} {x : Ptr}
    (hx : mmGetVmaByAddress s a = some x) : x ∈ xs ∧ Contains s x a := by
  rw [h.lookup_eq] at hx
  have hmem := List.mem_reverse.mp (List.mem_of_find?_eq_some hx)
  refine ⟨hmem, (h.test_iff hmem a).mp ?_⟩
  simpa using List.find?_some hx

theorem Linking.missing (h : Linking s xs) {a : UInt32} (hnone : mmGetVmaByAddress s a = none) :
    ∀ x ∈ xs, ¬ Contains s x a := by
  intro x hx hc
  rw [h.lookup_eq] at hnone
  exact List.find?_eq_none.mp hnone x (List.mem_reverse.mpr hx) ((h.test_iff hx a).mpr hc)

/-- A loop over the list stops at one of its nodes, or passes all of them. -/
theorem walkList_mem {σ : Type*} {stop : σ → Ptr → Bool} {update : σ → Ptr → σ} {a : σ} {x : Ptr}
    (h : (walkList stop update a xs).2 = some x) : x ∈ xs := by
  rcases walkList_cases stop update a xs with ⟨pre, y, post, rfl, -, he⟩ | he
  · rw [he] at h
    obtain rfl := Option.some.inj h
    simp
  · rw [he] at h
    cases h

end Linking

/-! ## Placements -/

/-- The forward links describe the list `xs`. The pointer to its last area is right, or null. -/
structure Listed (s : State) (xs : List Ptr) : Prop where
  chain : Chain s.next s.prev s.vm.firstAllocation xs
  last_eq : s.vm.lastAllocation = xs.getLast? ∨ s.vm.lastAllocation = none

/-- The area that the new node goes in front of. -/
def successor (s : State) (addr size flag : UInt32) : Option Ptr :=
  if flag &&& ALLOC_RANDOM ≠ 0 then
    if flag &&& ALLOC_HIGHMEM ≠ 0 then
      match (highSearch s size).2 with
      | some x => s.next x
      | none => s.vm.firstAllocation
    else (lowSearch s size).2
  else fixedSearch s addr

section Searches
variable {s : State} {xs : List Ptr} {addr size flag : UInt32}

theorem Listed.lowSearch_mem (h : Listed s xs) {x : Ptr} (hx : (lowSearch s size).2 = some x) :
    x ∈ xs := by
  rw [lowSearch, h.chain.head_eq,
    walk_eq_walkList h.chain.linked (nodup_length_le h.chain.nodup)] at hx
  exact walkList_mem hx

/-- The top-down loop finds nothing where the pointer to the last area is null. -/
theorem Listed.highSearch_mem (h : Listed s xs) {x : Ptr} (hx : (highSearch s size).2 = some x) :
    x ∈ xs := by
  have hlen : xs.reverse.length ≤ addressSpace := by
    simpa using nodup_length_le h.chain.nodup
  rcases h.last_eq with hlast | hlast
  · rw [highSearch, hlast, ← List.head?_reverse, walk_eq_walkList h.chain.linked.reverse hlen] at hx
    exact List.mem_reverse.mp (walkList_mem hx)
  · rw [highSearch, hlast] at hx
    cases hx

theorem Listed.fixedSearch_mem (h : Listed s xs) {x : Ptr} (hx : fixedSearch s addr = some x) :
    x ∈ xs := by
  rw [fixedSearch, h.chain.head_eq,
    search_eq_find h.chain.linked (nodup_length_le h.chain.nodup)] at hx
  exact List.mem_of_find?_eq_some hx

/-- The place of the new node splits the list. -/
theorem Listed.successor_eq (h : Listed s xs) (addr size flag : UInt32) :
    ∃ pre post, xs = pre ++ post ∧ successor s addr size flag = post.head? := by
  have hsplit : ∀ o : Option Ptr, (∀ x, o = some x → x ∈ xs) →
      ∃ pre post, xs = pre ++ post ∧ o = post.head? := by
    intro o hmem
    cases o with
    | none => exact ⟨xs, [], (List.append_nil xs).symm, rfl⟩
    | some x =>
      obtain ⟨pre, post, hxs⟩ := List.append_of_mem (hmem x rfl)
      exact ⟨pre, x :: post, hxs, rfl⟩
  rw [successor]
  split_ifs with hrandom hhigh
  · cases hcur : (highSearch s size).2 with
    | none => exact ⟨[], xs, rfl, h.chain.head_eq⟩
    | some x =>
      obtain ⟨pre, post, hxs⟩ := List.append_of_mem (h.highSearch_mem hcur)
      have hchain := h.chain
      rw [hxs] at hchain
      exact ⟨pre ++ [x], post, by simp [hxs], hchain.next_eq⟩
  · exact hsplit _ fun x hx => h.lowSearch_mem hx
  · exact hsplit _ fun x hx => h.fixedSearch_mem hx

end Searches

section Placement
variable {s : State} {xs : List Ptr} {v : Ptr} {addr size flag : UInt32}

/-- An accepted placement takes the candidate address, and links the node in at the front or before
its successor. -/
theorem placeVma_some {r : UInt32 × State} (hr : placeVma s v addr size flag = some r) :
    ¬Refused s addr size flag ∧ r.1 = candidate s addr size flag ∧
      (ToFront s size flag ∧ r.2 = insertFirstVma s v ∨
        ¬ToFront s size flag ∧ r.2 = insertPreviousVma s v (successor s addr size flag)) := by
  unfold placeVma at hr
  rw [Refused, candidate, successor, ToFront]
  split_ifs at hr ⊢ with hrandom hhigh
  · rw [show highSearch s size = ((highSearch s size).1, (highSearch s size).2) from rfl] at hr
    cases hcur : (highSearch s size).2 with
    | some x =>
      simp only [hcur] at hr
      obtain rfl := Option.some.inj hr
      exact ⟨by simp, rfl, .inr ⟨by simp, rfl⟩⟩
    | none =>
      simp only [hcur] at hr
      split_ifs at hr with hlow
      obtain rfl := Option.some.inj hr
      exact ⟨fun hc => hlow hc.2, rfl, .inl ⟨⟨hrandom, hhigh, rfl⟩, rfl⟩⟩
  · have hlowest : ¬ToFront s size flag := fun hc => hhigh hc.2.1
    rw [show lowSearch s size = ((lowSearch s size).1, (lowSearch s size).2) from rfl] at hr
    cases hcur : (lowSearch s size).2 with
    | some x =>
      simp only [hcur] at hr
      obtain rfl := Option.some.inj hr
      exact ⟨by simp, rfl, .inr ⟨hlowest, rfl⟩⟩
    | none =>
      simp only [hcur] at hr
      split_ifs at hr with hup
      obtain rfl := Option.some.inj hr
      exact ⟨fun hc => hup hc.2, rfl, .inr ⟨hlowest, rfl⟩⟩
  · rename_i hlimits
    obtain ⟨hlow, hup⟩ := not_or.mp hlimits
    have hfixed : ¬ToFront s size flag := fun hc => hrandom hc.1
    rw [FixedRefused]
    cases hcur : fixedSearch s addr with
    | some x =>
      simp only [hcur] at hr
      split_ifs at hr with hgt
      obtain rfl := Option.some.inj hr
      refine ⟨?_, rfl, .inr ⟨hfixed, rfl⟩⟩
      rintro (hc | hc | ⟨y, hy, hc⟩)
      · exact hlow hc
      · exact hup hc
      · obtain rfl := Option.some.inj hy
        exact hgt hc
    | none =>
      simp only [hcur] at hr
      obtain rfl := Option.some.inj hr
      refine ⟨?_, rfl, .inr ⟨hfixed, rfl⟩⟩
      rintro (hc | hc | ⟨y, hy, hc⟩)
      · exact hlow hc
      · exact hup hc
      · cases hy

/-- A placement that is not refused takes the candidate address and links the node in. -/
structure Inserted (s : State) (xs : List Ptr) (v : Ptr) (s' : State) : Prop where
  same : SameAreas s s'
  links : ∃ pre post, xs = pre ++ post ∧ Links s' (pre ++ v :: post)

/-- An accepted placement takes the candidate address and links the node in. -/
theorem Linking.place (h : Linking s xs) (hv : v ∉ xs)
    (hok : Refused s addr size flag ∨
      (ToFront s size flag → s.vm.firstAllocation ≠ none ∧ s.prev v = none))
    {r : UInt32 × State} (hr : placeVma s v addr size flag = some r) :
    ¬ Refused s addr size flag ∧ r.1 = candidate s addr size flag ∧ Inserted s xs v r.2 := by
  obtain ⟨hnot, haddr, ⟨hfront, hs⟩ | ⟨hfront, hs⟩⟩ := placeVma_some hr
  · obtain ⟨hne, hprev⟩ := hok.resolve_left hnot hfront
    refine ⟨hnot, haddr, ?_⟩
    rw [hs]
    exact ⟨insertFirstVma_sameAreas s v, [], xs, rfl, insertFirstVma_links h.links hv hne hprev⟩
  · have hlisted : Listed s xs := ⟨h.links.chain, .inl h.links.last_eq⟩
    obtain ⟨pre, post, rfl, hsucc⟩ := hlisted.successor_eq addr size flag
    refine ⟨hnot, haddr, ?_⟩
    rw [hs, hsucc]
    exact ⟨insertPreviousVma_sameAreas s v _, pre, post, rfl, insertPreviousVma_links h.links hv⟩

/-- The new area is written into the inserted node. -/
theorem Linking.allocate (h : Linking s xs) (hv : v ∉ xs) {attr : UInt32}
    (hok : PlacementOk s v addr size flag) {r : UInt32 × State}
    (hr : allocateVma s v addr size attr flag = some r) :
    ∃ ys, ys.Perm (v :: xs) ∧ Linking r.2 ys := by
  rw [allocateVma] at hr
  split_ifs at hr with hsize
  obtain ⟨r, hp, rfl⟩ := Option.map_eq_some_iff.mp hr
  obtain ⟨hsmall, haligned⟩ := not_or.mp hsize
  have hok := (hok.resolve_left hsmall).resolve_left haligned
  obtain ⟨hnot, haddr, hsame, pre, post, rfl, hlinks⟩ := h.place hv (hok.imp_right And.right) hp
  obtain ⟨hlt, -⟩ := hok.resolve_left hnot
  refine ⟨pre ++ v :: post, List.perm_middle, ⟨?_, ?_⟩, fun x hx => ?_⟩
  · simpa using hlinks.chain
  · simpa using hlinks.last_eq
  · rw [setArea_fin, hsame.fin, Function.update_apply]
    split_ifs with hxv
    · rwa [haddr]
    · rcases List.mem_cons.mp (List.perm_middle.mem_iff.mp hx) with hx | hx
      · exact absurd hx hxv
      · exact h.noWrap x hx

theorem Linking.remove (h : Linking s xs) (hv : v ∈ xs) :
    Linking (removeVma s v) (xs.erase v) := by
  refine ⟨removeVma_links h.links hv, fun x hx => ?_⟩
  rw [(removeVma_sameAreas s v).fin]
  exact h.noWrap x (List.mem_of_mem_erase hx)

end Placement

/-! ## Runs -/

/-- The live descriptors are linked. -/
def Intact (m : Memory) : Prop := ∃ xs : List Ptr, xs.Perm m.live ∧ Linking m.state xs

theorem step_intact (m : Memory) (e : Event) (h : Intact m) (hok : LookupOk m e) :
    Intact (step m e) := by
  obtain ⟨xs, hperm, hxs⟩ := h
  cases e with
  | allocate block stale addr size attr flag =>
    rw [step]
    cases hb : mmAllocateKernelMemory m.live block with
    | none => exact ⟨xs, hperm, hxs⟩
    | some buf =>
      have hbuf : buf ∉ xs := fun hm => not_mem_of_allocated hb (hperm.mem_iff.mp hm)
      have hstale := hxs.write hbuf stale
      simp only [mmAllocateVirtualMemory]
      cases hr : allocateVma (m.withBlock buf stale) buf addr size attr flag with
      | none => exact ⟨xs, hperm, hstale⟩
      | some r =>
        obtain ⟨ys, hys, hlinking⟩ := hstale.allocate hbuf (hok buf hb) hr
        exact ⟨ys, hys.trans (hperm.cons buf), hlinking⟩
  | free p =>
    simp only [step, mmFreeVirtualMemory]
    cases hv : mmGetVmaByAddress m.state p with
    | none => exact ⟨xs, hperm, hxs⟩
    | some vma => exact ⟨xs.erase vma, hperm.erase vma, hxs.remove (hxs.found hv).1⟩

theorem Intact.listIntact {m : Memory} (h : Intact m) : ListIntact m := by
  obtain ⟨xs, hperm, hxs⟩ := h
  refine ⟨⟨xs, hperm, ?_, ?_⟩, fun a x hx => ?_, fun a hnone x hx => ?_⟩
  · rw [hxs.links.chain.head_eq]
    exact hxs.links.chain.linked.visits
  · rw [hxs.links.last_eq, ← List.head?_reverse]
    exact hxs.links.chain.linked.reverse.visits
  · exact (hxs.found hx).imp_left hperm.mem_iff.mp
  · exact hxs.missing hnone x (hperm.mem_iff.mpr hx)

/-- In a run whose placements all meet the condition the list stays intact. -/
theorem run_listIntact (heap : Ptr → KVirtualMemoryAllocation) (lower upper : UInt32)
    (es : List Event) (hok : Guarded step LookupOk (initial heap lower upper) es) :
    ListIntact (run step (initial heap lower upper) es) :=
  (hok.invariant Intact step_intact ⟨[], .refl _, ⟨.nil, rfl⟩, by simp⟩).listIntact

/-- An area placed from below, one placed from above, and the release of the first. -/
def lowAndHigh : List Event :=
  [.allocate (some 16) emptyNode 0 0x2000 0 ALLOC_RANDOM,
    .allocate (some 40) emptyNode 0 0x1000 0 (ALLOC_RANDOM ||| ALLOC_HIGHMEM), .free 0x100000]

theorem run_listIntact_lowAndHigh :
    ListIntact (run step (initial (fun _ => emptyNode) 0x100000 0xC0000000) lowAndHigh) := by
  refine run_listIntact _ _ _ _ ⟨fun buf hbuf => ?_, fun buf hbuf => ?_, trivial, trivial⟩
  · obtain rfl : 16 = buf := Option.some.inj hbuf
    exact .inr (.inr (.inr ⟨by decide +kernel, fun hfront => absurd hfront.2.1 (by decide)⟩))
  · obtain rfl : 40 = buf := Option.some.inj hbuf
    exact .inr (.inr (.inr ⟨by decide +kernel, fun hfront =>
      absurd hfront.2.2 (by decide +kernel)⟩))

/-- The first area of the list, placed from above, is not found. -/
theorem run_not_listIntact :
    ¬ ∀ (heap : Ptr → KVirtualMemoryAllocation) (lower upper : UInt32) (es : List Event),
      lower < upper → ListIntact (run step (initial heap lower upper) es) := by
  intro h
  have hlist := h (fun _ => emptyNode) 0x100000 0xC0000000
    [.allocate (some 16) emptyNode 0 0x1000 0 (ALLOC_RANDOM ||| ALLOC_HIGHMEM)] (by decide)
  have hnone := hlist.missing 0xBFFFF000 (by decide +kernel) 16 (by decide +kernel)
  revert hnone
  simp only [Contains]
  decide +kernel

end Sgos.VirtualMemory
