import Sgos.VirtualMemoryLookup

/-!
# Area lists whose end may be lost

A top-down placement into an empty list does not record the last area. Forwards the list is whole
still, until another node is to go behind all others.
-/
namespace Sgos.VirtualMemory
open LinkedChain State

/-- A node that goes to the front has a null `prev` field already, and one that goes behind all
others finds the last of them. -/
structure LinkOk (s : State) (buf : Ptr) (addr siz flag : UInt32) : Prop where
  front : ToFront s siz flag → s.prev buf = none
  behind : ¬ToFront s siz flag → successor s addr siz flag = none → s.vm.lastAllocation = none →
    s.vm.firstAllocation = none

/-- A lookup of the address that is chosen will find the new area: it does not wrap, no area behind
it contains the address, and the list has its end. -/
structure FoundAgain (s : State) (addr siz flag : UInt32) : Prop where
  noWrap : candidate s addr siz flag < candidate s addr siz flag + siz
  alone : ∀ x, Reaches s.next (successor s addr siz flag) x →
    ¬((s.heap x).virtualAddress ≤ candidate s addr siz flag ∧
      candidate s addr siz flag < areaEnd s x)
  whole : s.vm.lastAllocation = none → s.vm.firstAllocation = none ∧ ¬ToFront s siz flag

section Listed
variable {s : State} {xs : List Ptr} {v : Ptr} {addr siz attr flag : UInt32}

/-- Where an area is, and how long. -/
def State.extent (s : State) (x : Ptr) : UInt32 × UInt32 :=
  ((s.heap x).virtualAddress, (s.heap x).virtualSize)

lemma extent_of_sameAreas {s' : State} (h : SameAreas s s') : s'.extent = s.extent := by
  funext x
  have hbeg : s'.beg x = s.beg x := congrFun h.beg x
  have hfin : s'.fin x = s.fin x := congrFun h.fin x
  rw [beg, beg] at hbeg
  rw [fin, fin, hbeg] at hfin
  exact Prod.ext (UInt32.toNat_inj.mp hbeg) (UInt32.toNat_inj.mp (Nat.add_left_cancel hfin))

lemma setArea_extent (s : State) (p : Ptr) (a b c d : UInt32) :
    (s.setArea p a b c d).extent = Function.update s.extent p (a, b) := by
  funext x
  by_cases hx : x = p <;> simp [extent, setArea, State.write, Function.update, hx]

lemma Listed.write (h : Listed s xs) (hv : v ∉ xs) (k : KVirtualMemoryAllocation) :
    Listed (s.write v k) xs := by
  have heap : ∀ x ∈ xs, (s.write v k).heap x = s.heap x := fun x hx =>
    Function.update_of_ne (ne_of_mem_of_not_mem hx hv) _ _
  refine ⟨h.chain.congr ?_ ?_, h.last_eq⟩
  · intro x hx
    simp [State.next, heap x hx]
  · intro x hx
    simp [State.prev, heap x hx]

/-- A lookup that finds an area finds one of the list, which then has its end. -/
lemma Listed.lookup (h : Listed s xs) {x : Ptr} (hx : mmGetVmaByAddress s addr = some x) :
    x ∈ xs ∧ Links s xs := by
  rcases h.last_eq with hlast | hlast
  · refine ⟨?_, h.chain, hlast⟩
    have hlen : xs.reverse.length ≤ addressSpace := by
      simpa using nodup_length_le h.chain.nodup
    rw [mmGetVmaByAddress, hlast, ← List.head?_reverse,
      search_eq_find h.chain.linked.reverse hlen] at hx
    exact List.mem_reverse.mp (List.mem_of_find?_eq_some hx)
  · rw [mmGetVmaByAddress, hlast] at hx
    cases hx

lemma Listed.insertFirst (h : Listed s xs) (hv : v ∉ xs) (hprev : s.prev v = none) :
    Listed (insertFirstVma s v) (v :: xs) := by
  refine ⟨insertFirstVma_chain h.chain hv hprev, ?_⟩
  rw [insertFirstVma_last]
  cases xs with
  | nil => exact .inr (h.last_eq.elim id id)
  | cons x xs => exact h.last_eq.imp_left fun he => he.trans (List.getLast?_cons_cons).symm

lemma Listed.insertPrevious {pre post : List Ptr} (h : Listed s (pre ++ post))
    (hv : v ∉ pre ++ post)
    (hend : post.head? = none → s.vm.lastAllocation = none → s.vm.firstAllocation = none) :
    Listed (insertPreviousVma s v post.head?) (pre ++ v :: post) := by
  rcases h.last_eq with hlast | hlast
  · obtain ⟨hchain, hl⟩ := insertPreviousVma_links ⟨h.chain, hlast⟩ hv
    exact ⟨hchain, .inl hl⟩
  · cases post with
    | nil =>
      have hfirst := h.chain.head_eq.symm.trans (hend rfl hlast)
      have hnil := List.head?_eq_none_iff.mp hfirst
      obtain ⟨hchain, hl⟩ := insertPreviousVma_links ⟨h.chain, by rw [hnil, hlast]; rfl⟩ hv
      exact ⟨hchain, .inl hl⟩
    | cons n ns =>
      obtain ⟨hchain, hl⟩ := insertPreviousVma_chain h.chain hv
      exact ⟨hchain, .inr (hl.trans hlast)⟩

lemma Listed.insertPrevious_last {pre post : List Ptr} (h : Listed s (pre ++ post))
    (hv : v ∉ pre ++ post)
    (hnone : (insertPreviousVma s v post.head?).vm.lastAllocation = none) :
    s.vm.lastAllocation = none ∧ s.vm.firstAllocation ≠ none := by
  cases post with
  | nil => simp [insertPreviousVma] at hnone
  | cons n ns =>
    refine ⟨(insertPreviousVma_chain h.chain hv).2.symm.trans hnone, ?_⟩
    rw [h.chain.head_eq]
    simp

lemma successor_toFront (h : ToFront s siz flag) :
    successor s addr siz flag = s.vm.firstAllocation := by
  rw [successor, if_pos h.1, if_pos h.2.1, h.2.2]

/-- What an accepted request leaves: its area stands before its successor. -/
structure LinkedIn (s : State) (xs : List Ptr) (v : Ptr) (addr siz flag : UInt32)
    (r : UInt32 × State) : Prop where
  addr_eq : r.1 = candidate s addr siz flag
  extent_eq : r.2.extent = Function.update s.extent v (r.1, siz)
  listed : ∃ pre post, xs = pre ++ post ∧ successor s addr siz flag = post.head? ∧
    Listed r.2 (pre ++ v :: post)
  last : r.2.vm.lastAllocation = none →
    s.vm.lastAllocation = none ∧ (s.vm.firstAllocation ≠ none ∨ ToFront s siz flag)

lemma Listed.allocate (h : Listed s xs) (hv : v ∉ xs) (hok : LinkOk s v addr siz flag)
    {r : UInt32 × State} (hr : allocateVma s v addr siz attr flag = some r) :
    LinkedIn s xs v addr siz flag r := by
  rw [allocateVma] at hr
  split_ifs at hr with hsize
  obtain ⟨r, hp, rfl⟩ := Option.map_eq_some_iff.mp hr
  obtain ⟨-, haddr, hplace⟩ := placeVma_some hp
  have hinserted : SameAreas s r.2 ∧ (∃ pre post, xs = pre ++ post ∧
      successor s addr siz flag = post.head? ∧ Listed r.2 (pre ++ v :: post)) ∧
      (r.2.vm.lastAllocation = none →
        s.vm.lastAllocation = none ∧ (s.vm.firstAllocation ≠ none ∨ ToFront s siz flag)) := by
    rcases hplace with ⟨hfront, hs⟩ | ⟨hfront, hs⟩
    · rw [hs]
      refine ⟨insertFirstVma_sameAreas s v, ⟨[], xs, rfl, ?_, ?_⟩, fun hnone => ?_⟩
      · rw [successor_toFront hfront, h.chain.head_eq]
      · exact h.insertFirst hv (hok.front hfront)
      · exact ⟨(insertFirstVma_last s v).symm.trans hnone, .inr hfront⟩
    · obtain ⟨pre, post, rfl, hsucc⟩ := h.successor_eq addr siz flag
      rw [hs, hsucc]
      refine ⟨insertPreviousVma_sameAreas s v _, ⟨pre, post, rfl, rfl, ?_⟩, fun hnone => ?_⟩
      · exact h.insertPrevious hv fun hend => hok.behind hfront (hsucc.trans hend)
      · obtain ⟨hlast, hne⟩ := h.insertPrevious_last hv hnone
        exact ⟨hlast, .inl hne⟩
  obtain ⟨hsame, ⟨pre, post, hxs, hsucc, hlisted⟩, hlast⟩ := hinserted
  refine ⟨haddr, ?_, ⟨pre, post, hxs, hsucc, ?_⟩, by simpa using hlast⟩
  · rw [setArea_extent, extent_of_sameAreas hsame]
  · exact ⟨by simpa using hlisted.chain, by simpa using hlisted.last_eq⟩

/-- What a lookup tests. -/
def Covers (s : State) (a : UInt32) (x : Ptr) : Bool :=
  (s.extent x).1 ≤ a && a < (s.extent x).1 + (s.extent x).2

lemma LinkedIn.found {r : UInt32 × State} (h : LinkedIn s xs v addr siz flag r) (hs : Listed s xs)
    (hv : v ∉ xs) (hok : FoundAgain s addr siz flag) :
    mmGetVmaByAddress r.2 r.1 = some v := by
  obtain ⟨pre, post, rfl, hsucc, hlisted⟩ := h.listed
  have hlast := hlisted.last_eq.resolve_right fun hnone => by
    obtain ⟨hbefore, hlost⟩ := h.last hnone
    obtain ⟨hfirst, hfront⟩ := hok.whole hbefore
    exact hlost.elim (fun hne => hne hfirst) hfront
  have hlen : (pre ++ v :: post).reverse.length ≤ addressSpace := by
    rw [List.length_reverse]
    exact nodup_length_le hlisted.chain.nodup
  have hself : Covers r.2 r.1 v = true := by
    rw [Covers, h.extent_eq, Function.update_self, h.addr_eq]
    simpa using hok.noWrap
  have hbehind : ∀ x ∈ post, Covers r.2 r.1 x = false := by
    intro x hx
    have hne : x ≠ v := fun he => hv (by simp [← he, hx])
    have hreach : Reaches s.next (successor s addr siz flag) x := by
      have hlinked := ((linked_append pre post).mp hs.chain.linked).2
      exact hlinked.reaches (fun y hy => .head (hsucc.trans hy)) x hx
    rw [Bool.eq_false_iff, ne_eq, Covers, h.extent_eq, Function.update_of_ne hne, h.addr_eq,
      Bool.and_eq_true, decide_eq_true_iff, decide_eq_true_iff]
    exact hok.alone x hreach
  have hfind : mmGetVmaByAddress r.2 r.1 =
      (pre ++ v :: post).reverse.find? (Covers r.2 r.1) := by
    rw [mmGetVmaByAddress, hlast, ← List.head?_reverse]
    exact search_eq_find hlisted.chain.linked.reverse hlen
  have hnone : post.reverse.find? (Covers r.2 r.1) = none := by
    rw [List.find?_eq_none]
    intro x hx
    simp [hbehind x (List.mem_reverse.mp hx)]
  rw [hfind, List.reverse_append, List.reverse_cons, List.append_assoc, List.find?_append, hnone]
  simp [hself]

end Listed

end Sgos.VirtualMemory
