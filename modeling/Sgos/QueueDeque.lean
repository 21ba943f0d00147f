import Sgos.BoundedDeque
import Sgos.GuardedRun
import Sgos.QueueLists

/-!
# A queue is a bounded deque

`kernel/lib/kqueue.c` against the deque of capacity `max_num`. The nodes are the handles of the
elements. The counter and the links agree as long as `RtlPopBackQueue`, which decrements the
counter in any case, does not meet an empty queue.
-/
namespace Sgos.Queue
open BoundedDeque GuardedRun LinkedChain

/-- `block` is the block that `MmAllocateKernelMemory` returns. -/
inductive Event
  | pushFront (block data : Ptr)
  | pushBack (block data : Ptr)
  | popFront
  | popBack
  | remove (nod : Ptr)
  | search (searcher : Ptr → Bool)
  | quickSearch (v : Ptr)

/-- What a call returns; a search also stores a node. -/
inductive Result
  | code (c : Int32)
  | value (v : Option Ptr)
  | found (v nod : Option Ptr)
  | done
  deriving DecidableEq, Repr

def step (s : State) : Event → Result × State
  | .pushFront block data =>
      let r := rtlPushFrontQueue s (some block) data
      (.code r.1, r.2)
  | .pushBack block data =>
      let r := rtlPushBackQueue s (some block) data
      (.code r.1, r.2)
  | .popFront =>
      let r := rtlPopFrontQueue s
      (.value r.1, r.2)
  | .popBack =>
      let r := rtlPopBackQueue s
      (.value r.1, r.2)
  | .remove nod => (.done, rtlRemoveQueueElement s nod)
  | .search searcher =>
      let r := searchResult s (rtlSearchQueue s searcher)
      (.found r.1 r.2, s)
  | .quickSearch v =>
      let r := searchResult s (rtlQuickSearchQueue s v)
      (.found r.1 r.2, s)

/-- The result of a push on the deque. -/
def pushed (d : Deque Ptr Ptr) : Option (Deque Ptr Ptr) → Result × Deque Ptr Ptr
  | some d' => (.code 0, d')
  | none => (.code (-ERR_NOMEM), d)

/-- The calls on the abstract deque. -/
def dequeStep (d : Deque Ptr Ptr) : Event → Result × Deque Ptr Ptr
  | .pushFront block data => pushed d (d.pushFront block data)
  | .pushBack block data => pushed d (d.pushBack block data)
  | .popFront => (.value d.popFront.1, d.popFront.2)
  | .popBack => (.value d.popBack.1, d.popBack.2)
  | .remove nod => (.done, d.remove nod)
  | .search searcher => (.found ((d.find searcher).map Prod.snd) ((d.find searcher).map Prod.fst), d)
  | .quickSearch v => (.found ((d.find (· = v)).map Prod.snd) ((d.find (· = v)).map Prod.fst), d)

/-- A node of the queue. -/
def IsNode (s : State) (nod : Ptr) : Prop := Reaches s.next s.queue.back nod

/-- The allocator returns free blocks, and removals are of nodes of the queue. -/
def Proper (s : State) : Event → Prop
  | .pushFront block _ | .pushBack block _ => block ∉ s.live
  | .remove nod => IsNode s nod
  | _ => True

/-- No pop from the back of an empty queue. -/
def StepOk (s : State) (e : Event) : Prop :=
  Proper s e ∧ match e with
    | .popBack => s.queue.back ≠ none
    | _ => True

/-- The counter is the number of linked nodes. -/
def CountsNodes (s : State) : Prop :=
  ∃ xs : List Ptr, Visits s.next s.queue.back xs ∧ s.queue.curNum.toInt = xs.length

/-- A queue just created. The heap may hold anything. -/
def create (size : Int32) (node : Ptr → KQueueNode) (live : List Ptr) : State :=
  ⟨node, rtlCreateQueue size, live⟩

/-! ## The refinement -/

/-- The queue stands for the deque. -/
structure Refines (s : State) (d : Deque Ptr Ptr) (xs : List Ptr) : Prop where
  holds : Holds s xs
  items : d.items = xs.map fun x => (x, s.value x)
  count : s.queue.curNum.toInt = xs.length
  cap : s.queue.maxNum.toInt = d.cap

section Refines
variable {s : State} {d : Deque Ptr Ptr} {xs : List Ptr}

lemma Refines.length_eq (h : Refines s d xs) : d.items.length = xs.length := by
  rw [h.items, List.length_map]

lemma Refines.full_iff (h : Refines s d xs) :
    s.queue.curNum ≥ s.queue.maxNum ↔ ¬ d.items.length < d.cap := by
  rw [ge_iff_le, Int32.le_iff_toInt_le, h.count, h.cap, h.length_eq]
  omega

lemma toInt_add_one {n : Int32} {k : ℕ} (hn : n.toInt = k) (hk : (k : ℤ) + 1 < 2147483648) :
    (n + 1).toInt = (k : ℤ) + 1 := by
  rw [Int32.toInt_add, hn, Int32.toInt_one, Int.bmod_def]
  omega

lemma toInt_sub_one {n : Int32} {k : ℕ} (hn : n.toInt = (k : ℤ) + 1) : (n - 1).toInt = k := by
  have hlt := n.toInt_lt
  rw [hn] at hlt
  rw [Int32.toInt_sub, hn, Int32.toInt_one, Int.bmod_def]
  omega

/-- Counter and bound of two states are the same. -/
structure SameCounts (s s' : State) : Prop where
  curNum : s'.queue.curNum = s.queue.curNum
  maxNum : s'.queue.maxNum = s.queue.maxNum

lemma linkFront_sameCounts (s : State) (nod : Ptr) : SameCounts s (linkFront s nod) := by
  cases hf : s.queue.front <;> cases hb : s.queue.back <;>
    constructor <;> simp [linkFront, hf, hb]

lemma linkBack_sameCounts (s : State) (nod : Ptr) : SameCounts s (linkBack s nod) := by
  cases hf : s.queue.front <;> cases hb : s.queue.back <;>
    constructor <;> simp [linkBack, hf, hb]

lemma Refines.pushQueue_full (h : Refines s d xs) (link : State → Ptr → State) (block data : Ptr)
    (hfull : ¬ d.items.length < d.cap) :
    pushQueue link s (some block) data = (-ERR_NOMEM, s) := by
  rw [pushQueue, if_pos (h.full_iff.mpr hfull)]

/-- A push on a deque that is not full makes a node of the new block. -/
lemma Refines.pushQueue (h : Refines s d xs) {link : State → Ptr → State} {block : Ptr}
    (data : Ptr) {ys : Ptr → List Ptr} (d' : Deque Ptr Ptr) (hblock : block ∉ s.live)
    (hlt : d.items.length < d.cap)
    (hsame : ∀ s nod, SameValues s (link s nod)) (hcounts : ∀ s nod, SameCounts s (link s nod))
    (hlink : ∀ {s nod}, Holds s xs → nod ∉ xs → nod ∈ s.live → Holds (link s nod) (ys nod))
    (hperm : (ys block).Perm (block :: xs)) (hcap : d'.cap = d.cap)
    (hitems : d'.items = (ys block).map fun x => (x, Function.update s.value block data x)) :
    (pushQueue link s (some block) data).1 = 0 ∧
      Refines (pushQueue link s (some block) data).2 d' (ys block) := by
  have hbuf : mmAllocateKernelMemory s.live (some block) = some block := by
    simp [mmAllocateKernelMemory, hblock]
  have hroom : ¬ s.queue.curNum ≥ s.queue.maxNum := by
    rw [h.full_iff]
    exact not_not.mpr hlt
  have hmax := s.queue.maxNum.toInt_lt
  rw [h.cap] at hmax
  rw [h.length_eq] at hlt
  have hpush : Queue.pushQueue link s (some block) data =
      (0, link (((s.acquire block).setValue block data).setCurNum (s.queue.curNum + 1)) block) := by
    simp only [Queue.pushQueue, if_neg hroom, hbuf]
    rfl
  obtain ⟨nod, -, hlive, hholds, hvalue⟩ := pushQueue_spec h.holds hsame hlink hpush
  obtain rfl : block = nod := by
    rw [(hsame _ _).live] at hlive
    exact (List.cons.inj hlive).1
  rw [hpush]
  refine ⟨rfl, hholds, ?_, ?_, ?_⟩
  · rw [hitems, hvalue]
  · rw [(hcounts _ _).curNum, hperm.length_eq, List.length_cons]
    exact toInt_add_one h.count (by omega)
  · rw [(hcounts _ _).maxNum, hcap]
    exact h.cap

/-- Filling a free block changes no element. -/
lemma Refines.items_update (h : Refines s d xs) {block : Ptr} (hblock : block ∉ s.live)
    (data : Ptr) : xs.map (fun x => (x, Function.update s.value block data x)) = d.items := by
  rw [h.items]
  refine List.map_congr_left fun x hx => ?_
  have hne : x ≠ block := by
    rintro rfl
    exact hblock (h.holds.live x hx)
  rw [Function.update_of_ne hne]

/-- The call returns what the deque returns and the states still agree. -/
def Agrees (s : State) (d : Deque Ptr Ptr) (e : Event) : Prop :=
  (step s e).1 = (dequeStep d e).1 ∧ ∃ ys, Refines (step s e).2 (dequeStep d e).2 ys

lemma Refines.pushFront (h : Refines s d xs) {block : Ptr} (hblock : block ∉ s.live) (data : Ptr) :
    Agrees s d (.pushFront block data) := by
  simp only [Agrees, step, dequeStep, Deque.pushFront, rtlPushFrontQueue]
  by_cases hlt : d.items.length < d.cap
  · rw [dif_pos hlt]
    obtain ⟨hcode, hrefines⟩ := h.pushQueue data
      ⟨d.cap, d.items ++ [(block, data)], by simpa using Nat.succ_le_of_lt hlt⟩ hblock hlt
      linkFront_sameValues linkFront_sameCounts (fun h => linkFront_holds h)
      (List.perm_append_singleton _ _) rfl
      (by rw [List.map_append, h.items_update hblock, List.map_singleton, Function.update_self])
    exact ⟨congrArg _ hcode, _, hrefines⟩
  · rw [dif_neg hlt, h.pushQueue_full _ _ _ hlt]
    exact ⟨rfl, xs, h⟩

lemma Refines.pushBack (h : Refines s d xs) {block : Ptr} (hblock : block ∉ s.live) (data : Ptr) :
    Agrees s d (.pushBack block data) := by
  simp only [Agrees, step, dequeStep, Deque.pushBack, rtlPushBackQueue]
  by_cases hlt : d.items.length < d.cap
  · rw [dif_pos hlt]
    obtain ⟨hcode, hrefines⟩ := h.pushQueue data
      ⟨d.cap, (block, data) :: d.items, hlt⟩ hblock hlt
      linkBack_sameValues linkBack_sameCounts (fun h => linkBack_holds h) (List.Perm.refl _) rfl
      (by rw [List.map_cons, h.items_update hblock, Function.update_self])
    exact ⟨congrArg _ hcode, _, hrefines⟩
  · rw [dif_neg hlt, h.pushQueue_full _ _ _ hlt]
    exact ⟨rfl, xs, h⟩

/-- One element has left: the counter was decremented, the bound kept. -/
structure OneLess (s s' : State) : Prop where
  curNum : s'.queue.curNum = s.queue.curNum - 1
  maxNum : s'.queue.maxNum = s.queue.maxNum

lemma rtlPopBackQueue_oneLess (s : State) : OneLess s (rtlPopBackQueue s).2 := by
  cases hb : s.queue.back with
  | none => constructor <;> simp [rtlPopBackQueue, hb]
  | some b => cases hn : s.next b <;> constructor <;> simp [rtlPopBackQueue, hb, hn]

lemma rtlPopFrontQueue_oneLess {s : State} (hcount : s.queue.curNum ≠ 0) :
    OneLess s (rtlPopFrontQueue s).2 := by
  cases hf : s.queue.front with
  | none => constructor <;> simp [rtlPopFrontQueue, hcount, hf]
  | some f => cases hp : s.prev f <;> constructor <;> simp [rtlPopFrontQueue, hcount, hf, hp]

lemma rtlRemoveQueueElement_oneLess (s : State) (nod : Ptr) :
    OneLess s (rtlRemoveQueueElement s nod) := by
  cases hp : s.prev nod with
  | none =>
    cases hn : s.next nod <;> constructor <;> simp [rtlRemoveQueueElement, hp, hn]
  | some p =>
    by_cases hne : nod = p
    · subst hne
      cases hn : s.next nod <;> constructor <;> simp [rtlRemoveQueueElement, hp, hn]
    · cases hn : s.next nod <;> constructor <;> simp [rtlRemoveQueueElement, hp, hn, hne]

/-- What is left after an element has left. -/
lemma Refines.less (h : Refines s d xs) {s' : State} {d' : Deque Ptr Ptr} {ys : List Ptr}
    (hless : OneLess s s') (hholds : Holds s' ys) (hvalue : s'.value = s.value)
    (hlen : xs.length = ys.length + 1) (hitems : d'.items = ys.map fun x => (x, s.value x))
    (hcap : d'.cap = d.cap) : Refines s' d' ys := by
  refine ⟨hholds, by rw [hitems, hvalue], ?_, ?_⟩
  · rw [hless.curNum]
    refine toInt_sub_one ?_
    rw [h.count, hlen]
    rfl
  · rw [hless.maxNum, hcap, h.cap]

lemma Refines.popBack (h : Refines s d xs) (hne : s.queue.back ≠ none) :
    Agrees s d .popBack := by
  cases xs with
  | nil => exact absurd h.holds.back_eq hne
  | cons x xs =>
    obtain ⟨hvalue, hholds, hsame, -⟩ := rtlPopBackQueue_cons h.holds
    have hitems := h.items
    refine ⟨?_, xs, h.less (rtlPopBackQueue_oneLess s) hholds hsame rfl ?_ rfl⟩
    · simp [step, dequeStep, Deque.popBack, hitems, hvalue]
    · simp [dequeStep, Deque.popBack, hitems]

/-- A counter of 0 is an empty deque. -/
lemma Refines.curNum_eq_zero (h : Refines s d xs) : s.queue.curNum = 0 ↔ xs = [] := by
  rw [← Int32.toInt_inj, h.count, Int32.toInt_zero, ← List.length_eq_zero_iff]
  omega

lemma Refines.popFront (h : Refines s d xs) : Agrees s d .popFront := by
  cases xs using List.reverseRecOn with
  | nil =>
    have hcount := h.curNum_eq_zero.mpr rfl
    have hitems := h.items
    have hstep : step s .popFront = (.value none, s) := by
      simp [step, rtlPopFrontQueue, hcount]
    have hnext : (dequeStep d .popFront).2 = d := by
      cases d
      simp_all [dequeStep, Deque.popFront]
    rw [Agrees, hstep, hnext]
    exact ⟨by simp [dequeStep, Deque.popFront, hitems], [], h⟩
  | append_singleton xs x =>
    have hcount : s.queue.curNum ≠ 0 := by simp [h.curNum_eq_zero]
    obtain ⟨hvalue, hholds, hsame⟩ := rtlPopFrontQueue_append h.holds hcount
    have hitems := h.items
    refine ⟨?_, xs, h.less (rtlPopFrontQueue_oneLess hcount) hholds hsame (by simp) ?_ rfl⟩
    · simp [step, dequeStep, Deque.popFront, hitems, hvalue]
    · simp [dequeStep, Deque.popFront, hitems]

lemma Refines.remove (h : Refines s d xs) {nod : Ptr} (hnod : IsNode s nod) :
    Agrees s d (.remove nod) := by
  have hmem : nod ∈ xs := h.holds.chain.reaches_iff.mp hnod
  obtain ⟨hholds, hsame, -⟩ := rtlRemoveQueueElement_spec h.holds hmem
  have hlen := List.length_erase_add_one hmem
  refine ⟨rfl, _, h.less (rtlRemoveQueueElement_oneLess s nod) hholds hsame hlen.symm ?_ rfl⟩
  show d.items.eraseP (·.1 = nod) = _
  rw [h.items, List.eraseP_map, List.erase_eq_eraseP']
  congr 2

/-- A search finds the node whose element the deque finds. -/
lemma Refines.rtlSearchQueue (h : Refines s d xs) (searcher : Ptr → Bool) :
    searchResult s (rtlSearchQueue s searcher) =
      ((d.find searcher).map Prod.snd, (d.find searcher).map Prod.fst) := by
  have hfind : d.find searcher = (Queue.rtlSearchQueue s searcher).map fun x => (x, s.value x) := by
    rw [Deque.find, h.items, List.find?_map, rtlSearchQueue_eq_find h.holds]
    rfl
  rw [hfind, searchResult, Option.map_map, Option.map_map]
  simp [Function.comp_def]

/-- One allowed call returns what the deque returns. -/
lemma Refines.step (h : Refines s d xs) {e : Event} (hok : StepOk s e) : Agrees s d e := by
  obtain ⟨hproper, hne⟩ := hok
  cases e with
  | pushFront block data => exact h.pushFront hproper data
  | pushBack block data => exact h.pushBack hproper data
  | popFront => exact h.popFront
  | popBack => exact h.popBack hne
  | remove nod => exact h.remove hproper
  | search searcher =>
    refine ⟨?_, xs, h⟩
    simp only [Queue.step, dequeStep, h.rtlSearchQueue]
  | quickSearch v =>
    refine ⟨?_, xs, h⟩
    simp only [Queue.step, dequeStep, rtlQuickSearchQueue, h.rtlSearchQueue]

lemma Refines.countsNodes (h : Refines s d xs) : CountsNodes s :=
  ⟨xs, h.holds.back_eq ▸ h.holds.chain.linked.visits, h.count⟩

end Refines

/-! ## Runs -/

lemma create_refines {m : Int32} (hm : 0 < m) (node : Ptr → KQueueNode) (live : List Ptr) :
    Refines (create m node live) (Deque.empty m.toInt.toNat) [] := by
  have hpos : 0 < m.toInt := by simpa [Int32.lt_iff_toInt_lt] using hm
  have hne : m ≠ 0 := by
    rintro rfl
    exact absurd hpos (by decide)
  refine ⟨⟨⟨rfl, List.nodup_nil, trivial⟩, rfl, by simp⟩, rfl, rfl, ?_⟩
  simp only [create, rtlCreateQueue, if_neg hne, Deque.empty]
  omega

/-- As long as no element is popped from the back of an empty queue, a queue created for `m`
elements returns what a deque of capacity `m` returns, and its counter counts its nodes. -/
theorem run_refines {m : Int32} (hm : 0 < m) (node : Ptr → KQueueNode) (live : List Ptr)
    {es : List Event} (h : Guarded (next step) StepOk (create m node live) es) :
    outputs step (create m node live) es = outputs dequeStep (Deque.empty m.toInt.toNat) es ∧
      CountsNodes (run (next step) (create m node live) es) := by
  have hsim : outputs step (create m node live) es =
        outputs dequeStep (Deque.empty m.toInt.toNat) es ∧
      ∃ xs, Refines (run (next step) (create m node live) es)
        (run (next dequeStep) (Deque.empty m.toInt.toNat) es) xs :=
    h.simulation (fun s d => ∃ xs, Refines s d xs)
      (fun s d e hr hok => hr.elim fun xs hxs => hxs.step hok) ⟨[], create_refines hm node live⟩
  obtain ⟨houts, xs, hxs⟩ := hsim
  exact ⟨houts, hxs.countsNodes⟩

def emptyNode : KQueueNode := ⟨none, none, 0⟩

/-- Pushes at both ends of a queue for two elements, one too many, a removal and the pops. -/
def bothEnds : List Event :=
  [.popFront, .pushFront 0x1000 7, .pushBack 0x2000 8, .pushFront 0x3000 9, .search (· = 7),
    .remove 0x1000, .popBack, .popFront]

theorem run_refines_bothEnds :
    outputs step (create 2 (fun _ => emptyNode) []) bothEnds =
        outputs dequeStep (Deque.empty 2) bothEnds ∧
      CountsNodes (run (next step) (create 2 (fun _ => emptyNode) []) bothEnds) := by
  refine run_refines (by decide) _ _ ⟨⟨trivial, trivial⟩, ⟨?_, trivial⟩, ⟨?_, trivial⟩, ⟨?_, trivial⟩,
    ⟨trivial, trivial⟩, ⟨?_, trivial⟩, ⟨trivial, ?_⟩, ⟨trivial, trivial⟩, trivial⟩
  · simp only [Proper]
    decide
  · simp only [Proper]
    decide
  · simp only [Proper]
    decide
  · exact .next (x := 0x2000) (.head (by decide)) (by decide)
  · decide

/-- After a pop from the empty queue a queue for one element takes two. -/
theorem run_not_refines :
    ¬ ∀ (m : Int32) (node : Ptr → KQueueNode) (live : List Ptr) (es : List Event), 0 < m →
      Guarded (next step) Proper (create m node live) es →
      outputs step (create m node live) es =
          outputs dequeStep (Deque.empty m.toInt.toNat) es ∧
        CountsNodes (run (next step) (create m node live) es) := by
  intro h
  have hproper : Guarded (next step) Proper (create 1 (fun _ => emptyNode) [])
      [.popBack, .pushFront 0x1000 7, .pushFront 0x2000 8] := by
    simp only [Guarded, Proper]
    decide
  have houts := (h 1 (fun _ => emptyNode) [] _ (by decide) hproper).1
  revert houts
  decide

end Sgos.Queue
