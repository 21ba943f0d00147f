import Sgos.Queue

/-!
# Queues as lists

Each operation of `kernel/lib/kqueue.c` on a well-formed queue is the list operation it is named
after. The list runs from the back, where elements leave, to the front.
-/
namespace Sgos.Queue
open LinkedChain

namespace State
variable (s : State) (p v : Ptr) (x : Option Ptr) (n : Int32)

@[simp] lemma setNext_next : (s.setNext p x).next = Function.update s.next p x := by
  funext q; by_cases h : q = p <;> simp [setNext, modify, next, Function.update, h]
@[simp] lemma setNext_prev : (s.setNext p x).prev = s.prev := by
  funext q; by_cases h : q = p <;> simp [setNext, modify, prev, Function.update, h]
@[simp] lemma setNext_value : (s.setNext p x).value = s.value := by
  funext q; by_cases h : q = p <;> simp [setNext, modify, value, Function.update, h]
@[simp] lemma setNext_queue : (s.setNext p x).queue = s.queue := rfl
@[simp] lemma setNext_live : (s.setNext p x).live = s.live := rfl
@[simp] lemma setPrev_next : (s.setPrev p x).next = s.next := by
  funext q; by_cases h : q = p <;> simp [setPrev, modify, next, Function.update, h]
@[simp] lemma setPrev_prev : (s.setPrev p x).prev = Function.update s.prev p x := by
  funext q; by_cases h : q = p <;> simp [setPrev, modify, prev, Function.update, h]
@[simp] lemma setPrev_value : (s.setPrev p x).value = s.value := by
  funext q; by_cases h : q = p <;> simp [setPrev, modify, value, Function.update, h]
@[simp] lemma setPrev_queue : (s.setPrev p x).queue = s.queue := rfl
@[simp] lemma setPrev_live : (s.setPrev p x).live = s.live := rfl
@[simp] lemma setValue_next : (s.setValue p v).next = s.next := by
  funext q; by_cases h : q = p <;> simp [setValue, modify, next, Function.update, h]
@[simp] lemma setValue_prev : (s.setValue p v).prev = s.prev := by
  funext q; by_cases h : q = p <;> simp [setValue, modify, prev, Function.update, h]
@[simp] lemma setValue_value : (s.setValue p v).value = Function.update s.value p v := by
  funext q; by_cases h : q = p <;> simp [setValue, modify, value, Function.update, h]
@[simp] lemma setValue_queue : (s.setValue p v).queue = s.queue := rfl
@[simp] lemma setValue_live : (s.setValue p v).live = s.live := rfl
@[simp] lemma setFront_next : (s.setFront x).next = s.next := rfl
@[simp] lemma setFront_prev : (s.setFront x).prev = s.prev := rfl
@[simp] lemma setFront_value : (s.setFront x).value = s.value := rfl
@[simp] lemma setFront_queue : (s.setFront x).queue = { s.queue with front := x } := rfl
@[simp] lemma setFront_live : (s.setFront x).live = s.live := rfl
@[simp] lemma setBack_next : (s.setBack x).next = s.next := rfl
@[simp] lemma setBack_prev : (s.setBack x).prev = s.prev := rfl
@[simp] lemma setBack_value : (s.setBack x).value = s.value := rfl
@[simp] lemma setBack_queue : (s.setBack x).queue = { s.queue with back := x } := rfl
@[simp] lemma setBack_live : (s.setBack x).live = s.live := rfl
@[simp] lemma setCurNum_next : (s.setCurNum n).next = s.next := rfl
@[simp] lemma setCurNum_prev : (s.setCurNum n).prev = s.prev := rfl
@[simp] lemma setCurNum_value : (s.setCurNum n).value = s.value := rfl
@[simp] lemma setCurNum_queue : (s.setCurNum n).queue = { s.queue with curNum := n } := rfl
@[simp] lemma setCurNum_live : (s.setCurNum n).live = s.live := rfl
@[simp] lemma acquire_next : (s.acquire p).next = s.next := rfl
@[simp] lemma acquire_prev : (s.acquire p).prev = s.prev := rfl
@[simp] lemma acquire_value : (s.acquire p).value = s.value := rfl
@[simp] lemma acquire_queue : (s.acquire p).queue = s.queue := rfl
@[simp] lemma acquire_live : (s.acquire p).live = p :: s.live := rfl
@[simp] lemma release_next : (s.release p).next = s.next := rfl
@[simp] lemma release_prev : (s.release p).prev = s.prev := rfl
@[simp] lemma release_value : (s.release p).value = s.value := rfl
@[simp] lemma release_queue : (s.release p).queue = s.queue := rfl
@[simp] lemma release_live : (s.release p).live = s.live.erase p := rfl

end State

/-- The queue holds the nodes `xs`, from the back to the front, all of them live blocks. -/
structure Holds (s : State) (xs : List Ptr) : Prop where
  chain : Chain s.next s.prev s.queue.back xs
  front_eq : s.queue.front = xs.getLast?
  live : ∀ x ∈ xs, x ∈ s.live

variable {s : State} {xs : List Ptr} {nod : Ptr}

lemma Holds.back_eq (h : Holds s xs) : s.queue.back = xs.head? := h.chain.head_eq

lemma Holds.ends_eq_nil (h : Holds s []) : s.queue.front = none ∧ s.queue.back = none :=
  ⟨h.front_eq, h.back_eq⟩

/-- The values and the live blocks of two states are the same. -/
structure SameValues (s s' : State) : Prop where
  value : s'.value = s.value
  live : s'.live = s.live

lemma linkFront_sameValues (s : State) (nod : Ptr) : SameValues s (linkFront s nod) := by
  cases hf : s.queue.front <;> cases hb : s.queue.back <;>
    constructor <;> simp [linkFront, hf, hb]

lemma linkBack_sameValues (s : State) (nod : Ptr) : SameValues s (linkBack s nod) := by
  cases hf : s.queue.front <;> cases hb : s.queue.back <;>
    constructor <;> simp [linkBack, hf, hb]

lemma linkFront_holds (h : Holds s xs) (hn : nod ∉ xs) (hlive : nod ∈ s.live) :
    Holds (linkFront s nod) (xs ++ [nod]) := by
  rw [← List.append_nil xs] at hn
  have hlink := Chain.link (by simpa using h.chain) hn
  have hfront := h.front_eq
  have hback := h.back_eq
  have hsame := (linkFront_sameValues s nod).live
  refine ⟨?_, ?_, ?_⟩
  · cases hl : xs.getLast? with
    | none =>
      obtain rfl := List.getLast?_eq_none_iff.mp hl
      obtain ⟨hf, hb⟩ := h.ends_eq_nil
      simpa [linkFront, hf, hb, linkNext, linkPrev, linkEnd] using hlink
    | some f =>
      have hne : f ≠ nod := fun he => hn (by simp [← he, List.mem_of_getLast? hl])
      simpa [linkFront, hfront, hl, linkNext, linkPrev, linkEnd,
        Function.update_comm hne] using hlink
  · cases hf : s.queue.front <;> cases hb : s.queue.back <;> simp [linkFront, hf, hb]
  · intro x hx
    rw [hsame]
    rcases List.mem_append.mp hx with hx | hx
    · exact h.live x hx
    · rwa [List.mem_singleton.mp hx]

lemma linkBack_holds (h : Holds s xs) (hn : nod ∉ xs) (hlive : nod ∈ s.live) :
    Holds (linkBack s nod) (nod :: xs) := by
  have hlink := Chain.link (show Chain _ _ _ ([] ++ xs) from h.chain) hn
  have hlast := link_last [] xs nod
  have hfront := h.front_eq
  have hback := h.back_eq
  have hsame := (linkBack_sameValues s nod).live
  refine ⟨?_, ?_, ?_⟩
  · cases hl : xs.head? with
    | none =>
      obtain rfl := List.head?_eq_none_iff.mp hl
      obtain ⟨hf, hb⟩ := h.ends_eq_nil
      simpa [linkBack, hf, hb, linkNext, linkPrev, linkEnd] using hlink
    | some b =>
      have hne : b ≠ nod := fun he => hn (by simp [← he, List.mem_of_head? hl])
      simpa [linkBack, hback, hl, linkNext, linkPrev, linkEnd,
        Function.update_comm hne] using hlink
  · cases hl : xs.head? with
    | none =>
      obtain rfl := List.head?_eq_none_iff.mp hl
      obtain ⟨hf, hb⟩ := h.ends_eq_nil
      simp [linkBack, hf, hb]
    | some b =>
      obtain ⟨ys, rfl⟩ := List.head?_eq_some_iff.mp hl
      simpa [linkBack, hback, List.getLast?_cons_cons] using hfront
  · intro x hx
    rw [hsame]
    rcases List.mem_cons.mp hx with rfl | hx
    · exact hlive
    · exact h.live x hx

/-- A push that fails changes nothing. -/
lemma pushQueue_fst_or_snd (link : State → Ptr → State) (s : State) (block : Option Ptr)
    (data : Ptr) : (pushQueue link s block data).1 = 0 ∨ (pushQueue link s block data).2 = s := by
  rw [pushQueue]
  split_ifs
  · exact .inr rfl
  · cases mmAllocateKernelMemory s.live block with
    | none => exact .inr rfl
    | some nod => exact .inl rfl

/-- A push that succeeds links in one fresh node that carries the data. -/
lemma pushQueue_spec {link : State → Ptr → State} {ys : Ptr → List Ptr} {block : Option Ptr}
    {data : Ptr} {s' : State} (h : Holds s xs)
    (hsame : ∀ s nod, SameValues s (link s nod))
    (hlink : ∀ {s nod}, Holds s xs → nod ∉ xs → nod ∈ s.live → Holds (link s nod) (ys nod))
    (hp : pushQueue link s block data = (0, s')) :
    ∃ nod, nod ∉ s.live ∧ s'.live = nod :: s.live ∧ Holds s' (ys nod) ∧
      s'.value = Function.update s.value nod data := by
  rw [pushQueue] at hp
  split_ifs at hp with hfull
  · cases congrArg Prod.fst hp
  · cases hb : mmAllocateKernelMemory s.live block with
    | none =>
      rw [hb] at hp
      cases congrArg Prod.fst hp
    | some nod =>
      rw [hb] at hp
      obtain rfl := congrArg Prod.snd hp
      have hnl := not_mem_of_allocated hb
      have hn : nod ∉ xs := fun hm => hnl (h.live nod hm)
      refine ⟨nod, hnl, (hsame _ nod).live, hlink ⟨?_, h.front_eq, ?_⟩ hn List.mem_cons_self,
        (hsame _ nod).value.trans (State.setValue_value _ _ _)⟩
      · simpa using h.chain
      · exact fun x hx => List.mem_cons_of_mem _ (h.live x hx)

lemma rtlPushFrontQueue_spec {block : Option Ptr} {data : Ptr} {s' : State} (h : Holds s xs)
    (hp : rtlPushFrontQueue s block data = (0, s')) :
    ∃ nod, nod ∉ s.live ∧ s'.live = nod :: s.live ∧ Holds s' (xs ++ [nod]) ∧
      s'.value = Function.update s.value nod data :=
  pushQueue_spec h linkFront_sameValues (fun h => linkFront_holds h) hp

lemma rtlPushBackQueue_spec {block : Option Ptr} {data : Ptr} {s' : State} (h : Holds s xs)
    (hp : rtlPushBackQueue s block data = (0, s')) :
    ∃ nod, nod ∉ s.live ∧ s'.live = nod :: s.live ∧ Holds s' (nod :: xs) ∧
      s'.value = Function.update s.value nod data :=
  pushQueue_spec h linkBack_sameValues (fun h => linkBack_holds h) hp

lemma rtlPopBackQueue_nil (h : Holds s []) :
    (rtlPopBackQueue s).1 = none ∧ Holds (rtlPopBackQueue s).2 [] ∧
      SameValues s (rtlPopBackQueue s).2 := by
  simp only [rtlPopBackQueue, h.ends_eq_nil.2]
  exact ⟨trivial, ⟨by simpa using h.chain, by simpa using h.front_eq, by simp⟩, rfl, rfl⟩

/-- A pop takes the oldest element. -/
lemma rtlPopBackQueue_cons (h : Holds s (nod :: xs)) :
    (rtlPopBackQueue s).1 = some (s.value nod) ∧ Holds (rtlPopBackQueue s).2 xs ∧
      (rtlPopBackQueue s).2.value = s.value ∧
      (rtlPopBackQueue s).2.live = s.live.erase nod := by
  have hback : s.queue.back = some nod := h.back_eq
  have hunlink := h.chain.unlink List.mem_cons_self
  have hlast := h.chain.unlink_last List.mem_cons_self
  have hprev : s.prev nod = none := h.chain.linked.1
  rw [List.erase_cons_head] at hunlink hlast
  rw [← h.front_eq] at hlast
  have hlive : ∀ x ∈ xs, x ∈ s.live.erase nod := by
    intro x hx
    have hne : x ≠ nod := ne_of_mem_of_not_mem hx (List.nodup_cons.mp h.chain.nodup).1
    exact (List.mem_erase_of_ne hne).mpr (h.live x (by simp [hx]))
  cases hn : s.next nod <;>
    exact ⟨by simp [rtlPopBackQueue, hback],
      ⟨by simpa [rtlPopBackQueue, hback, hn, hprev, unlinkNext, unlinkPrev, unlinkEnd] using hunlink,
        by simpa [rtlPopBackQueue, hback, hn, hprev, unlinkEnd] using hlast,
        by simpa [rtlPopBackQueue, hback, hn] using hlive⟩,
      by simp [rtlPopBackQueue, hback, hn], by simp [rtlPopBackQueue, hback, hn]⟩

/-- A pop at the front takes the newest element, once the counter says that there is one. -/
lemma rtlPopFrontQueue_append (h : Holds s (xs ++ [nod])) (hn : s.queue.curNum ≠ 0) :
    (rtlPopFrontQueue s).1 = some (s.value nod) ∧ Holds (rtlPopFrontQueue s).2 xs ∧
      (rtlPopFrontQueue s).2.value = s.value := by
  have hfront : s.queue.front = some nod := by simpa using h.front_eq
  have hmem : nod ∈ xs ++ [nod] := by simp
  have hnod : nod ∉ xs := fun hx => (List.nodup_append'.mp h.chain.nodup).2.2 hx (by simp)
  have hunlink := h.chain.unlink hmem
  have hlast := h.chain.unlink_last hmem
  have hnext : s.next nod = none := h.chain.linked.next_eq
  rw [List.erase_append_right _ hnod, List.erase_cons_head, List.append_nil] at hunlink hlast
  rw [← h.front_eq] at hlast
  have hlive : ∀ x ∈ xs, x ∈ s.live.erase nod := by
    intro x hx
    have hne : x ≠ nod := ne_of_mem_of_not_mem hx hnod
    exact (List.mem_erase_of_ne hne).mpr (h.live x (by simp [hx]))
  cases hp : s.prev nod <;>
    exact ⟨by simp [rtlPopFrontQueue, hfront, hn],
      ⟨by simpa [rtlPopFrontQueue, hfront, hn, hp, hnext, unlinkNext, unlinkPrev, unlinkEnd]
          using hunlink,
        by simpa [rtlPopFrontQueue, hfront, hn, hp, hnext, unlinkEnd] using hlast,
        by simpa [rtlPopFrontQueue, hfront, hn, hp] using hlive⟩,
      by simp [rtlPopFrontQueue, hfront, hn, hp]⟩

lemma rtlRemoveQueueElement_spec (h : Holds s xs) (hx : nod ∈ xs) :
    Holds (rtlRemoveQueueElement s nod) (xs.erase nod) ∧
      (rtlRemoveQueueElement s nod).value = s.value ∧
      (rtlRemoveQueueElement s nod).live = s.live.erase nod := by
  have hunlink := h.chain.unlink hx
  have hlast := h.chain.unlink_last hx
  rw [← h.front_eq] at hlast
  have hlive : ∀ x ∈ xs.erase nod, x ∈ s.live.erase nod := by
    intro x hx
    obtain ⟨hne, hx⟩ := h.chain.nodup.mem_erase_iff.mp hx
    exact (List.mem_erase_of_ne hne).mpr (h.live x hx)
  cases hp : s.prev nod with
  | none =>
    cases hn : s.next nod <;>
      exact ⟨⟨by simpa [rtlRemoveQueueElement, hp, hn, unlinkNext, unlinkPrev, unlinkEnd]
            using hunlink,
          by simpa [rtlRemoveQueueElement, hp, hn, unlinkEnd] using hlast,
          by simpa [rtlRemoveQueueElement, hp, hn] using hlive⟩,
        by simp [rtlRemoveQueueElement, hp, hn], by simp [rtlRemoveQueueElement, hp, hn]⟩
  | some p =>
    have hne : nod ≠ p := (h.chain.prev_ne hx hp).symm
    cases hn : s.next nod <;>
      exact ⟨⟨by simpa [rtlRemoveQueueElement, hp, hn, hne, unlinkNext, unlinkPrev, unlinkEnd]
            using hunlink,
          by simpa [rtlRemoveQueueElement, hp, hn, hne, unlinkEnd] using hlast,
          by simpa [rtlRemoveQueueElement, hp, hn, hne] using hlive⟩,
        by simp [rtlRemoveQueueElement, hp, hn, hne], by simp [rtlRemoveQueueElement, hp, hn, hne]⟩

lemma rtlSearchQueue_eq_find (h : Holds s xs) (searcher : Ptr → Bool) :
    rtlSearchQueue s searcher = xs.find? fun nod => searcher (s.value nod) := by
  rw [rtlSearchQueue, h.back_eq]
  exact search_eq_find h.chain.linked (nodup_length_le h.chain.nodup)

end Sgos.Queue
