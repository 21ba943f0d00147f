import Sgos.GuardedRun
import Sgos.Ipc
import Sgos.QueueLists
import Mathlib.Data.List.Perm.Basic
import Mathlib.Data.List.Range

/-!
# Messages are delivered once and in order

The ledger of a run against the queue: each message for which `IpcSend` returned 0 is in one place
only, and unfiltered receives return messages in the order they were sent.
-/
namespace Sgos.Ipc
open GuardedRun LinkedChain Queue Scheduler

/-- The message that a receive has popped but not yet returned. -/
def System.takenOut (y : System) : List Ptr :=
  (y.pending.filter fun p => p.nod.isNone).toList.map Pending.kmsg

/-- The messages on their way: popped, or in the queue from the oldest on. -/
def System.waiting (y : System) (nodes : List Ptr) : List Ptr :=
  y.takenOut ++ nodes.map y.state.queue.value

/-- What the receiver gets of a message. -/
def received (s : State) (k : KMessage) : Message :=
  { k.userMessage with threadId := s.threadId k.source }

/-- The ledger agrees with the queue, whose nodes are `nodes` from the back on. -/
structure Delivered (y : System) (nodes : List Ptr) : Prop where
  chain : Chain y.state.queue.next y.state.queue.prev y.state.queue.queue.back nodes
  once : (y.ledger.returned.map Prod.fst ++ (y.waiting nodes).map y.ledger.tag).Perm
    (List.range y.ledger.sent.length)
  inOrder : (y.ledger.unfiltered ++ (y.waiting nodes).map y.ledger.tag).Pairwise (· < ·)
  contents : ∀ p ∈ y.waiting nodes, y.ledger.sent[y.ledger.tag p]? = some (y.state.message p)
  unfiltered : y.ledger.unfiltered.Sublist (y.ledger.returned.map Prod.fst)
  returned : ∀ r ∈ y.ledger.returned,
    ∃ k, y.ledger.sent[r.1]? = some k ∧ r.2 = received y.state k

/-- A pending receive by source has its node in the queue, any other has popped its message. -/
structure PendingOk (y : System) (nodes : List Ptr) (p : Pending) : Prop where
  flag : p.flag &&& MSG_KEEP = 0
  popped : p.nod = none ↔ p.thrSrc = none
  node : ∀ nod, p.nod = some nod → nod ∈ nodes ∧ y.state.queue.value nod = p.kmsg

structure Inv (y : System) (nodes : List Ptr) : Prop where
  holds : Holds y.state.queue nodes
  delivered : Delivered y nodes
  nodup : (nodes ++ y.waiting nodes).Nodup
  live : ∀ p ∈ y.waiting nodes, p ∈ y.state.queue.live
  pending : ∀ p, y.pending = some p → PendingOk y nodes p

/-- The receiver takes messages. -/
def System.Accepts (y : System) : Prop :=
  y.state.locked = false ∧ y.state.threadState ≠ .dead ∧ y.state.threadState ≠ .init

/-- A send finds room in the queue and memory for a node; a receive that asks for a command only
finds no message with it. -/
def StepOk (y : System) : Event → Prop
  | .send _ _ kmsgBlock nodBlock =>
      y.Accepts → ∀ kmsg, mmAllocateKernelMemory y.state.queue.live kmsgBlock = some kmsg →
        y.state.queue.queue.curNum < y.state.queue.queue.maxNum ∧
          mmAllocateKernelMemory (kmsg :: y.state.queue.live) nodBlock ≠ none
  | .search usermsg thrSrc _ _ _ =>
      y.Idle → thrSrc = none → usermsg.command ≠ 0 →
        rtlSearchQueue y.state.queue (messageSearcher2 y.state usermsg) = none
  | .finish => True

section Steps
variable {y : System} {nodes : List Ptr}

lemma takenOut_popped {p : Pending} (h : y.pending = some p) (hn : p.nod = none) :
    y.takenOut = [p.kmsg] := by
  simp [System.takenOut, h, hn]

lemma takenOut_found {p : Pending} (h : y.pending = some p) {nod : Ptr} (hn : p.nod = some nod) :
    y.takenOut = [] := by
  simp [System.takenOut, h, hn]

/-- A push on a queue with room succeeds. -/
lemma rtlPushFrontQueue_of_room {s : Queue.State} {block : Option Ptr} {data : Ptr}
    (hroom : s.queue.curNum < s.queue.maxNum)
    (hblock : mmAllocateKernelMemory s.live block ≠ none) :
    (rtlPushFrontQueue s block data).1 = 0 := by
  obtain ⟨nod, hnod⟩ := Option.ne_none_iff_exists'.mp hblock
  have hfull : ¬ s.queue.curNum ≥ s.queue.maxNum := by
    rw [ge_iff_le, Int32.not_le]
    exact hroom
  rw [rtlPushFrontQueue, pushQueue, if_neg hfull, hnod]

/-- A send is refused and changes nothing, or pushes its message, whatever the push returns. -/
lemma ipcSend_cases (s : State) (usermsg : Message) (source : Ptr)
    (kmsgBlock nodBlock : Option Ptr) :
    (ipcSend s (some s.self) usermsg source kmsgBlock nodBlock).1 ≠ 0 ∧
        (ipcSend s (some s.self) usermsg source kmsgBlock nodBlock).2 = s ∨
      ∃ kmsg, s.threadState ≠ .dead ∧ s.threadState ≠ .init ∧
        mmAllocateKernelMemory s.queue.live kmsgBlock = some kmsg ∧
        ipcSend s (some s.self) usermsg source kmsgBlock nodBlock =
          (0, { s with
            message := Function.update s.message kmsg ⟨usermsg, s.self, source⟩
            queue := (rtlPushFrontQueue (s.queue.acquire kmsg) nodBlock kmsg).2 }) := by
  have hwrong : -ERR_WRONGARG ≠ 0 := by decide
  have hnomem : -ERR_NOMEM ≠ 0 := by decide
  rw [ipcSend]
  split_ifs with hdead
  · exact .inl ⟨hwrong, rfl⟩
  · obtain ⟨hd, hi⟩ := not_or.mp hdead
    cases hk : mmAllocateKernelMemory s.queue.live kmsgBlock with
    | none => exact .inl ⟨hnomem, rfl⟩
    | some kmsg => exact .inr ⟨kmsg, hd, hi, rfl, rfl⟩

lemma Delivered.lt_sent (h : Delivered y nodes) {n : ℕ}
    (hn : n ∈ y.ledger.unfiltered ++ (y.waiting nodes).map y.ledger.tag) :
    n < y.ledger.sent.length := by
  refine List.mem_range.mp (h.once.subset ?_)
  rcases List.mem_append.mp hn with hn | hn
  · exact List.mem_append_left _ (h.unfiltered.mem hn)
  · exact List.mem_append_right _ hn

/-- The system after `kmsg` has been pushed with content `k`, leaving the queue `q`. -/
def System.push (y : System) (kmsg : Ptr) (k : KMessage) (q : Queue.State) : System :=
  { y with
    state := { y.state with message := Function.update y.state.message kmsg k, queue := q }
    ledger := y.ledger.recordSent kmsg k }

/-- A pushed message is the youngest one waiting. -/
lemma Inv.push (h : Inv y nodes) {kmsg nod : Ptr} {k : KMessage} {q : Queue.State}
    (hkmsg : kmsg ∉ y.state.queue.live) (hnod : nod ∉ y.state.queue.live) (hne : nod ≠ kmsg)
    (hq : Holds q (nodes ++ [nod])) (hlive : q.live = nod :: kmsg :: y.state.queue.live)
    (hvalue : q.value = Function.update y.state.queue.value nod kmsg) :
    Inv (y.push kmsg k q) (nodes ++ [nod]) := by
  have hold : ∀ x ∈ nodes, q.value x = y.state.queue.value x := fun x hx => by
    rw [hvalue, Function.update_of_ne (ne_of_mem_of_not_mem (h.holds.live x hx) hnod)]
  have hnew : ∀ p ∈ y.waiting nodes, p ≠ kmsg := fun p hp =>
    ne_of_mem_of_not_mem (h.live p hp) hkmsg
  have hwaiting : (y.push kmsg k q).waiting (nodes ++ [nod]) = y.waiting nodes ++ [kmsg] := by
    have hnodval : q.value nod = kmsg := by rw [hvalue, Function.update_self]
    have hmap : nodes.map q.value = nodes.map y.state.queue.value := List.map_congr_left hold
    simp [System.waiting, System.takenOut, System.push, hmap, hnodval]
  have htags : (y.waiting nodes ++ [kmsg]).map (y.push kmsg k q).ledger.tag =
      (y.waiting nodes).map y.ledger.tag ++ [y.ledger.sent.length] := by
    have hmap : (y.waiting nodes).map (y.push kmsg k q).ledger.tag =
        (y.waiting nodes).map y.ledger.tag :=
      List.map_congr_left fun p hp => Function.update_of_ne (hnew p hp) _ _
    rw [List.map_append, hmap]
    simp [System.push, Ledger.recordSent]
  have hsent : (y.push kmsg k q).ledger.sent = y.ledger.sent ++ [k] := rfl
  have hkeep : ∀ {n : ℕ} {k' : KMessage}, y.ledger.sent[n]? = some k' →
      (y.ledger.sent ++ [k])[n]? = some k' := fun hn => by
    rw [List.getElem?_append_left (List.getElem?_eq_some_iff.mp hn).1, hn]
  refine ⟨hq, ⟨hq.chain, ?_, ?_, ?_, h.delivered.unfiltered, ?_⟩, ?_, ?_, ?_⟩
  · rw [hwaiting, htags, hsent, List.length_append, List.length_singleton, List.range_succ,
      ← List.append_assoc]
    exact h.delivered.once.append_right _
  · rw [hwaiting, htags, ← List.append_assoc]
    refine List.pairwise_append.mpr ⟨h.delivered.inOrder, List.pairwise_singleton _ _, ?_⟩
    intro n hn m hm
    rw [List.mem_singleton.mp hm]
    exact h.delivered.lt_sent hn
  · rw [hwaiting, hsent]
    intro p hp
    rcases List.mem_append.mp hp with hp | hp
    · simp only [System.push, Ledger.recordSent, Function.update_of_ne (hnew p hp)]
      exact hkeep (h.delivered.contents p hp)
    · rw [List.mem_singleton.mp hp]
      simp [System.push, Ledger.recordSent]
  · intro r hr
    obtain ⟨k', hk', he⟩ := h.delivered.returned r hr
    exact ⟨k', hkeep hk', he⟩
  · have hnodes : nod ∉ nodes ++ y.waiting nodes := fun hm =>
      (List.mem_append.mp hm).elim (fun hm => hnod (h.holds.live nod hm))
        fun hm => hnod (h.live nod hm)
    have hkmsgs : kmsg ∉ nodes ++ y.waiting nodes := fun hm =>
      (List.mem_append.mp hm).elim (fun hm => hkmsg (h.holds.live kmsg hm))
        fun hm => hkmsg (h.live kmsg hm)
    rw [hwaiting]
    have hperm : ((nodes ++ [nod]) ++ (y.waiting nodes ++ [kmsg])).Perm
        (nod :: kmsg :: (nodes ++ y.waiting nodes)) := by
      grind
    rw [hperm.nodup_iff]
    simp [hne, hnodes, hkmsgs, h.nodup]
  · rw [hwaiting]
    intro p hp
    simp only [System.push, hlive]
    rcases List.mem_append.mp hp with hp | hp
    · simp [h.live p hp]
    · simp [List.mem_singleton.mp hp]
  · intro p hp
    obtain ⟨hflag, hpopped, hnode⟩ := h.pending p hp
    refine ⟨hflag, hpopped, fun n hn => ?_⟩
    obtain ⟨hmem, hval⟩ := hnode n hn
    exact ⟨by simp [hmem], (hold n hmem).trans hval⟩

lemma step_send (usermsg : Message) (source : Ptr) (kmsgBlock nodBlock : Option Ptr)
    (h : Inv y nodes) (hok : StepOk y (.send usermsg source kmsgBlock nodBlock)) :
    ∃ nodes, Inv (step y (.send usermsg source kmsgBlock nodBlock)) nodes := by
  rw [step]
  split_ifs with hlocked
  · exact ⟨nodes, h⟩
  · rcases ipcSend_cases y.state usermsg source kmsgBlock nodBlock with
      ⟨hr, hs⟩ | ⟨kmsg, hd, hi, hk, he⟩
    · refine ⟨nodes, ?_⟩
      dsimp only
      rw [hs]
      cases mmAllocateKernelMemory y.state.queue.live kmsgBlock <;> simpa [hr] using h
    · obtain ⟨hroom, hblock⟩ := hok ⟨by simpa using hlocked, hd, hi⟩ kmsg hk
      have hkmsg := not_mem_of_allocated hk
      have hacquired : Holds (y.state.queue.acquire kmsg) nodes :=
        ⟨h.holds.chain, h.holds.front_eq, fun x hx => List.mem_cons_of_mem _ (h.holds.live x hx)⟩
      have hpush : rtlPushFrontQueue (y.state.queue.acquire kmsg) nodBlock kmsg =
          (0, (rtlPushFrontQueue (y.state.queue.acquire kmsg) nodBlock kmsg).2) :=
        Prod.ext (rtlPushFrontQueue_of_room hroom hblock) rfl
      obtain ⟨nod, hnod, hlive, hq, hvalue⟩ := rtlPushFrontQueue_spec hacquired hpush
      obtain ⟨hne, hnod⟩ := not_or.mp (mt List.mem_cons.mpr hnod)
      refine ⟨nodes ++ [nod], ?_⟩
      have hpushed := h.push (k := ⟨usermsg, y.state.self, source⟩) hkmsg hnod hne hq hlive hvalue
      simpa [he, hk, System.push] using hpushed

/-- Leaving the queue as it is, a receive changes nothing the ledger speaks of. -/
lemma Inv.requeue (h : Inv y nodes) {q : Queue.State} (hq : Holds q nodes)
    (hsame : SameValues y.state.queue q) (b : Bool) :
    Inv { y with state := { y.state with queue := q, locked := b } } nodes := by
  have hwaiting : System.waiting
      { y with state := { y.state with queue := q, locked := b } } nodes = y.waiting nodes := by
    simp [System.waiting, System.takenOut, hsame.value]
  refine ⟨hq, ⟨hq.chain, ?_, ?_, ?_, h.delivered.unfiltered, h.delivered.returned⟩, ?_, ?_, ?_⟩
  · rw [hwaiting]; exact h.delivered.once
  · rw [hwaiting]; exact h.delivered.inOrder
  · rw [hwaiting]; exact h.delivered.contents
  · rw [hwaiting]; exact h.nodup
  · rw [hwaiting]
    exact fun p hp => hsame.live ▸ h.live p hp
  · intro p hp
    obtain ⟨hflag, hpopped, hnode⟩ := h.pending p hp
    refine ⟨hflag, hpopped, fun nod hnod => ?_⟩
    simpa [hsame.value] using hnode nod hnod

/-- A message found by its source stays in the queue until the receive goes on. -/
lemma Inv.found (h : Inv y nodes) (hpending : y.pending = none) {nod thr : Ptr} (hnod : nod ∈ nodes)
    (flag : TakeFlag) :
    Inv { y with pending := some ⟨y.state.queue.value nod, some nod, some thr, flag.1⟩ } nodes := by
  have hwaiting : System.waiting
      { y with pending := some ⟨y.state.queue.value nod, some nod, some thr, flag.1⟩ } nodes =
        y.waiting nodes := by
    simp [System.waiting, System.takenOut, hpending, Option.filter]
  refine ⟨h.holds, ⟨h.delivered.chain, ?_, ?_, ?_, h.delivered.unfiltered,
    h.delivered.returned⟩, ?_, ?_, ?_⟩
  · rw [hwaiting]; exact h.delivered.once
  · rw [hwaiting]; exact h.delivered.inOrder
  · rw [hwaiting]; exact h.delivered.contents
  · rw [hwaiting]; exact h.nodup
  · rw [hwaiting]; exact h.live
  · rintro p hp
    obtain rfl := Option.some.inj hp
    refine ⟨flag.2, by simp, fun n hn => ?_⟩
    obtain rfl := Option.some.inj hn
    exact ⟨hnod, rfl⟩

/-- The oldest message, once popped, is still the first of those waiting. -/
lemma Inv.popped {nod : Ptr} (h : Inv y (nod :: nodes)) (hpending : y.pending = none)
    (flag : TakeFlag) {q : Queue.State} (hq : Holds q nodes)
    (hvalue : q.value = y.state.queue.value) (hlive : q.live = y.state.queue.live.erase nod) :
    Inv { y with
      state := y.state.setQueue q
      pending := some ⟨y.state.queue.value nod, none, none, flag.1⟩ } nodes := by
  have hwaiting : System.waiting { y with
      state := y.state.setQueue q
      pending := some ⟨y.state.queue.value nod, none, none, flag.1⟩ } nodes =
        y.waiting (nod :: nodes) := by
    simp [System.waiting, System.takenOut, hpending, Option.filter, State.setQueue, hvalue]
  obtain ⟨hnod, hnodup⟩ := List.nodup_cons.mp h.nodup
  refine ⟨hq, ⟨hq.chain, ?_, ?_, ?_, h.delivered.unfiltered, h.delivered.returned⟩, ?_, ?_, ?_⟩
  · rw [hwaiting]; exact h.delivered.once
  · rw [hwaiting]; exact h.delivered.inOrder
  · rw [hwaiting]; exact h.delivered.contents
  · rw [hwaiting]; exact hnodup
  · rw [hwaiting]
    intro p hp
    have hne : p ≠ nod := ne_of_mem_of_not_mem hp fun hm => hnod (List.mem_append_right _ hm)
    simpa [State.setQueue, hlive] using (List.mem_erase_of_ne hne).mpr (h.live p hp)
  · rintro p hp
    obtain rfl := Option.some.inj hp
    exact ⟨flag.2, by simp, by simp⟩

/-- What the choice of a message can do, unless it finds one by its command alone. -/
lemma ipcReceiveChoose_cases {s : State} (h : Holds s.queue nodes) (usermsg : Message)
    (thrSrc : Option Ptr)
    (hok : thrSrc = none → usermsg.command ≠ 0 →
      rtlSearchQueue s.queue (messageSearcher2 s usermsg) = none) :
    (∃ q, ipcReceiveChoose s usermsg thrSrc = (none, s.setQueue q) ∧ Holds q nodes ∧
        SameValues s.queue q) ∨
      (∃ thr nod, thrSrc = some thr ∧ nod ∈ nodes ∧
        ipcReceiveChoose s usermsg thrSrc = (some (s.queue.value nod, some nod), s)) ∨
      ∃ nod rest q, thrSrc = none ∧ nodes = nod :: rest ∧
        ipcReceiveChoose s usermsg thrSrc = (some (s.queue.value nod, none), s.setQueue q) ∧
        Holds q rest ∧ q.value = s.queue.value ∧ q.live = s.queue.live.erase nod := by
  have hsearch : ∀ (thr : Ptr) (searcher : Ptr → Bool),
      (∃ q, (searchMessage s searcher, s) = (none, s.setQueue q) ∧ Holds q nodes ∧
          SameValues s.queue q) ∨
        ∃ t nod, some thr = some t ∧ nod ∈ nodes ∧
          (searchMessage s searcher, s) = (some (s.queue.value nod, some nod), s) := by
    intro thr searcher
    rw [searchMessage]
    cases hn : rtlSearchQueue s.queue searcher with
    | none => exact .inl ⟨s.queue, rfl, h, rfl, rfl⟩
    | some nod =>
      rw [rtlSearchQueue_eq_find h] at hn
      exact .inr ⟨thr, nod, rfl, List.mem_of_find?_eq_some hn, rfl⟩
  cases thrSrc with
  | some thr =>
    have hsome : some thr ≠ none := Option.some_ne_none thr
    by_cases hc : usermsg.command ≠ 0
    · rw [ipcReceiveChoose, if_pos ⟨hsome, hc⟩]
      exact (hsearch thr _).imp_right .inl
    · rw [ipcReceiveChoose, if_neg (fun hh => hc hh.2), if_pos hsome]
      exact (hsearch thr _).imp_right .inl
  | none =>
    rw [ipcReceiveChoose, if_neg (fun hh => hh.1 rfl), if_neg (fun hh => hh rfl)]
    split_ifs with hc
    · rw [searchMessage, hok rfl hc]
      exact .inl ⟨s.queue, rfl, h, rfl, rfl⟩
    · cases nodes with
      | nil =>
        obtain ⟨hnone, hq, hsame⟩ := rtlPopBackQueue_nil h
        exact .inl ⟨_, by simp only [hnone]; rfl, hq, hsame⟩
      | cons nod rest =>
        obtain ⟨hsome, hq, hvalue, hlive⟩ := rtlPopBackQueue_cons h
        exact .inr (.inr ⟨nod, rest, _, rfl, rfl, by simp only [hsome]; rfl, hq, hvalue, hlive⟩)

lemma step_search (usermsg : Message) (thrSrc : Option Ptr) (flag : TakeFlag) (timeout : Int32)
    (elapsed : UInt32) (h : Inv y nodes)
    (hok : StepOk y (.search usermsg thrSrc flag timeout elapsed)) :
    ∃ nodes, Inv (step y (.search usermsg thrSrc flag timeout elapsed)) nodes := by
  rw [step]
  split_ifs with hidle
  · rcases ipcReceiveChoose_cases h.holds usermsg thrSrc (hok hidle) with
      ⟨q, he, hq, hsame⟩ | ⟨thr, nod, rfl, hmem, he⟩ | ⟨nod, rest, q, rfl, rfl, he, hq, hvalue, hlive⟩
    · refine ⟨nodes, ?_⟩
      have hkeep := h.requeue hq hsame y.state.locked
      have hlock := h.requeue hq hsame true
      rw [ipcReceiveSearch, he]
      dsimp only
      split_ifs
      · exact hkeep
      · exact hlock
      · exact hkeep
    · rw [ipcReceiveSearch, he]
      exact ⟨nodes, h.found hidle.2 hmem flag⟩
    · rw [ipcReceiveSearch, he]
      exact ⟨rest, h.popped hidle.2 flag hq hvalue hlive⟩
  · exact ⟨nodes, h⟩

/-- A waiting message is returned and leaves the queue as the list `nodes'`. -/
lemma Inv.record (h : Inv y nodes) {p : Pending} {q : Queue.State} {nodes' : List Ptr}
    (hq : Holds q nodes') (hsub : nodes'.Sublist nodes) (hvalue : q.value = y.state.queue.value)
    (hwaiting : (y.waiting nodes).Perm (p.kmsg :: nodes'.map y.state.queue.value))
    (horder : ((if p.nod = none then y.ledger.unfiltered ++ [y.ledger.tag p.kmsg]
      else y.ledger.unfiltered) ++
        (nodes'.map y.state.queue.value).map y.ledger.tag).Pairwise (· < ·))
    (hlive : ∀ x ∈ nodes'.map y.state.queue.value, x ∈ q.live) :
    Inv ⟨y.state.setQueue q, none,
      y.ledger.recordReturned p (received y.state (y.state.message p.kmsg))⟩ nodes' := by
  have hwait : System.waiting ⟨y.state.setQueue q, none,
      y.ledger.recordReturned p (received y.state (y.state.message p.kmsg))⟩ nodes' =
        nodes'.map y.state.queue.value := by
    simp [System.waiting, System.takenOut, hvalue]
  have hmem : ∀ x ∈ nodes'.map y.state.queue.value, x ∈ y.waiting nodes := fun x hx =>
    hwaiting.symm.subset (List.mem_cons_of_mem _ hx)
  refine ⟨hq, ⟨hq.chain, ?_, ?_, ?_, ?_, ?_⟩, ?_, ?_, by simp⟩
  · rw [hwait]
    refine .trans ?_ h.delivered.once
    simpa [Ledger.recordReturned] using ((hwaiting.map y.ledger.tag).symm.append_left _)
  · rw [hwait]
    exact horder
  · rw [hwait]
    exact fun x hx => h.delivered.contents x (hmem x hx)
  · simp only [Ledger.recordReturned, List.map_append, List.map_cons, List.map_nil]
    split_ifs
    · exact h.delivered.unfiltered.append (List.Sublist.refl _)
    · exact h.delivered.unfiltered.trans (List.sublist_append_left _ _)
  · intro r hr
    rcases List.mem_append.mp hr with hr | hr
    · exact h.delivered.returned r hr
    · rw [List.mem_singleton.mp hr]
      exact ⟨_, h.delivered.contents p.kmsg (hwaiting.symm.subset List.mem_cons_self), rfl⟩
  · rw [hwait]
    have hnodup := (hwaiting.append_left nodes).nodup_iff.mp h.nodup
    exact hnodup.sublist (hsub.append (List.sublist_cons_self _ _))
  · rw [hwait]
    exact hlive

/-- A receive by source removes its node and returns the message. -/
lemma Inv.finishFound (h : Inv y nodes) {p : Pending} (hp : y.pending = some p) {nod : Ptr}
    (hn : p.nod = some nod) :
    Inv ⟨messageEraser (y.state.setQueue (rtlRemoveQueueElement y.state.queue nod)) p.kmsg, none,
      y.ledger.recordReturned p (received y.state (y.state.message p.kmsg))⟩ (nodes.erase nod) := by
  obtain ⟨hmem, hval⟩ := (h.pending p hp).node nod hn
  obtain ⟨hq, hvalue, hlive⟩ := rtlRemoveQueueElement_spec h.holds hmem
  have hwaiting : y.waiting nodes = nodes.map y.state.queue.value := by
    simp [System.waiting, takenOut_found hp hn]
  have hperm : (y.waiting nodes).Perm (p.kmsg :: (nodes.erase nod).map y.state.queue.value) := by
    rw [hwaiting, ← hval, ← List.map_cons]
    exact (List.perm_cons_erase hmem).map _
  have hnodup := (hperm.append_left nodes).nodup_iff.mp h.nodup
  obtain ⟨_, hrest, hdis⟩ := List.nodup_append'.mp hnodup
  have hsub : (nodes.erase nod).Sublist nodes := List.erase_sublist
  have hkmsg : p.kmsg ∉ nodes := fun hm => hdis hm List.mem_cons_self
  refine h.record (q := (rtlRemoveQueueElement y.state.queue nod).release p.kmsg)
    ⟨hq.chain, hq.front_eq, fun x hx => ?_⟩ hsub hvalue hperm ?_ fun x hx => ?_
  · have hne : x ≠ p.kmsg := ne_of_mem_of_not_mem (hsub.mem hx) hkmsg
    exact (List.mem_erase_of_ne hne).mpr (hq.live x hx)
  · rw [hn, if_neg (Option.some_ne_none nod)]
    refine h.delivered.inOrder.sublist (.append_left ?_ _)
    rw [hwaiting]
    exact (hsub.map _).map _
  · have hne : x ≠ p.kmsg := ne_of_mem_of_not_mem hx (List.nodup_cons.mp hrest).1
    have hne' : nod ≠ x := ne_of_mem_of_not_mem hmem fun hm =>
      hdis hm (List.mem_cons_of_mem _ hx)
    have hx := h.live x (hperm.symm.subset (List.mem_cons_of_mem _ hx))
    rw [Queue.State.release_live, hlive]
    exact (List.mem_erase_of_ne hne).mpr ((List.mem_erase_of_ne hne'.symm).mpr hx)

/-- A receive that has popped its message returns it. -/
lemma Inv.finishPopped (h : Inv y nodes) {p : Pending} (hp : y.pending = some p)
    (hn : p.nod = none) :
    Inv ⟨messageEraser y.state p.kmsg, none,
      y.ledger.recordReturned p (received y.state (y.state.message p.kmsg))⟩ nodes := by
  have hwaiting : y.waiting nodes = p.kmsg :: nodes.map y.state.queue.value := by
    simp [System.waiting, takenOut_popped hp hn]
  have hnodup := h.nodup
  rw [hwaiting] at hnodup
  obtain ⟨_, hrest, hdis⟩ := List.nodup_append'.mp hnodup
  have hkmsg : p.kmsg ∉ nodes := fun hm => hdis hm List.mem_cons_self
  refine h.record (q := y.state.queue.release p.kmsg)
    ⟨h.holds.chain, h.holds.front_eq, fun x hx => ?_⟩ (List.Sublist.refl _) rfl
    (by rw [hwaiting]) ?_ fun x hx => ?_
  · have hne : x ≠ p.kmsg := ne_of_mem_of_not_mem hx hkmsg
    exact (List.mem_erase_of_ne hne).mpr (h.holds.live x hx)
  · have horder := h.delivered.inOrder
    rw [hwaiting] at horder
    simpa [hn] using horder
  · have hne : x ≠ p.kmsg := ne_of_mem_of_not_mem hx (List.nodup_cons.mp hrest).1
    have hx := h.live x (by rw [hwaiting]; exact List.mem_cons_of_mem _ hx)
    exact (List.mem_erase_of_ne hne).mpr hx

lemma step_finish (h : Inv y nodes) : ∃ nodes, Inv (step y .finish) nodes := by
  rw [step]
  cases hp : y.pending with
  | none => exact ⟨nodes, h⟩
  | some p =>
    obtain ⟨hflag, hpopped, _⟩ := h.pending p hp
    cases hn : p.nod with
    | none =>
      refine ⟨nodes, ?_⟩
      have hsrc := hpopped.mp hn
      have hdone := h.finishPopped hp hn
      simpa [ipcReceiveFinish, hsrc, hflag, messageEraser, received] using hdone
    | some nod =>
      refine ⟨nodes.erase nod, ?_⟩
      have hsrc : p.thrSrc ≠ none := fun hs => by simp [hpopped.mpr hs] at hn
      have hdone := h.finishFound hp hn
      simpa [ipcReceiveFinish, hsrc, hflag, hn, messageEraser, received] using hdone

lemma step_inv (y : System) (e : Event) (h : ∃ nodes, Inv y nodes) (hok : StepOk y e) :
    ∃ nodes, Inv (step y e) nodes := by
  obtain ⟨nodes, h⟩ := h
  cases e with
  | send usermsg source kmsgBlock nodBlock => exact step_send usermsg source _ _ h hok
  | search usermsg thrSrc flag timeout elapsed => exact step_search usermsg _ _ _ _ h hok
  | finish => exact step_finish h

end Steps

section Runs
variable (self : Ptr) (threadState : ThreadState) (node : Ptr → KQueueNode)
  (message : Ptr → KMessage) (threadId : Ptr → UInt32)

lemma start_inv : Inv (start (initial self threadState node message threadId)) [] := by
  refine ⟨⟨.nil, rfl, by simp⟩, ⟨.nil, ?_, ?_, ?_, ?_, ?_⟩, ?_, ?_, ?_⟩ <;>
    simp [start, initial, System.waiting, System.takenOut]

/-- In a run in which every accepted message finds room, and no receive that asks for a command
only finds a message, every accepted message is waiting or has been returned, once, and unfiltered
receives return messages in the order they were sent. -/
theorem run_delivered (es : List Event)
    (hok : Guarded step StepOk (start (initial self threadState node message threadId)) es) :
    ∃ nodes, Delivered (run step (start (initial self threadState node message threadId)) es)
      nodes := by
  obtain ⟨nodes, h⟩ := hok.invariant (fun y => ∃ nodes, Inv y nodes) step_inv
    ⟨[], start_inv self threadState node message threadId⟩
  exact ⟨nodes, h.delivered⟩

end Runs

/-- A message with nothing but a command. -/
def commandMessage (command : UInt32) : Message :=
  ⟨0, 0, command, Vector.replicate 10 0, 0, Vector.replicate 2 0⟩

def takeFlag : TakeFlag := ⟨0, rfl⟩

/-- A ready thread at address 1 with an empty queue. -/
def emptyReceiver : State :=
  initial 1 .ready (fun _ => ⟨none, none, 0⟩) (fun _ => ⟨commandMessage 0, 0, 0⟩) id

/-- Two messages from different threads: the second is asked for by its source while the first
waits. -/
theorem run_delivered_twoSources :
    ∃ nodes, Delivered (run step (start emptyReceiver)
      [.send (commandMessage 5) 7 (some 16) (some 32), .send (commandMessage 6) 9 (some 48) (some 64),
        .search { commandMessage 0 with threadId := 9 } (some 9) takeFlag 0 0, .finish,
        .search (commandMessage 0) none takeFlag 0 0, .finish]) nodes := by
  refine run_delivered _ _ _ _ _ _ ⟨?_, ?_, ?_, trivial, ?_, trivial, trivial⟩
  · intro _ kmsg hk
    obtain rfl : 16 = kmsg := Option.some.inj hk
    decide +kernel
  · intro _ kmsg hk
    have hk' : some 48 = some kmsg := hk
    obtain rfl := Option.some.inj hk'
    decide +kernel
  · intro _ hnone
    cases hnone
  · intro _ _ hc
    exact absurd rfl hc

/-- One message, a receive that asks for its command, and an unfiltered receive. -/
def receivedTwice : List Event :=
  [.send (commandMessage 5) 7 (some 16) (some 32),
    .search (commandMessage 5) none takeFlag 0 0, .finish,
    .search (commandMessage 0) none takeFlag 0 0, .finish]

/-- A receive that asks for a command only frees the message and leaves its node in the queue, so
the next receive returns the message again. -/
theorem run_not_delivered :
    ¬ ∀ (self : Ptr) (threadState : ThreadState) (node : Ptr → KQueueNode)
      (message : Ptr → KMessage) (threadId : Ptr → UInt32) (es : List Event),
      threadState ≠ .dead → threadState ≠ .init →
        ∃ nodes, Delivered
          (run step (start (initial self threadState node message threadId)) es) nodes := by
  intro h
  obtain ⟨nodes, hd⟩ := h 1 .ready (fun _ => ⟨none, none, 0⟩) (fun _ => ⟨commandMessage 0, 0, 0⟩) id
    receivedTwice (by decide) (by decide)
  have hlen := hd.once.length_eq
  rw [List.length_append, List.length_map, List.length_range] at hlen
  have hreturned : (run step (start emptyReceiver) receivedTwice).ledger.returned.length = 2 := by
    decide +kernel
  have hsent : (run step (start emptyReceiver) receivedTwice).ledger.sent.length = 1 := by
    decide +kernel
  simp only [emptyReceiver] at hreturned hsent
  omega

end Sgos.Ipc
