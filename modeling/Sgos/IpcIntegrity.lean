import Sgos.IpcDelivery

/-!
# What a receive hands back

`IpcReceive` of `kernel/ipc/message.c` with the part behind the release of the semaphore statement
by statement: the message is copied, its node is removed, the message is freed, and only then its
source is read. Between these statements other threads send messages, and memory that the queue
and its messages do not hold changes at will.
-/
namespace Sgos.IpcIntegrity
open GuardedRun Ipc LinkedChain Queue Scheduler

/-- The last statement of `IpcReceive` that has been executed, up to the release of the semaphore;
the copy of the message; the removal of its node; and the branches that free it or keep it. -/
inductive Stage
  | found | copied | removed | erased
  deriving DecidableEq, Repr

/-- A receive that has found a message. `usermsg` is the caller's buffer, `sent` the message as it
was sent. -/
structure Receive where
  pending : Pending
  stage : Stage
  usermsg : Message
  sent : KMessage

/-- `sent` is what `IpcSend` last wrote to a block, and `returned` lists what was sent against what
receives have handed back. -/
structure System where
  state : Ipc.State
  receive : Option Receive
  sent : Ptr → KMessage
  returned : List (KMessage × Message)

/-! ## The end of a receive in parts -/

/-- `*usermsg = kmsg->UserMessage`. -/
def copyMessage (s : Ipc.State) (p : Pending) : Message := (s.message p.kmsg).userMessage

def removeNode (s : Ipc.State) (p : Pending) : Ipc.State :=
  if p.thrSrc ≠ none ∧ p.flag &&& MSG_KEEP = 0 then
    match p.nod with
    | some nod => s.setQueue (rtlRemoveQueueElement s.queue nod)
    | none => s
  else s

def eraseMessage (s : Ipc.State) (p : Pending) (nodBlock : Option Ptr) : Ipc.State :=
  if p.thrSrc ≠ none then if p.flag &&& MSG_KEEP = 0 then messageEraser s p.kmsg else s
  else if p.flag &&& MSG_KEEP ≠ 0 then
    s.setQueue (rtlPushBackQueue s.queue nodBlock p.kmsg).2
  else messageEraser s p.kmsg

/-- `usermsg->ThreadId = kmsg->Source->ThreadId`. -/
def setSource (s : Ipc.State) (p : Pending) (usermsg : Message) : Message :=
  { usermsg with threadId := s.threadId (s.message p.kmsg).source }

/-- Without a preemption the parts are the end of `IpcReceive`. -/
theorem ipcReceiveFinish_eq (s : Ipc.State) (p : Pending) (nodBlock : Option Ptr) :
    ipcReceiveFinish s p nodBlock =
      (setSource (eraseMessage (removeNode s p) p nodBlock) p (copyMessage s p),
        eraseMessage (removeNode s p) p nodBlock) := by
  obtain ⟨kmsg, nod, thrSrc, flag⟩ := p
  cases nod <;> by_cases hsrc : thrSrc = none <;> by_cases hkeep : flag &&& MSG_KEEP = 0 <;>
    simp [ipcReceiveFinish, removeNode, eraseMessage, setSource, copyMessage, hsrc, hkeep]

/-- The next part of the receive in progress. -/
def advance (y : System) (r : Receive) (nodBlock : Option Ptr) : System :=
  match r.stage with
  | .found =>
      { y with receive := some { r with stage := .copied, usermsg := copyMessage y.state r.pending } }
  | .copied =>
      { y with
        state := removeNode y.state r.pending
        receive := some { r with stage := .removed } }
  | .removed =>
      { y with
        state := eraseMessage y.state r.pending nodBlock
        receive := some { r with stage := .erased } }
  | .erased =>
      { y with
        receive := none
        returned := y.returned ++ [(r.sent, setSource y.state r.pending r.usermsg)] }

/-- `write` is the activity of other users of the heap, in any memory that is not a live block of
the queue. -/
inductive Event
  | send (usermsg : Message) (source : Ptr) (kmsgBlock nodBlock : Option Ptr)
  | search (usermsg : Message) (thrSrc : Option Ptr) (flag : UInt32) (timeout : Int32)
      (elapsed : UInt32)
  | advance (nodBlock : Option Ptr)
  | write (p : Ptr) (message : KMessage) (node : KQueueNode)

/-- The receiver lets messages in. -/
def Accepts (s : Ipc.State) : Prop :=
  s.locked = false ∧ s.threadState ≠ .dead ∧ s.threadState ≠ .init

instance (s : Ipc.State) : Decidable (Accepts s) := inferInstanceAs (Decidable (_ ∧ _ ∧ _))

def step (y : System) : Event → System
  | .send usermsg source kmsgBlock nodBlock =>
      if Accepts y.state then
        match mmAllocateKernelMemory y.state.queue.live kmsgBlock with
        | none => y
        | some kmsg =>
            let r := ipcSend y.state (some y.state.self) usermsg source kmsgBlock nodBlock
            { y with state := r.2, sent := Function.update y.sent kmsg (r.2.message kmsg) }
      else y
  | .search usermsg thrSrc flag timeout elapsed =>
      match y.receive with
      | some _ => y
      | none =>
          if y.state.locked then y
          else
            match ipcReceiveSearch y.state usermsg thrSrc timeout elapsed with
            | (.found kmsg nod, s) =>
                { y with
                  state := s
                  receive := some ⟨⟨kmsg, nod, thrSrc, flag⟩, .found, usermsg, y.sent kmsg⟩ }
            | (_, s) => { y with state := s }
  | .advance nodBlock =>
      match y.receive with
      | none => y
      | some r => advance y r nodBlock
  | .write p message node =>
      if p ∈ y.state.queue.live then y
      else
        { y with
          state :=
            { y.state with
              message := Function.update y.state.message p message
              queue :=
                { y.state.queue with node := Function.update y.state.queue.node p node } } }

/-- No message has been sent. -/
def start (s : Ipc.State) : System := ⟨s, none, s.message, []⟩

/-- Every receive has handed back the message as it was sent, under the id of its sender. -/
def Intact (y : System) : Prop := ∀ r ∈ y.returned, r.2 = received y.state r.1

/-- The receive in progress has freed the block `p` and has yet to read its source. -/
def AwaitsSource (y : System) (p : Ptr) : Prop :=
  ∃ r, y.receive = some r ∧ r.stage = .erased ∧ r.pending.kmsg = p

/-- A receive that asks for a command only finds no message with it, and nobody changes the source
in a freed message that is still to be read. -/
def StepOk (y : System) : Event → Prop
  | .send _ source kmsgBlock _ =>
      Accepts y.state → ∀ kmsg, mmAllocateKernelMemory y.state.queue.live kmsgBlock = some kmsg →
        AwaitsSource y kmsg → source = (y.state.message kmsg).source
  | .search usermsg thrSrc _ _ _ =>
      y.receive = none → y.state.locked = false → thrSrc = none → usermsg.command ≠ 0 →
        rtlSearchQueue y.state.queue (messageSearcher2 y.state usermsg) = none
  | .advance _ => True
  | .write p message _ =>
      p ∉ y.state.queue.live → AwaitsSource y p → message.source = (y.state.message p).source

/-! ## The invariant -/

/-- The node of the message is still in the queue. -/
def Receive.Queued (r : Receive) : Prop :=
  r.pending.thrSrc ≠ none ∧ (r.stage = .found ∨ r.stage = .copied ∨ r.pending.flag &&& MSG_KEEP ≠ 0)

instance (r : Receive) : Decidable r.Queued := inferInstanceAs (Decidable (_ ∧ _))

/-- The message that the receive has taken out of the queue and not yet freed. -/
def Receive.inHand (r : Receive) : List Ptr :=
  if r.stage = .erased ∨ r.Queued then [] else [r.pending.kmsg]

/-- The messages that are alive, in a queue with the nodes `nodes`. -/
def System.owned (y : System) (nodes : List Ptr) : List Ptr :=
  (y.receive.map Receive.inHand).getD [] ++ nodes.map y.state.queue.value

/-- What the statements executed so far have made sure of. -/
structure ReceiveOk (y : System) (nodes : List Ptr) (r : Receive) : Prop where
  sent : r.stage ≠ .erased → y.sent r.pending.kmsg = r.sent
  copied : r.stage ≠ .found → r.usermsg = r.sent.userMessage
  source : r.stage = .erased → (y.state.message r.pending.kmsg).source = r.sent.source
  node : r.stage ≠ .erased → r.Queued →
    ∃ nod ∈ nodes, r.pending.nod = some nod ∧ y.state.queue.value nod = r.pending.kmsg

structure Inv (y : System) (nodes : List Ptr) : Prop where
  holds : Holds y.state.queue nodes
  nodup : (nodes ++ y.owned nodes).Nodup
  live : ∀ p ∈ y.owned nodes, p ∈ y.state.queue.live
  contents : ∀ p ∈ y.owned nodes, y.state.message p = y.sent p
  receive : ∀ r, y.receive = some r → ReceiveOk y nodes r
  intact : Intact y

section Steps
variable {y : System} {nodes : List Ptr}

lemma Inv.mem_owned (h : Inv y nodes) {r : Receive} (hr : y.receive = some r)
    (hstage : r.stage ≠ .erased) : r.pending.kmsg ∈ y.owned nodes := by
  by_cases hq : r.Queued
  · obtain ⟨nod, hmem, -, hval⟩ := (h.receive r hr).node hstage hq
    exact List.mem_append_right _ (hval ▸ List.mem_map_of_mem hmem)
  · simp [System.owned, hr, Receive.inHand, hstage, hq]

/-- Until it is freed, a message is what was sent. -/
lemma Inv.message_eq (h : Inv y nodes) {r : Receive} (hr : y.receive = some r)
    (hstage : r.stage ≠ .erased) : y.state.message r.pending.kmsg = r.sent := by
  rw [h.contents _ (h.mem_owned hr hstage), (h.receive r hr).sent hstage]

/-! ## Steps of other threads -/

/-- A queue whose nodes have not been written to. -/
lemma holds_update {s : Queue.State} (h : Holds s nodes) {p : Ptr} (hp : p ∉ s.live)
    (n : KQueueNode) : Holds { s with node := Function.update s.node p n } nodes := by
  have hne : ∀ x ∈ nodes, x ≠ p := fun x hx => ne_of_mem_of_not_mem (h.live x hx) hp
  refine ⟨h.chain.congr (fun x hx => ?_) (fun x hx => ?_), h.front_eq, h.live⟩
  · simp [Queue.State.next, hne x hx]
  · simp [Queue.State.prev, hne x hx]

lemma Inv.write (h : Inv y nodes) {p : Ptr} {message : KMessage} {node : KQueueNode}
    (hok : StepOk y (.write p message node)) : Inv (step y (.write p message node)) nodes := by
  rw [step]
  split_ifs with hp
  · exact h
  have hvalue : ∀ x ∈ nodes, Queue.State.value
      { y.state.queue with node := Function.update y.state.queue.node p node } x =
        y.state.queue.value x := fun x hx => by
    simp [Queue.State.value, ne_of_mem_of_not_mem (h.holds.live x hx) hp]
  have howned : System.owned { y with state := { y.state with
      message := Function.update y.state.message p message
      queue := { y.state.queue with node := Function.update y.state.queue.node p node } } } nodes =
        y.owned nodes := by
    simp only [System.owned]
    rw [List.map_congr_left hvalue]
  have hkeep : ∀ x ∈ y.owned nodes, x ≠ p := fun x hx => ne_of_mem_of_not_mem (h.live x hx) hp
  refine ⟨holds_update h.holds hp node, by rw [howned]; exact h.nodup, ?_, ?_, ?_, h.intact⟩
  · rw [howned]
    exact h.live
  · rw [howned]
    intro x hx
    exact (Function.update_of_ne (hkeep x hx) _ _).trans (h.contents x hx)
  · intro r hr
    obtain ⟨hsent, hcopied, hsource, hnode⟩ := h.receive r hr
    refine ⟨hsent, hcopied, fun hstage => ?_, fun hstage hq => ?_⟩
    · by_cases hpr : r.pending.kmsg = p
      · have hsame := hok hp ⟨r, hr, hstage, hpr⟩
        rw [← hpr] at hsame ⊢
        simpa [hsame] using hsource hstage
      · simpa [Function.update_of_ne hpr] using hsource hstage
    · obtain ⟨nod, hmem, hnod, hval⟩ := hnode hstage hq
      exact ⟨nod, hmem, hnod, (hvalue nod hmem).trans hval⟩

/-- The system after a send that has written `k` to the block `kmsg` and left the queue `q`. -/
def System.afterSend (y : System) (kmsg : Ptr) (k : KMessage) (q : Queue.State) : System :=
  { y with
    state := { y.state with message := Function.update y.state.message kmsg k, queue := q }
    sent := Function.update y.sent kmsg k }

/-- A send writes to a block that was free, and leaves the older nodes as they are. -/
lemma Inv.afterSend (h : Inv y nodes) {kmsg : Ptr} {k : KMessage} {q : Queue.State}
    {nodes' : List Ptr} (hkmsg : kmsg ∉ y.state.queue.live) (hq : Holds q nodes')
    (hsub : nodes ⊆ nodes') (hvalue : ∀ x ∈ nodes, q.value x = y.state.queue.value x)
    (hnodup : (nodes' ++ (y.afterSend kmsg k q).owned nodes').Nodup)
    (hlive : ∀ p ∈ (y.afterSend kmsg k q).owned nodes', p ∈ q.live)
    (howned : ∀ p ∈ (y.afterSend kmsg k q).owned nodes', p = kmsg ∨ p ∈ y.owned nodes)
    (hsource : AwaitsSource y kmsg → k.source = (y.state.message kmsg).source) :
    Inv (y.afterSend kmsg k q) nodes' := by
  have hne : ∀ p ∈ y.owned nodes, p ≠ kmsg := fun p hp => ne_of_mem_of_not_mem (h.live p hp) hkmsg
  refine ⟨hq, hnodup, hlive, fun p hp => ?_, fun r hr => ?_, h.intact⟩
  · rcases howned p hp with rfl | hp
    · simp [System.afterSend]
    · simpa [System.afterSend, hne p hp] using h.contents p hp
  · have hr' : y.receive = some r := hr
    obtain ⟨hsent, hcopied, hsrc, hnode⟩ := h.receive r hr'
    refine ⟨fun hstage => ?_, hcopied, fun hstage => ?_, fun hstage hqueued => ?_⟩
    · have hmem := hne _ (h.mem_owned hr' hstage)
      simpa [System.afterSend, hmem] using hsent hstage
    · by_cases hpr : r.pending.kmsg = kmsg
      · have hsame := hsource ⟨r, hr', hstage, hpr⟩
        rw [← hpr] at hsame ⊢
        simpa [System.afterSend, hsame] using hsrc hstage
      · simpa [System.afterSend, hpr] using hsrc hstage
    · obtain ⟨nod, hmem, hnod, hval⟩ := hnode hstage hqueued
      exact ⟨nod, hsub hmem, hnod, (hvalue nod hmem).trans hval⟩

lemma Inv.send (h : Inv y nodes) {usermsg : Message} {source : Ptr} {kmsgBlock nodBlock : Option Ptr}
    (hok : StepOk y (.send usermsg source kmsgBlock nodBlock)) :
    ∃ nodes, Inv (step y (.send usermsg source kmsgBlock nodBlock)) nodes := by
  rw [step]
  split_ifs with hacc
  swap
  · exact ⟨nodes, h⟩
  cases hk : mmAllocateKernelMemory y.state.queue.live kmsgBlock with
  | none => exact ⟨nodes, h⟩
  | some kmsg =>
    have hkmsg := not_mem_of_allocated hk
    have hsource := hok hacc kmsg hk
    have hsend : ipcSend y.state (some y.state.self) usermsg source kmsgBlock nodBlock =
        (0, { y.state with
          message := Function.update y.state.message kmsg ⟨usermsg, y.state.self, source⟩
          queue := (rtlPushFrontQueue (y.state.queue.acquire kmsg) nodBlock kmsg).2 }) := by
      rw [ipcSend, if_neg (not_or.mpr hacc.2), hk]
      rfl
    dsimp only
    rw [hsend]
    simp only [Function.update_self]
    have hacquired : Holds (y.state.queue.acquire kmsg) nodes :=
      ⟨h.holds.chain, h.holds.front_eq, fun x hx => List.mem_cons_of_mem _ (h.holds.live x hx)⟩
    rcases pushQueue_fst_or_snd linkFront (y.state.queue.acquire kmsg) nodBlock kmsg with hr | hr
    · have hpush : rtlPushFrontQueue (y.state.queue.acquire kmsg) nodBlock kmsg =
          (0, (rtlPushFrontQueue (y.state.queue.acquire kmsg) nodBlock kmsg).2) := Prod.ext hr rfl
      obtain ⟨nod, hnod, hlive, hq, hvalue⟩ := rtlPushFrontQueue_spec hacquired hpush
      obtain ⟨hne, hnod⟩ := not_or.mp (mt List.mem_cons.mpr hnod)
      generalize (rtlPushFrontQueue (y.state.queue.acquire kmsg) nodBlock kmsg).2 = q at *
      have hold : ∀ x ∈ nodes, q.value x = y.state.queue.value x := fun x hx => by
        rw [hvalue, Function.update_of_ne (ne_of_mem_of_not_mem (h.holds.live x hx) hnod)]
        rfl
      have howned : (y.afterSend kmsg ⟨usermsg, y.state.self, source⟩ q).owned (nodes ++ [nod]) =
          y.owned nodes ++ [kmsg] := by
        have hnodval : q.value nod = kmsg := by rw [hvalue, Function.update_self]
        simp [System.owned, System.afterSend, List.map_congr_left hold, hnodval]
      refine ⟨nodes ++ [nod], h.afterSend hkmsg hq (List.subset_append_left _ _) hold ?_ ?_ ?_
        hsource⟩
      · have hnodes : nod ∉ nodes ++ y.owned nodes := fun hm =>
          (List.mem_append.mp hm).elim (fun hm => hnod (h.holds.live nod hm))
            fun hm => hnod (h.live nod hm)
        have hkmsgs : kmsg ∉ nodes ++ y.owned nodes := fun hm =>
          (List.mem_append.mp hm).elim (fun hm => hkmsg (h.holds.live kmsg hm))
            fun hm => hkmsg (h.live kmsg hm)
        have hperm : ((nodes ++ [nod]) ++ (y.owned nodes ++ [kmsg])).Perm
            (nod :: kmsg :: (nodes ++ y.owned nodes)) := by
          grind
        rw [howned, hperm.nodup_iff]
        simp [hne, hnodes, hkmsgs, h.nodup]
      · rw [howned, hlive]
        intro p hp
        rcases List.mem_append.mp hp with hp | hp
        · simp [h.live p hp]
        · simp [List.mem_singleton.mp hp]
      · rw [howned]
        intro p hp
        rcases List.mem_append.mp hp with hp | hp
        · exact .inr hp
        · exact .inl (List.mem_singleton.mp hp)
    · -- the message is lost, but its block stays allocated
      have hq : (rtlPushFrontQueue (y.state.queue.acquire kmsg) nodBlock kmsg).2 =
          y.state.queue.acquire kmsg := hr
      rw [hq]
      exact ⟨nodes, h.afterSend hkmsg hacquired (List.Subset.refl _) (fun _ _ => rfl) h.nodup
        (fun p hp => List.mem_cons_of_mem _ (h.live p hp)) (fun p hp => .inr hp) hsource⟩

/-! ## Steps of the receiver -/

lemma Inv.lock (h : Inv y nodes) (hnone : y.receive = none) {q : Queue.State} (hq : Holds q nodes)
    (hsame : SameValues y.state.queue q) (b : Bool) :
    Inv { y with state := { y.state with queue := q, locked := b } } nodes := by
  have howned : System.owned { y with state := { y.state with queue := q, locked := b } } nodes =
      y.owned nodes := by
    simp [System.owned, hsame.value]
  refine ⟨hq, by rw [howned]; exact h.nodup, ?_, ?_, by simp [hnone], h.intact⟩
  · rw [howned]
    exact fun p hp => hsame.live ▸ h.live p hp
  · rw [howned]
    exact h.contents

lemma Inv.found (h : Inv y nodes) (hnone : y.receive = none) {nod thr : Ptr} (hnod : nod ∈ nodes)
    (flag : UInt32) (usermsg : Message) :
    Inv { y with receive := some ⟨⟨y.state.queue.value nod, some nod, some thr, flag⟩, .found,
      usermsg, y.sent (y.state.queue.value nod)⟩ } nodes := by
  have howned : System.owned { y with receive := some ⟨⟨y.state.queue.value nod, some nod, some thr,
      flag⟩, .found, usermsg, y.sent (y.state.queue.value nod)⟩ } nodes = y.owned nodes := by
    simp [System.owned, hnone, Receive.inHand, Receive.Queued]
  refine ⟨h.holds, by rw [howned]; exact h.nodup, by rw [howned]; exact h.live,
    by rw [howned]; exact h.contents, fun r hr => ?_, h.intact⟩
  obtain rfl := Option.some.inj hr
  exact ⟨fun _ => rfl, by simp, by simp, fun _ _ => ⟨nod, hnod, rfl, rfl⟩⟩

lemma Inv.popped {nod : Ptr} (h : Inv y (nod :: nodes)) (hnone : y.receive = none) (flag : UInt32)
    (usermsg : Message) {q : Queue.State} (hq : Holds q nodes)
    (hvalue : q.value = y.state.queue.value) (hlive : q.live = y.state.queue.live.erase nod) :
    Inv { y with
      state := y.state.setQueue q
      receive := some ⟨⟨y.state.queue.value nod, none, none, flag⟩, .found, usermsg,
        y.sent (y.state.queue.value nod)⟩ } nodes := by
  have howned : System.owned { y with
      state := y.state.setQueue q
      receive := some ⟨⟨y.state.queue.value nod, none, none, flag⟩, .found, usermsg,
        y.sent (y.state.queue.value nod)⟩ } nodes = y.owned (nod :: nodes) := by
    simp [System.owned, hnone, Receive.inHand, Receive.Queued, hvalue]
  obtain ⟨hnod, hnodup⟩ := List.nodup_cons.mp h.nodup
  refine ⟨hq, by rw [howned]; exact hnodup, ?_, by rw [howned]; exact h.contents, fun r hr => ?_,
    h.intact⟩
  · rw [howned]
    intro p hp
    have hne : p ≠ nod := ne_of_mem_of_not_mem hp fun hm => hnod (List.mem_append_right _ hm)
    simpa [State.setQueue, hlive] using (List.mem_erase_of_ne hne).mpr (h.live p hp)
  · obtain rfl := Option.some.inj hr
    exact ⟨fun _ => rfl, by simp, by simp, by simp [Receive.Queued]⟩

lemma Inv.search (h : Inv y nodes) {usermsg : Message} {thrSrc : Option Ptr} {flag : UInt32}
    {timeout : Int32} {elapsed : UInt32}
    (hok : StepOk y (.search usermsg thrSrc flag timeout elapsed)) :
    ∃ nodes, Inv (step y (.search usermsg thrSrc flag timeout elapsed)) nodes := by
  rw [step]
  cases hnone : y.receive with
  | some r => exact ⟨nodes, h⟩
  | none =>
    dsimp only
    split_ifs with hlocked
    · exact ⟨nodes, h⟩
    rcases ipcReceiveChoose_cases h.holds usermsg thrSrc (hok hnone (by simpa using hlocked)) with
      ⟨q, he, hq, hsame⟩ | ⟨thr, nod, rfl, hmem, he⟩ | ⟨nod, rest, q, rfl, rfl, he, hq, hvalue, hlive⟩
    · refine ⟨nodes, ?_⟩
      have hkeep := h.lock hnone hq hsame y.state.locked
      have hlock := h.lock hnone hq hsame true
      rw [hnone] at hkeep hlock
      rw [ipcReceiveSearch, he]
      dsimp only
      split_ifs
      · exact hkeep
      · exact hlock
      · exact hkeep
    · rw [ipcReceiveSearch, he]
      exact ⟨nodes, h.found hnone hmem flag usermsg⟩
    · rw [ipcReceiveSearch, he]
      exact ⟨rest, h.popped hnone flag usermsg hq hvalue hlive⟩

/-- A part of the receive that leaves the queue and the messages as they are. -/
lemma Inv.stage (h : Inv y nodes) {r r' : Receive} (hr : y.receive = some r)
    (hhand : r'.inHand = r.inHand) (hok : ReceiveOk y nodes r') :
    Inv { y with receive := some r' } nodes := by
  have howned : System.owned { y with receive := some r' } nodes = y.owned nodes := by
    simp [System.owned, hr, hhand]
  refine ⟨h.holds, by rw [howned]; exact h.nodup, by rw [howned]; exact h.live,
    by rw [howned]; exact h.contents, fun x hx => ?_, h.intact⟩
  obtain rfl := Option.some.inj hx
  exact ⟨hok.sent, hok.copied, hok.source, hok.node⟩

lemma Inv.copy (h : Inv y nodes) {r : Receive} (hr : y.receive = some r) (hstage : r.stage = .found) :
    Inv { y with receive := some { r with
      stage := .copied, usermsg := copyMessage y.state r.pending } } nodes := by
  have hne : r.stage ≠ .erased := by simp [hstage]
  obtain ⟨hsent, -, -, hnode⟩ := h.receive r hr
  refine h.stage hr ?_ ⟨fun _ => hsent hne, fun _ => ?_, by simp, fun _ hq => hnode hne ?_⟩
  · simp [Receive.inHand, Receive.Queued, hstage]
  · exact congrArg KMessage.userMessage (h.message_eq hr hne)
  · exact ⟨hq.1, .inl hstage⟩

/-- A receive by source takes the node of its message out. -/
lemma Inv.remove (h : Inv y nodes) {r : Receive} (hr : y.receive = some r)
    (hstage : r.stage = .copied) :
    ∃ nodes, Inv { y with
      state := removeNode y.state r.pending
      receive := some { r with stage := .removed } } nodes := by
  have hne : r.stage ≠ .erased := by simp [hstage]
  have hfound : r.stage ≠ .found := by simp [hstage]
  obtain ⟨hsent, hcopied, -, hnode⟩ := h.receive r hr
  by_cases htake : r.pending.thrSrc ≠ none ∧ r.pending.flag &&& MSG_KEEP = 0
  · have hqueued : r.Queued := ⟨htake.1, .inr (.inl hstage)⟩
    obtain ⟨nod, hmem, hnod, hval⟩ := hnode hne hqueued
    obtain ⟨hq, hvalue, hlive⟩ := rtlRemoveQueueElement_spec h.holds hmem
    have hremove : removeNode y.state r.pending =
        y.state.setQueue (rtlRemoveQueueElement y.state.queue nod) := by
      rw [removeNode, if_pos htake, hnod]
    have hbefore : y.owned nodes = nodes.map y.state.queue.value := by
      simp [System.owned, hr, Receive.inHand, hqueued]
    have howned : System.owned { y with
        state := removeNode y.state r.pending
        receive := some { r with stage := .removed } } (nodes.erase nod) =
          r.pending.kmsg :: (nodes.erase nod).map y.state.queue.value := by
      simp [System.owned, hremove, Receive.inHand, Receive.Queued, htake.2, hvalue]
    have hperm : (y.owned nodes).Perm
        (r.pending.kmsg :: (nodes.erase nod).map y.state.queue.value) := by
      rw [hbefore, ← hval, ← List.map_cons]
      exact (List.perm_cons_erase hmem).map _
    have hdis := (List.nodup_append'.mp h.nodup).2.2
    refine ⟨nodes.erase nod, ?_, ?_, ?_, ?_, fun x hx => ?_, ?_⟩
    · rw [hremove]
      exact hq
    · rw [howned]
      exact ((hperm.append_left nodes).nodup_iff.mp h.nodup).sublist
        (List.erase_sublist.append_right _)
    · rw [howned, hremove]
      intro p hp
      have hp' := hperm.symm.subset hp
      have hpn : p ≠ nod := fun he => hdis hmem (he ▸ hp')
      simpa [State.setQueue, hlive] using (List.mem_erase_of_ne hpn).mpr (h.live p hp')
    · rw [howned, hremove]
      exact fun p hp => h.contents p (hperm.symm.subset hp)
    · obtain rfl := Option.some.inj hx
      refine ⟨fun _ => hsent hne, fun _ => hcopied hfound, by simp, fun _ hq => ?_⟩
      simp [Receive.Queued, htake.2] at hq
    · rw [hremove]
      exact h.intact
  · have hremove : removeNode y.state r.pending = y.state := if_neg htake
    rw [hremove]
    refine ⟨nodes, h.stage hr ?_ ⟨fun _ => hsent hne, fun _ => hcopied hfound, by simp,
      fun _ hq => hnode hne ⟨hq.1, .inr (.inl hstage)⟩⟩⟩
    by_cases hsrc : r.pending.thrSrc = none
    · simp [Receive.inHand, Receive.Queued, hstage, hsrc]
    · have hkeep : r.pending.flag &&& MSG_KEEP ≠ 0 := fun hf => htake ⟨hsrc, hf⟩
      simp [Receive.inHand, Receive.Queued, hstage, hsrc, hkeep]

lemma owned_inHand (nodes : List Ptr) {r : Receive} (hr : y.receive = some r)
    (hstage : r.stage = .removed) (hq : ¬r.Queued) :
    y.owned nodes = r.pending.kmsg :: nodes.map y.state.queue.value := by
  simp [System.owned, hr, Receive.inHand, hstage, hq]

/-- The end of the receive's hold on its message, with the queue `q` of nodes `nodes'`. -/
lemma Inv.letGo (h : Inv y nodes) {r : Receive} (hr : y.receive = some r)
    (hstage : r.stage = .removed) {q : Queue.State} {nodes' : List Ptr} (hq : Holds q nodes')
    (hnodup : (nodes' ++ nodes'.map q.value).Nodup)
    (hsub : ∀ p ∈ nodes'.map q.value, p ∈ y.owned nodes)
    (hlive : ∀ p ∈ nodes'.map q.value, p ∈ q.live) :
    Inv { y with
      state := y.state.setQueue q
      receive := some { r with stage := .erased } } nodes' := by
  have hmessage := h.message_eq hr (by simp [hstage])
  have howned : System.owned { y with
      state := y.state.setQueue q
      receive := some { r with stage := .erased } } nodes' = nodes'.map q.value := by
    simp [System.owned, Receive.inHand]
  refine ⟨hq, by rw [howned]; exact hnodup, by rw [howned]; exact hlive, ?_, fun x hx => ?_,
    h.intact⟩
  · rw [howned]
    exact fun p hp => h.contents p (hsub p hp)
  · obtain rfl := Option.some.inj hx
    exact ⟨by simp, fun _ => (h.receive r hr).copied (by simp [hstage]),
      fun _ => congrArg KMessage.source hmessage, by simp⟩

lemma Inv.erase (h : Inv y nodes) {r : Receive} (hr : y.receive = some r)
    (hstage : r.stage = .removed) (nodBlock : Option Ptr) :
    ∃ nodes, Inv { y with
      state := eraseMessage y.state r.pending nodBlock
      receive := some { r with stage := .erased } } nodes := by
  by_cases hkeep : r.pending.flag &&& MSG_KEEP = 0
  · have hfree : eraseMessage y.state r.pending nodBlock =
        y.state.setQueue (y.state.queue.release r.pending.kmsg) := by
      rw [eraseMessage, if_pos hkeep, if_neg (not_not.mpr hkeep)]
      split_ifs <;> rfl
    have howned := owned_inHand nodes hr hstage (by simp [Receive.Queued, hstage, hkeep])
    have hnodup := h.nodup
    rw [howned] at hnodup
    obtain ⟨-, hrest, hdis⟩ := List.nodup_append'.mp hnodup
    have hkmsg : r.pending.kmsg ∉ nodes := fun hm => hdis hm List.mem_cons_self
    rw [hfree]
    refine ⟨nodes, h.letGo hr hstage ⟨h.holds.chain, h.holds.front_eq, fun x hx => ?_⟩ ?_ ?_ ?_⟩
    · exact (List.mem_erase_of_ne (ne_of_mem_of_not_mem hx hkmsg)).mpr (h.holds.live x hx)
    · exact hnodup.sublist ((List.sublist_cons_self _ _).append_left _)
    · rw [howned]
      exact fun p hp => List.mem_cons_of_mem _ hp
    · intro p hp
      have hne : p ≠ r.pending.kmsg := ne_of_mem_of_not_mem hp (List.nodup_cons.mp hrest).1
      exact (List.mem_erase_of_ne hne).mpr
        (h.live p (by rw [howned]; exact List.mem_cons_of_mem _ hp))
  · by_cases hsrc : r.pending.thrSrc = none
    · have hpushed : eraseMessage y.state r.pending nodBlock =
          y.state.setQueue (rtlPushBackQueue y.state.queue nodBlock r.pending.kmsg).2 := by
        rw [eraseMessage, if_neg (not_not.mpr hsrc), if_pos hkeep]
      have howned := owned_inHand nodes hr hstage (by simp [Receive.Queued, hsrc])
      have hnodup := h.nodup
      rw [howned] at hnodup
      rw [hpushed]
      rcases pushQueue_fst_or_snd linkBack y.state.queue nodBlock r.pending.kmsg with hres | hres
      · have hpush : rtlPushBackQueue y.state.queue nodBlock r.pending.kmsg =
            (0, (rtlPushBackQueue y.state.queue nodBlock r.pending.kmsg).2) := Prod.ext hres rfl
        obtain ⟨nod, hnod, hlive, hq, hvalue⟩ := rtlPushBackQueue_spec h.holds hpush
        generalize (rtlPushBackQueue y.state.queue nodBlock r.pending.kmsg).2 = q at *
        have hmap : (nod :: nodes).map q.value = y.owned nodes := by
          have hold : ∀ x ∈ nodes, q.value x = y.state.queue.value x := fun x hx => by
            rw [hvalue, Function.update_of_ne (ne_of_mem_of_not_mem (h.holds.live x hx) hnod)]
          rw [List.map_cons, List.map_congr_left hold, hvalue, Function.update_self, howned]
        refine ⟨nod :: nodes, h.letGo hr hstage hq ?_ ?_ ?_⟩
        · have hfresh : nod ∉ nodes ++ y.owned nodes := fun hm =>
            (List.mem_append.mp hm).elim (fun hm => hnod (h.holds.live nod hm))
              fun hm => hnod (h.live nod hm)
          rw [hmap]
          exact List.nodup_cons.mpr ⟨hfresh, h.nodup⟩
        · rw [hmap]
          exact fun p hp => hp
        · rw [hmap, hlive]
          exact fun p hp => List.mem_cons_of_mem _ (h.live p hp)
      · have hq : (rtlPushBackQueue y.state.queue nodBlock r.pending.kmsg).2 = y.state.queue := hres
        rw [hq]
        refine ⟨nodes, h.letGo hr hstage h.holds ?_ ?_ ?_⟩
        · exact hnodup.sublist ((List.sublist_cons_self _ _).append_left _)
        · rw [howned]
          exact fun p hp => List.mem_cons_of_mem _ hp
        · exact fun p hp => h.live p (by rw [howned]; exact List.mem_cons_of_mem _ hp)
    · -- the message stays in the queue
      have hsame : eraseMessage y.state r.pending nodBlock = y.state := by
        rw [eraseMessage, if_pos hsrc, if_neg hkeep]
      have hqueued : r.Queued := ⟨hsrc, .inr (.inr hkeep)⟩
      have hmessage := h.message_eq hr (by simp [hstage])
      rw [hsame]
      refine ⟨nodes, h.stage hr ?_ ⟨by simp, fun _ => ?_, fun _ => ?_, by simp⟩⟩
      · simp [Receive.inHand, hqueued]
      · exact (h.receive r hr).copied (by simp [hstage])
      · exact congrArg KMessage.source hmessage

/-- The receive returns what was sent. -/
lemma Inv.done (h : Inv y nodes) {r : Receive} (hr : y.receive = some r)
    (hstage : r.stage = .erased) :
    Inv { y with
      receive := none
      returned := y.returned ++ [(r.sent, setSource y.state r.pending r.usermsg)] } nodes := by
  obtain ⟨-, hcopied, hsource, -⟩ := h.receive r hr
  have howned : System.owned { y with
      receive := none
      returned := y.returned ++ [(r.sent, setSource y.state r.pending r.usermsg)] } nodes =
        y.owned nodes := by
    simp [System.owned, hr, Receive.inHand, hstage]
  refine ⟨h.holds, by rw [howned]; exact h.nodup, by rw [howned]; exact h.live,
    by rw [howned]; exact h.contents, by simp, fun x hx => ?_⟩
  rcases List.mem_append.mp hx with hx | hx
  · exact h.intact x hx
  · rw [List.mem_singleton.mp hx, setSource, hcopied (by simp [hstage]), hsource hstage]
    rfl

lemma Inv.advance (h : Inv y nodes) (nodBlock : Option Ptr) :
    ∃ nodes, Inv (step y (.advance nodBlock)) nodes := by
  rw [step]
  cases hr : y.receive with
  | none => exact ⟨nodes, h⟩
  | some r =>
    dsimp only [IpcIntegrity.advance]
    cases hstage : r.stage with
    | found => exact ⟨nodes, h.copy hr hstage⟩
    | copied => exact h.remove hr hstage
    | removed => exact h.erase hr hstage nodBlock
    | erased => exact ⟨nodes, h.done hr hstage⟩

lemma step_inv (y : System) (e : Event) (h : ∃ nodes, Inv y nodes) (hok : StepOk y e) :
    ∃ nodes, Inv (step y e) nodes := by
  obtain ⟨nodes, h⟩ := h
  cases e with
  | send usermsg source kmsgBlock nodBlock => exact h.send hok
  | search usermsg thrSrc flag timeout elapsed => exact h.search hok
  | advance nodBlock => exact h.advance nodBlock
  | write p message node => exact ⟨nodes, h.write hok⟩

end Steps

/-! ## Runs -/

section Runs
variable (self : Ptr) (threadState : ThreadState) (node : Ptr → KQueueNode)
  (message : Ptr → KMessage) (threadId : Ptr → UInt32)

lemma start_inv : Inv (start (Ipc.initial self threadState node message threadId)) [] := by
  refine ⟨⟨.nil, rfl, by simp⟩, ?_, ?_, ?_, ?_, ?_⟩ <;>
    simp [start, Ipc.initial, System.owned, Intact]

end Runs

end Sgos.IpcIntegrity
