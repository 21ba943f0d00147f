import Sgos.ReceiveFilter

/-!
# The lock of a receive

A call of `IpcReceive` with what it does to the semaphore of its thread. Each pass takes the
semaphore, searches the queue, and gives it back before it sleeps or returns, except where the
timeout has expired.
-/
namespace Sgos.Ipc
open GuardedRun LinkedChain Queue ReceiveFilter

/-- What a call does with the semaphore of its thread, and where it sleeps or returns. -/
inductive Op
  | down
  | up
  | sleep (rest : Int32)
  | ret (code : Int32)
  deriving DecidableEq, Repr

/-- A pass from `_recv_search` on; `elapsed` is `ArGetMilliSecond()-startSleepTime`. -/
def ipcReceivePass (s : State) (thrSrc : Option Ptr) (usermsg : Message) (flag : UInt32)
    (timeout : Int32) (elapsed : UInt32) (nodBlock : Option Ptr) : List Op × State :=
  match ipcReceiveChoose s usermsg thrSrc with
  | (some (kmsg, nod), s) =>
      ([.down, .up, .ret 1], (ipcReceiveFinish s ⟨kmsg, nod, thrSrc, flag⟩ nodBlock).2)
  | (none, s) =>
      if timeout ≠ 0 then
        if timeout ≠ INFINITE then
          let rest := (timeout.toUInt32 - elapsed).toInt32
          if rest < 0 then ([.down, .ret (-ERR_TIMEOUT)], s)
          else ([.down, .up, .sleep rest], s)
        else ([.down, .up, .sleep INFINITE], s)
      else ([.down, .up, .ret (-ERR_NONE)], s)

namespace ReceiveLock

/-- The arguments of a call, with the thread that the id was looked up to. -/
structure Request where
  thrSrc : Option Ptr
  usermsg : Message
  flag : UInt32
  timeout : Int32

/-- A call in progress. -/
structure Call where
  state : State
  ops : List Op

def Op.isRet : Op → Bool
  | .ret _ => true
  | _ => false

def Call.Returned (c : Call) : Prop := c.ops.any Op.isRet = true

instance (c : Call) : Decidable c.Returned := inferInstanceAs (Decidable (_ = true))

/-- While the call sleeps, the others make anything of the queue; the clock runs as it likes. -/
inductive Event
  | others (s : State)
  | pass (elapsed : UInt32) (nodBlock : Option Ptr)

def step (r : Request) (c : Call) : Event → Call
  | .others s => { c with state := s }
  | .pass elapsed nodBlock =>
      if c.Returned then c
      else
        let (ops, s) := ipcReceivePass c.state r.thrSrc r.usermsg r.flag r.timeout elapsed nodBlock
        ⟨s, c.ops ++ ops⟩

/-- Whether the semaphore is held after an operation; a second `down`, an `up` of a free semaphore,
and a sleep or return with the semaphore held are refused. -/
def Op.scan (held : Bool) : Op → Option Bool
  | .down => if held then none else some true
  | .up => if held then some false else none
  | .sleep _ => if held then none else some false
  | .ret _ => if held then none else some false

/-- Each acquisition is matched by one release before the call sleeps or returns. -/
def Released (ops : List Op) : Prop := ops.foldlM Op.scan false = some false

instance (ops : List Op) : Decidable (Released ops) := inferInstanceAs (Decidable (_ = _))

/-- The messages a request asks for, as long as its thread was found. -/
def wanted (s : State) (thrSrc : Option Ptr) (usermsg : Message) (k : Ptr) : Bool :=
  (thrSrc.isNone || messageSearcher1 s usermsg k) &&
    (usermsg.command == 0 || messageSearcher2 s usermsg k)

/-- No message is there when the timeout has passed. -/
structure Late (s : State) (r : Request) (elapsed : UInt32) : Prop where
  nothing : rtlSearchQueue s.queue (wanted s r.thrSrc r.usermsg) = none
  waits : r.timeout ≠ 0
  finite : r.timeout ≠ INFINITE
  expired : (r.timeout.toUInt32 - elapsed).toInt32 < 0

/-- No pass of the call comes late. -/
def Timely (r : Request) (c : Call) : Event → Prop
  | .others _ => True
  | .pass elapsed _ => ¬c.Returned → ¬Late c.state r elapsed

/-! ## One pass -/

section Pass
variable {s : State} {thrSrc : Option Ptr} {usermsg : Message}

lemma rtlSearchQueue_true (q : Queue.State) : rtlSearchQueue q (fun _ => true) = q.queue.back := by
  rw [rtlSearchQueue, search]
  cases q.queue.back <;> rfl

/-- The four searches are one: a message is found if one is wanted. -/
lemma choose_none_iff :
    (ipcReceiveChoose s usermsg thrSrc).1 = none ↔
      rtlSearchQueue s.queue (wanted s thrSrc usermsg) = none := by
  have hsearch : ∀ searcher : Ptr → Bool, wanted s thrSrc usermsg = searcher →
      ((searchMessage s searcher, s).1 = none ↔
        rtlSearchQueue s.queue (wanted s thrSrc usermsg) = none) := by
    intro searcher hs
    rw [hs]
    exact Option.map_eq_none_iff
  rw [ipcReceiveChoose]
  cases thrSrc with
  | some thr =>
    by_cases hc : usermsg.command = 0
    · rw [if_neg (fun h => h.2 hc), if_pos (Option.some_ne_none thr)]
      exact hsearch _ (by funext k; simp [wanted, hc])
    · have hbeq : (usermsg.command == 0) = false := beq_eq_false_iff_ne.mpr hc
      rw [if_pos ⟨Option.some_ne_none thr, hc⟩]
      refine hsearch _ ?_
      funext k
      simp [wanted, messageSearcher3, messageSearcher1, messageSearcher2, hbeq]
  | none =>
    have hthr : ¬(none : Option Ptr) ≠ none := fun h => h rfl
    rw [if_neg (fun h => hthr h.1), if_neg hthr]
    by_cases hc : usermsg.command = 0
    · have hall : wanted s none usermsg = fun _ => true := by funext k; simp [wanted, hc]
      rw [if_neg (fun h => h hc), hall, rtlSearchQueue_true]
      dsimp only
      rw [Option.map_eq_none_iff, rtlPopBackQueue]
      cases s.queue.queue.back <;> simp
    · have hbeq : (usermsg.command == 0) = false := beq_eq_false_iff_ne.mpr hc
      rw [if_pos hc]
      refine hsearch _ ?_
      funext k
      simp [wanted, hbeq]

/-- The pass leaves the queue that the search and the end of a receive leave. -/
lemma pass_queue (flag : UInt32) (timeout : Int32) (elapsed : UInt32) (nodBlock : Option Ptr) :
    (ipcReceivePass s thrSrc usermsg flag timeout elapsed nodBlock).2.queue =
      (ipcReceive s thrSrc usermsg flag timeout elapsed nodBlock).2.queue := by
  rw [ipcReceivePass, ipcReceive, ipcReceiveSearch]
  rcases ipcReceiveChoose s usermsg thrSrc with ⟨found, s'⟩
  cases found with
  | some p => rfl
  | none =>
    dsimp only
    split_ifs <;> simp_all

/-- A pass that comes in time leaves the semaphore as it was; a late one keeps it. -/
lemma pass_ops (r : Request) (elapsed : UInt32) (nodBlock : Option Ptr) :
    (ipcReceivePass s r.thrSrc r.usermsg r.flag r.timeout elapsed nodBlock).1.foldlM Op.scan false =
      some false ↔ ¬Late s r elapsed := by
  have hnone : (ipcReceiveChoose s r.usermsg r.thrSrc).1 = none ↔
      rtlSearchQueue s.queue (wanted s r.thrSrc r.usermsg) = none := choose_none_iff
  rw [ipcReceivePass]
  rcases hchoose : ipcReceiveChoose s r.usermsg r.thrSrc with ⟨found, s'⟩
  rw [hchoose] at hnone
  cases found with
  | some p =>
    refine ⟨fun _ hlate => ?_, fun _ => rfl⟩
    cases hnone.mpr hlate.nothing
  | none =>
    dsimp only
    split_ifs with hwaits hfinite hexpired
    · refine ⟨fun h => ?_, fun h => absurd ⟨hnone.mp rfl, hwaits, hfinite, hexpired⟩ h⟩
      cases h
    · exact ⟨fun _ h => hexpired h.expired, fun _ => rfl⟩
    · exact ⟨fun _ h => hfinite h.finite, fun _ => rfl⟩
    · exact ⟨fun _ h => hwaits h.waits, fun _ => rfl⟩

end Pass

/-! ## Whole calls -/

section Calls
variable {r : Request} {c : Call}

/-- What follows on a released semaphore is looked at on its own; what has gone wrong remains. -/
lemma released_append (h : Released c.ops) (more : List Op) :
    Released (c.ops ++ more) ↔ more.foldlM Op.scan false = some false := by
  rw [Released, List.foldlM_append, h]
  rfl

/-- A call that goes on has given the semaphore back. -/
def Call.Sound (c : Call) : Prop := ¬c.Returned → Released c.ops

lemma step_pass (hgo : ¬c.Returned) (elapsed : UInt32) (nodBlock : Option Ptr) :
    (step r c (.pass elapsed nodBlock)).ops = c.ops ++
      (ipcReceivePass c.state r.thrSrc r.usermsg r.flag r.timeout elapsed nodBlock).1 := by
  rw [step, if_neg hgo]

/-- A late pass returns. -/
lemma pass_of_late {s : State} {elapsed : UInt32} (h : Late s r elapsed) (nodBlock : Option Ptr) :
    (ipcReceivePass s r.thrSrc r.usermsg r.flag r.timeout elapsed nodBlock).1 =
      [.down, .ret (-ERR_TIMEOUT)] := by
  have hnone := choose_none_iff.mpr h.nothing
  rw [ipcReceivePass]
  rcases hchoose : ipcReceiveChoose s r.usermsg r.thrSrc with ⟨found, s'⟩
  rw [hchoose] at hnone
  obtain rfl : found = none := hnone
  dsimp only
  rw [if_pos h.waits, if_pos h.finite, if_pos h.expired]

lemma step_sound (h : c.Sound) (e : Event) : (step r c e).Sound := by
  cases e with
  | others s => exact h
  | pass elapsed nodBlock =>
    by_cases hgo : c.Returned
    · rw [step, if_pos hgo]
      exact h
    · intro hreturned
      have hops := step_pass (r := r) hgo elapsed nodBlock
      rw [hops, released_append (h hgo), pass_ops]
      intro hlate
      rw [pass_of_late hlate nodBlock] at hops
      refine hreturned ?_
      rw [Call.Returned, hops, List.any_append]
      exact Bool.or_true _

/-- A pass leaves the semaphore released exactly if it was and the pass is not late. -/
lemma step_released (h : c.Sound) (e : Event) :
    Released (step r c e).ops ↔ Released c.ops ∧ Timely r c e := by
  cases e with
  | others s => exact ⟨fun hr => ⟨hr, trivial⟩, fun hr => hr.1⟩
  | pass elapsed nodBlock =>
    by_cases hgo : c.Returned
    · rw [step, if_pos hgo]
      exact ⟨fun hr => ⟨hr, fun hnot => absurd hgo hnot⟩, fun hr => hr.1⟩
    · rw [step_pass hgo, released_append (h hgo), pass_ops]
      exact ⟨fun hr => ⟨h hgo, fun _ => hr⟩, fun hr => hr.2 hgo⟩

end Calls

/-- In every call, whatever the others do while it sleeps, each acquisition of the semaphore is
matched by one release before the call sleeps or returns, exactly if no pass comes late. -/
theorem released_iff (tmGetThreadById : UInt32 → Option Ptr) (usermsg : Message) (flag : UInt32)
    (timeout : Int32) (s : State) (es : List Event) :
    let r : Request := ⟨ipcReceiveSource tmGetThreadById usermsg, usermsg, flag, timeout⟩
    Released (run (step r) ⟨s, []⟩ es).ops ↔ Guarded (step r) (Timely r) ⟨s, []⟩ es := by
  intro r
  have hrun : ∀ c : Call, c.Sound →
      (Released (run (step r) c es).ops ↔ Released c.ops ∧ Guarded (step r) (Timely r) c es) := by
    induction es with
    | nil => exact fun c _ => ⟨fun h => ⟨h, trivial⟩, fun h => h.1⟩
    | cons e es ih =>
      intro c hc
      rw [run_cons, ih _ (step_sound hc e), step_released hc e, Guarded, and_assoc]
  rw [hrun ⟨s, []⟩ fun _ => rfl]
  exact ⟨fun h => h.2, fun h => ⟨rfl, h⟩⟩

/-- A receive that waits for 10 ms finds nothing at first and nothing 11 ms later. -/
theorem not_released :
    ¬∀ (tmGetThreadById : UInt32 → Option Ptr) (usermsg : Message) (flag : UInt32) (timeout : Int32)
      (s : State) (es : List Event),
      Released (run (step ⟨ipcReceiveSource tmGetThreadById usermsg, usermsg, flag, timeout⟩)
        ⟨s, []⟩ es).ops := by
  intro h
  have hrun := h twoThreads { commandMessage 0 with threadId := ANY_THREAD } 0 10 emptyReceiver
    [.pass 0 none, .pass 11 none]
  exact absurd hrun (by decide)

end ReceiveLock

end Sgos.Ipc
