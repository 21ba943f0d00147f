import Sgos.Queue
import Sgos.Scheduler

/-!
# Messages between threads

`IpcSend` and `IpcReceive` of `kernel/ipc/message.c` on the message queue of one receiving thread.
A receive is two steps: the search under the thread's semaphore, and the removal after it has been
released, so that sends may come in between. A ledger beside the model numbers the messages for
which `IpcSend` returned 0.
-/
namespace Sgos.Ipc
open Queue Scheduler

def INFINITE : Int32 := -1
def MSG_KEEP : UInt32 := 0x40000000
def MAX_MESSAGES_IN_QUEUE : Int32 := 100

structure Message where
  threadId : UInt32
  time : UInt32
  command : UInt32
  arguments : Vector UInt32 10
  code : Int32
  large : Vector UInt32 2
  deriving DecidableEq

structure KMessage where
  userMessage : Message
  destination : Ptr
  source : Ptr
  deriving DecidableEq

/-- The receiving thread and the heap read as messages. `locked` tells that the semaphore of the
thread was left locked by a receive that timed out. -/
structure State where
  self : Ptr
  threadState : ThreadState
  locked : Bool
  queue : Queue.State
  message : Ptr → KMessage
  threadId : Ptr → UInt32

namespace State

def setQueue (s : State) (q : Queue.State) : State := { s with queue := q }

def setMessage (s : State) (p : Ptr) (k : KMessage) : State :=
  { s with message := Function.update s.message p k }

@[simp] lemma setQueue_queue (s : State) (q : Queue.State) : (s.setQueue q).queue = q := rfl
@[simp] lemma setQueue_message (s : State) (q : Queue.State) :
    (s.setQueue q).message = s.message := rfl
@[simp] lemma setQueue_threadId (s : State) (q : Queue.State) :
    (s.setQueue q).threadId = s.threadId := rfl
@[simp] lemma setQueue_setQueue (s : State) (q r : Queue.State) :
    (s.setQueue q).setQueue r = s.setQueue r := rfl

end State

/-- `IpcInitializeThreadMessageQueue` on a heap whose blocks are all free. -/
def initial (self : Ptr) (threadState : ThreadState) (node : Ptr → KQueueNode)
    (message : Ptr → KMessage) (threadId : Ptr → UInt32) : State where
  self := self
  threadState := threadState
  locked := false
  queue := ⟨node, rtlCreateQueue MAX_MESSAGES_IN_QUEUE, []⟩
  message := message
  threadId := threadId

def messageEraser (s : State) (kmsg : Ptr) : State := s.setQueue (s.queue.release kmsg)

def messageSearcher1 (s : State) (q : Message) (p : Ptr) : Bool :=
  s.threadId (s.message p).source == q.threadId

def messageSearcher2 (s : State) (q : Message) (p : Ptr) : Bool :=
  (s.message p).userMessage.command == q.command

def messageSearcher3 (s : State) (q : Message) (p : Ptr) : Bool :=
  s.threadId (s.message p).source == q.threadId &&
    (s.message p).userMessage.command == q.command

/-- `thrDest` is the result of `TmGetThreadById`, `current` the sending thread. The wake-up of the
receiver is not part of this state. -/
def ipcSend (s : State) (thrDest : Option Ptr) (usermsg : Message) (current : Ptr)
    (kmsgBlock nodBlock : Option Ptr) : Int32 × State :=
  match thrDest with
  | none => (-ERR_WRONGARG, s)
  | some dest =>
      if s.threadState = .dead ∨ s.threadState = .init then (-ERR_WRONGARG, s)
      else
        match mmAllocateKernelMemory s.queue.live kmsgBlock with
        | none => (-ERR_NOMEM, s)
        | some kmsg =>
            let s := s.setQueue (s.queue.acquire kmsg)
            let s := s.setMessage kmsg ⟨usermsg, dest, current⟩
            -- the result of the push is dropped
            (0, s.setQueue (rtlPushFrontQueue s.queue nodBlock kmsg).2)

/-- How the search of a receive ends: with a message, with an error, or in a sleep after which the
same search is done again. -/
inductive Search
  | found (kmsg : Ptr) (nod : Option Ptr)
  | failed (code : Int32)
  | sleep
  deriving DecidableEq, Repr

/-- A search that leaves the message in the queue. -/
def searchMessage (s : State) (searcher : Ptr → Bool) : Option (Ptr × Option Ptr) :=
  (rtlSearchQueue s.queue searcher).map fun nod => (s.queue.value nod, some nod)

/-- The choice of a message: by source and command, by source, by command, or the oldest one. -/
def ipcReceiveChoose (s : State) (usermsg : Message) (thrSrc : Option Ptr) :
    Option (Ptr × Option Ptr) × State :=
  if thrSrc ≠ none ∧ usermsg.command ≠ 0 then (searchMessage s (messageSearcher3 s usermsg), s)
  else if thrSrc ≠ none then (searchMessage s (messageSearcher1 s usermsg), s)
  else if usermsg.command ≠ 0 then (searchMessage s (messageSearcher2 s usermsg), s)
  else
    let r := rtlPopBackQueue s.queue
    (r.1.map fun kmsg => (kmsg, none), s.setQueue r.2)

/-- The part of `IpcReceive` from `_recv_search` to the release of the semaphore. `elapsed` is the
time since the call began. -/
def ipcReceiveSearch (s : State) (usermsg : Message) (thrSrc : Option Ptr) (timeout : Int32)
    (elapsed : UInt32) : Search × State :=
  match ipcReceiveChoose s usermsg thrSrc with
  | (some (kmsg, nod), s) => (.found kmsg nod, s)
  | (none, s) =>
      if timeout = 0 then (.failed (-ERR_NONE), s)
      else if timeout ≠ INFINITE ∧ (timeout.toUInt32 - elapsed).toInt32 < 0 then
        (.failed (-ERR_TIMEOUT), { s with locked := true })
      else (.sleep, s)

/-- A message found by a receive that has not yet removed it. -/
structure Pending where
  kmsg : Ptr
  nod : Option Ptr
  thrSrc : Option Ptr
  flag : UInt32
  deriving DecidableEq, Repr

/-- The part of `IpcReceive` after the release of the semaphore. The source is read from the
message after it has been freed. -/
def ipcReceiveFinish (s : State) (p : Pending) (nodBlock : Option Ptr) : Message × State :=
  let usermsg := (s.message p.kmsg).userMessage
  let s :=
    if p.thrSrc ≠ none then
      if p.flag &&& MSG_KEEP = 0 then
        let s := match p.nod with
          | some nod => s.setQueue (rtlRemoveQueueElement s.queue nod)
          | none => s
        messageEraser s p.kmsg
      else s
    else
      if p.flag &&& MSG_KEEP ≠ 0 then s.setQueue (rtlPushBackQueue s.queue nodBlock p.kmsg).2
      else messageEraser s p.kmsg
  ({ usermsg with threadId := s.threadId (s.message p.kmsg).source }, s)

/-! ## Calls as events -/

/-- The flags of a receive that takes its message out of the queue. -/
def TakeFlag := { flag : UInt32 // flag &&& MSG_KEEP = 0 }

inductive Event
  | send (usermsg : Message) (source : Ptr) (kmsgBlock nodBlock : Option Ptr)
  | search (usermsg : Message) (thrSrc : Option Ptr) (flag : TakeFlag) (timeout : Int32)
      (elapsed : UInt32)
  | finish

/-- `sent` lists the messages for which `IpcSend` returned 0, and `tag` gives the place in this
list of the message in a block. `returned` lists the places and the messages that receives have
returned, `unfiltered` those places that were returned without a filter. -/
structure Ledger where
  sent : List KMessage
  tag : Ptr → ℕ
  returned : List (ℕ × Message)
  unfiltered : List ℕ

def Ledger.recordSent (l : Ledger) (kmsg : Ptr) (k : KMessage) : Ledger :=
  { l with sent := l.sent ++ [k], tag := Function.update l.tag kmsg l.sent.length }

def Ledger.recordReturned (l : Ledger) (p : Pending) (m : Message) : Ledger :=
  { l with
    returned := l.returned ++ [(l.tag p.kmsg, m)]
    unfiltered := if p.nod = none then l.unfiltered ++ [l.tag p.kmsg] else l.unfiltered }

structure System where
  state : State
  pending : Option Pending
  ledger : Ledger

/-- No receive is between its two steps, and the semaphore is free. -/
def System.Idle (y : System) : Prop := y.state.locked = false ∧ y.pending = none

instance (y : System) : Decidable y.Idle := inferInstanceAs (Decidable (_ ∧ _))

/-- A call that would block, or a thread that is busy, does nothing. -/
def step (y : System) : Event → System
  | .send usermsg source kmsgBlock nodBlock =>
      if y.state.locked then y
      else
        let r := ipcSend y.state (some y.state.self) usermsg source kmsgBlock nodBlock
        { y with
          state := r.2
          ledger :=
            match mmAllocateKernelMemory y.state.queue.live kmsgBlock with
            | some kmsg =>
                if r.1 = 0 then y.ledger.recordSent kmsg (r.2.message kmsg) else y.ledger
            | none => y.ledger }
  | .search usermsg thrSrc flag timeout elapsed =>
      if y.Idle then
        match ipcReceiveSearch y.state usermsg thrSrc timeout elapsed with
        | (.found kmsg nod, s) => { y with state := s, pending := some ⟨kmsg, nod, thrSrc, flag.1⟩ }
        | (_, s) => { y with state := s }
      else y
  | .finish =>
      match y.pending with
      | none => y
      | some p =>
          let r := ipcReceiveFinish y.state p none
          { state := r.2, pending := none, ledger := y.ledger.recordReturned p r.1 }

def start (s : State) : System := ⟨s, none, ⟨[], fun _ => 0, [], []⟩⟩

end Sgos.Ipc
