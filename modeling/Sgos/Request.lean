import Sgos.GuardedRun
import Sgos.Ipc
import Sgos.ThreadDeath

/-!
# Requests and replies

`SendMessage` of `api/api.c` by any number of clients, and servers that take requests with
`WaitMessage` and send each of them back with a code and arguments. `IpcSend` and `IpcReceive` are
cut at the calls of `down` and `up`; a thread that sleeps there goes on when anything wakes it up.
Requests are numbered beside the model; messages do not carry the numbers.
-/
namespace Sgos.Request
open Ipc ThreadDeath

abbrev Tid := UInt32

/-- The timeout of `SendMessage`, in milliseconds. -/
def TIMEOUT : UInt32 := 3000

/-- A message in the kernel, with the number of the request that it is or answers. -/
structure Mail where
  message : Message
  source : Tid
  request : ℕ
  deriving DecidableEq

structure Call where
  client : Tid
  dest : Tid
  command : UInt32
  deriving DecidableEq

/-- The request that a call of `SendMessage` is about. -/
structure Waiting where
  request : ℕ
  dest : Tid
  command : UInt32
  deriving DecidableEq

inductive Sleep
  | awake | forever | timed
  deriving DecidableEq

/-- How far a thread is. In `IpcSend` to `dest`: behind the call of `down`, which may have put it to
sleep; the message is pushed; the semaphore is up. In `IpcReceive`: before `down`; behind it; with a
message, before `up`. -/
inductive Pc
  | idle
  | locking (dest : Tid) (mail : Mail)
  | pushed (dest : Tid)
  | released (dest : Tid)
  | entering
  | receiving
  | found (mail : Mail)
  deriving DecidableEq

/-- The semaphores of the threads, and which of these are asleep. -/
structure Sync where
  semaphore : Tid → KSemaphore
  sleep : Tid → Sleep

def Sync.setSleep (y : Sync) (t : Tid) (v : Sleep) : Sync :=
  { y with sleep := Function.update y.sleep t v }

def Sync.setSemaphore (y : Sync) (d : Tid) (sem : KSemaphore) : Sync :=
  { y with semaphore := Function.update y.semaphore d sem }

/-- `down( &d->Semaphore )` by `t`. -/
def down (y : Sync) (t d : Tid) : Sync :=
  let sem := y.semaphore d
  if sem.value - 1 ≠ 0 then
    (y.setSemaphore d ⟨sem.value - 1, sem.waitQueue ++ [t]⟩).setSleep t .forever
  else y.setSemaphore d ⟨sem.value - 1, sem.waitQueue⟩

/-- `TmWakeupThread`. -/
def wakeup (y : Sync) (t : Tid) : Sync := y.setSleep t .awake

def up (y : Sync) (d : Tid) : Sync :=
  let sem := y.semaphore d
  match sem.waitQueue with
  | [] => y.setSemaphore d ⟨sem.value + 1, []⟩
  | w :: ws => wakeup (y.setSemaphore d ⟨sem.value + 1, ws⟩) w

/-- `accepted` are the requests that a server has yet to answer. `calls` lists the requests by their
numbers; `replied` and `returned` list what servers have answered and what `SendMessage` has
handed back with a result that is not negative. -/
structure State where
  server : Tid → Bool
  mailbox : Tid → List Mail
  accepted : Tid → List Mail
  pc : Tid → Pc
  current : Tid → Option Waiting
  sync : Sync
  calls : List Call
  replied : List (ℕ × Int32 × Vector UInt32 10)
  returned : List (ℕ × Mail)

namespace State

def setPc (s : State) (t : Tid) (pc : Pc) : State := { s with pc := Function.update s.pc t pc }

def setCurrent (s : State) (t : Tid) (w : Option Waiting) : State :=
  { s with current := Function.update s.current t w }

def setMailbox (s : State) (t : Tid) (ms : List Mail) : State :=
  { s with mailbox := Function.update s.mailbox t ms }

def setAccepted (s : State) (t : Tid) (ms : List Mail) : State :=
  { s with accepted := Function.update s.accepted t ms }

def setSync (s : State) (y : Sync) : State := { s with sync := y }

end State

/-- `MessageSearcher3`, or `MessageSearcher1` for the command 0. -/
def Waiting.accepts (w : Waiting) (m : Mail) : Bool :=
  m.source = w.dest && (w.command = 0 || m.message.command = w.command)

/-- The message that a receive takes, and those it leaves. `SendMessage` filters, `WaitMessage`
takes the oldest. -/
def take (s : State) (t : Tid) : Option (Mail × List Mail) :=
  match s.current t with
  | some w =>
      ((s.mailbox t).find? w.accepts).map fun m => (m, (s.mailbox t).eraseP w.accepts)
  | none =>
      match s.mailbox t with
      | [] => none
      | m :: ms => some (m, ms)

/-- The search of `IpcReceive`. A receive that times out returns with its semaphore down. -/
def receive (s : State) (t : Tid) (elapsed : UInt32) : State :=
  match take s t with
  | some (m, ms) => (s.setMailbox t ms).setPc t (.found m)
  | none =>
      match s.current t with
      | some _ =>
          if (TIMEOUT - elapsed).toInt32 < 0 then (s.setCurrent t none).setPc t .idle
          else (s.setSync ((up s.sync t).setSleep t .timed)).setPc t .entering
      | none => (s.setSync ((up s.sync t).setSleep t .forever)).setPc t .entering

/-- The next part of what `t` is doing. `memory` says whether the message could be allocated,
`room` whether the queue takes it; `IpcSend` does not look at the latter. -/
def advance (s : State) (t : Tid) (elapsed : UInt32) (memory room : Bool) : State :=
  match s.pc t with
  | .idle => s
  | .locking d m =>
      if memory then
        (if room then s.setMailbox d (s.mailbox d ++ [m]) else s).setPc t (.pushed d)
      else ((s.setSync (up s.sync d)).setCurrent t none).setPc t .idle
  | .pushed d => (s.setSync (up s.sync d)).setPc t (.released d)
  | .released d =>
      (s.setSync (wakeup s.sync d)).setPc t (if s.current t = none then .idle else .entering)
  | .entering => (s.setSync (down s.sync t t)).setPc t .receiving
  | .receiving => receive s t elapsed
  | .found m =>
      match s.current t with
      | some w =>
          { ((s.setSync (up s.sync t)).setCurrent t none).setPc t .idle with
            returned := s.returned ++ [(w.request, m)] }
      | none =>
          ((s.setSync (up s.sync t)).setAccepted t (s.accepted t ++ [m])).setPc t .idle

/-- `tick` is the end of a timed sleep. -/
inductive Event
  | call (c d : Tid) (command : UInt32) (arguments : Vector UInt32 10)
  | wait (t : Tid)
  | reply (t : Tid) (i : ℕ) (code : Int32) (arguments : Vector UInt32 10)
  | run (t : Tid) (elapsed : UInt32) (memory room : Bool)
  | tick (t : Tid)

/-- The thread runs and is in no call. -/
def Free (s : State) (t : Tid) : Prop := s.pc t = .idle ∧ s.sync.sleep t = .awake

instance (s : State) (t : Tid) : Decidable (Free s t) := inferInstanceAs (Decidable (_ ∧ _))

def requestMail (s : State) (c d : Tid) (command : UInt32) (arguments : Vector UInt32 10) : Mail :=
  ⟨⟨d, 0, command, arguments, 0, Vector.replicate 2 0⟩, c, s.calls.length⟩

/-- The message sent back to its source, as `ReplyMessage` and `Reply` do. -/
def replyMail (t : Tid) (m : Mail) (code : Int32) (arguments : Vector UInt32 10) : Mail :=
  ⟨{ m.message with threadId := m.source, code := code, arguments := arguments }, t, m.request⟩

def step (s : State) : Event → State
  | .call c d command arguments =>
      if Free s c ∧ s.server c = false ∧ s.server d = true then
        { ((s.setSync (down s.sync c d)).setCurrent c
            (some ⟨s.calls.length, d, command⟩)).setPc c
            (.locking d (requestMail s c d command arguments)) with
          calls := s.calls ++ [⟨c, d, command⟩] }
      else s
  | .wait t => if Free s t ∧ s.server t = true then s.setPc t .entering else s
  | .reply t i code arguments =>
      match (s.accepted t)[i]? with
      | none => s
      | some m =>
          if Free s t then
            { ((s.setSync (down s.sync t m.source)).setAccepted t ((s.accepted t).eraseIdx i)).setPc t
                (.locking m.source (replyMail t m code arguments)) with
              replied := s.replied ++ [(m.request, code, arguments)] }
          else s
  | .run t elapsed memory room =>
      if s.sync.sleep t = .awake then advance s t elapsed memory room else s
  | .tick t => if s.sync.sleep t = .timed then s.setSync (wakeup s.sync t) else s

/-- Idle threads with free semaphores. -/
def start (server : Tid → Bool) : State where
  server := server
  mailbox _ := []
  accepted _ := []
  pc _ := .idle
  current _ := none
  sync := ⟨fun _ => ⟨1, []⟩, fun _ => .awake⟩
  calls := []
  replied := []
  returned := []

end Sgos.Request
