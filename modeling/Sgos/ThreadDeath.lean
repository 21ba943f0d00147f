import Sgos.GuardedRun
import Sgos.Thread

/-!
# The end of a thread

`TmTerminateThread`, `IpcSend`, `IpcReply` and the operations on thread states, called with thread
ids by running threads. A call that locks the semaphore of a thread is made in parts, since it may
sleep in `down`, and other threads may run between its parts. Dead threads stay on the list of
their space.
-/
namespace Sgos.ThreadDeath
open LinkedChain Scheduler Thread

/-- The wait queue as the list of its threads, the oldest first. -/
structure KSemaphore where
  value : UInt32
  waitQueue : List Ptr

/-- `destroyed` counts the calls of `IpcDestroyThreadMessageQueue`. -/
structure MessageQueue where
  curNum : Int32
  maxNum : Int32
  messages : List Ptr
  destroyed : ℕ

inductive Call
  | terminate (thr : Ptr) (code : UInt32)
  | send (dest : Ptr) (kmsg : Option Ptr)
  deriving DecidableEq

/-- How far a thread is with its call: in `down` or just behind it; `TS_DEAD` is set; the message
queue is destroyed; the message is in the queue. -/
inductive Phase
  | idle
  | entered (call : Call)
  | marked (thr : Ptr)
  | emptied (thr : Ptr)
  | sent (dest : Ptr)
  deriving DecidableEq

structure State where
  sched : Scheduler.State
  spaceThreads : UInt32 → List Ptr
  threadId : Ptr → UInt32
  exitCode : Ptr → UInt32
  semaphore : Ptr → KSemaphore
  joinSemaphore : Ptr → KSemaphore
  messageQueue : Ptr → MessageQueue
  phase : Ptr → Phase

/-- `TmGetThreadById`, called by `cur`. -/
def tmGetThreadById (s : State) (cur : Ptr) (tid : UInt32) : Option Ptr :=
  if s.threadId cur = tid then some cur
  else (s.spaceThreads (tid >>> 16)).find? fun thr => s.threadId thr = tid

def setPhase (s : State) (t : Ptr) (p : Phase) : State :=
  { s with phase := Function.update s.phase t p }

def setSemaphore (s : State) (thr : Ptr) (sem : KSemaphore) : State :=
  { s with semaphore := Function.update s.semaphore thr sem }

def setMessageQueue (s : State) (thr : Ptr) (q : MessageQueue) : State :=
  { s with messageQueue := Function.update s.messageQueue thr q }

/-- `down( &thr->Semaphore )` by `t`, up to its sleep or return. -/
def down (s : State) (t thr : Ptr) : State :=
  let sem := s.semaphore thr
  if sem.value - 1 ≠ 0 then
    { setSemaphore s thr ⟨sem.value - 1, sem.waitQueue ++ [t]⟩ with
      sched := tmSleepThread s.sched t t INFINITE }
  else setSemaphore s thr ⟨sem.value - 1, sem.waitQueue⟩

def up (s : State) (thr : Ptr) : State :=
  let sem := s.semaphore thr
  match sem.waitQueue with
  | [] => setSemaphore s thr ⟨sem.value + 1, []⟩
  | w :: ws =>
      { setSemaphore s thr ⟨sem.value + 1, ws⟩ with sched := (tmWakeupThread s.sched w).2 }

/-- `IpcDestroySemaphore` wakes every thread in the queue. -/
def wakeAll (s : Scheduler.State) (ts : List Ptr) : Scheduler.State :=
  ts.foldl (fun s t => (tmWakeupThread s t).2) s

def destroySemaphores (s : State) (thr : Ptr) : State :=
  { s with
    sched := wakeAll s.sched ((s.semaphore thr).waitQueue ++ (s.joinSemaphore thr).waitQueue)
    semaphore := Function.update s.semaphore thr ⟨0, []⟩
    joinSemaphore := Function.update s.joinSemaphore thr ⟨0, []⟩ }

/-- `RtlDestroyQueue` counts down once for each element it pops. -/
def ipcDestroyThreadMessageQueue (s : State) (thr : Ptr) : State :=
  let q := s.messageQueue thr
  setMessageQueue s thr ⟨1 - Int32.ofNat q.messages.length, 0, [], q.destroyed + 1⟩

/-- `RtlPushFrontQueue` refuses a full queue. -/
def pushMessage (s : State) (thr kmsg : Ptr) : State :=
  let q := s.messageQueue thr
  if q.curNum ≥ q.maxNum then s
  else setMessageQueue s thr ⟨q.curNum + 1, q.maxNum, q.messages ++ [kmsg], q.destroyed⟩

def markDead (s : State) (thr : Ptr) (code : UInt32) : State :=
  { s with
    sched := tmSetThreadState s.sched thr .dead
    exitCode := Function.update s.exitCode thr code }

/-- The end of `TmTerminateThread`, by `t`. -/
def finish (s : State) (t thr : Ptr) : State :=
  let s := destroySemaphores s thr
  setPhase { s with sched := tmSchedule s.sched t } t .idle

/-- The next part of the call of `t`. A thread that ends itself does so with interrupts off. -/
def advance (s : State) (t : Ptr) : State :=
  match s.phase t with
  | .idle => s
  | .entered (.terminate thr code) =>
      let s := markDead s thr code
      if thr = t then finish (ipcDestroyThreadMessageQueue s thr) t thr
      else setPhase s t (.marked thr)
  | .marked thr => setPhase (ipcDestroyThreadMessageQueue s thr) t (.emptied thr)
  | .emptied thr => finish s t thr
  | .entered (.send dest kmsg) =>
      -- the state is looked at again behind `down`
      if s.sched.stateOf dest = .dead ∨ s.sched.stateOf dest = .init then
        setPhase (up s dest) t .idle
      else
        match kmsg with
        | none => setPhase (up s dest) t .idle
        | some kmsg => setPhase (up (pushMessage s dest kmsg) dest) t (.sent dest)
  | .sent dest => setPhase { s with sched := (tmWakeupThread s.sched dest).2 } t .idle

/-- Calls by the running thread `t`; `tick` is the clock interrupt. -/
inductive Event
  | terminate (t : Ptr) (tid code : UInt32)
  | resume (t : Ptr) (tid : UInt32)
  | suspend (t : Ptr) (tid : UInt32)
  | sleep (t : Ptr) (tid ms : UInt32)
  | wakeup (t : Ptr) (tid : UInt32)
  | send (t : Ptr) (tid : UInt32) (kmsg : Option Ptr)
  | reply (t : Ptr) (tid : UInt32)
  | advance (t : Ptr)
  | tick (t : Ptr) (canSchedule : Int32)

def Runnable (s : State) (t : Ptr) : Prop := s.sched.stateOf t = .ready

instance (s : State) (t : Ptr) : Decidable (Runnable s t) :=
  inferInstanceAs (Decidable (_ = _))

/-- A call by `t` on the thread that an id resolves to; otherwise it fails and nothing happens. -/
def onThread (s : State) (t : Ptr) (tid : UInt32) (f : Ptr → State) : State :=
  if Runnable s t ∧ s.phase t = .idle then
    match tmGetThreadById s t tid with
    | some thr => f thr
    | none => s
  else s

def step (s : State) : Event → State
  | .terminate t tid code =>
      onThread s t tid fun thr => setPhase (down s t thr) t (.entered (.terminate thr code))
  | .resume t tid => onThread s t tid fun thr => { s with sched := tmResumeThread s.sched thr }
  | .suspend t tid => onThread s t tid fun thr => { s with sched := tmSuspendThread s.sched t thr }
  | .sleep t tid ms =>
      onThread s t tid fun thr => { s with sched := tmSleepThread s.sched t thr ms }
  | .wakeup t tid | .reply t tid =>
      onThread s t tid fun thr => { s with sched := (tmWakeupThread s.sched thr).2 }
  | .send t tid kmsg =>
      onThread s t tid fun dest => setPhase (down s t dest) t (.entered (.send dest kmsg))
  | .advance t => if Runnable s t then advance s t else s
  | .tick t canSchedule => { s with sched := tmIncreaseTime s.sched t canSchedule }

end Sgos.ThreadDeath
