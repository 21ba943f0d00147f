import Sgos.GuardedRun
import Sgos.Queue
import Sgos.Thread

/-!
# Semaphores

`kernel/ipc/semaphore.c` with one semaphore and any number of threads. `IpcLockSemaphore` runs with
interrupts off and is one step up to its sleep or return. `IpcUnlockSemaphore` enables interrupts
after it has taken a thread from the queue: the increment of the counter is a load and a store, and
the wake-up is a step of its own.
-/
namespace Sgos.Semaphore
open Queue Thread

structure KSemaphore where
  waitQueue : Queue.State
  value : UInt32

/-- How far a thread is with its calls. An unlock carries the thread that it took from the queue. -/
inductive Phase
  | out
  | waiting
  | holding
  | popped (thr : Option Ptr)
  | loaded (thr : Option Ptr) (value : UInt32)
  | stored (thr : Option Ptr)
  deriving DecidableEq

structure State where
  sched : Scheduler.State
  sem : KSemaphore
  phase : Ptr → Phase

def ipcInitializeSemaphoreValue (heap : Queue.State) (v : UInt32) : KSemaphore :=
  ⟨{ heap with queue := rtlCreateQueue 0 }, v⟩

def ipcInitializeSemaphore (heap : Queue.State) : KSemaphore := ipcInitializeSemaphoreValue heap 1

/-- A thread runs when it is ready: the sleeping ones are not chosen. -/
def Runnable (s : State) (t : Ptr) : Prop := s.sched.stateOf t = .ready

instance (s : State) (t : Ptr) : Decidable (Runnable s t) :=
  inferInstanceAs (Decidable (_ = _))

def setPhase (s : State) (t : Ptr) (p : Phase) : State :=
  { s with phase := Function.update s.phase t p }

/-- Up to the sleep, or to the return. -/
def ipcLockSemaphore (s : State) (t : Ptr) (block : Option Ptr) : State :=
  let value := s.sem.value - 1
  if value ≠ 0 then
    -- the result of the push is not looked at
    setPhase { s with
      sem := ⟨(rtlPushFrontQueue s.sem.waitQueue block t).2, value⟩
      sched := tmSleepThread s.sched t t INFINITE } t .waiting
  else setPhase { s with sem := ⟨s.sem.waitQueue, value⟩ } t .holding

/-- The part of `IpcUnlockSemaphore` with interrupts off. -/
def unlockPop (s : State) (t : Ptr) : State :=
  let (thr, queue) := rtlPopBackQueue s.sem.waitQueue
  setPhase { s with sem := ⟨queue, s.sem.value⟩ } t (.popped thr)

/-- The next part of a call that is in progress. -/
def advance (s : State) (t : Ptr) : State :=
  match s.phase t with
  | .out | .holding => s
  | .waiting => setPhase s t .holding
  | .popped thr => setPhase s t (.loaded thr s.sem.value)
  | .loaded thr v => setPhase { s with sem := ⟨s.sem.waitQueue, v + 1⟩ } t (.stored thr)
  | .stored none => setPhase s t .out
  | .stored (some w) => setPhase { s with sched := (tmWakeupThread s.sched w).2 } t .out

/-- `wakeup` is `TmWakeupThread` from elsewhere, the last step of `IpcSend` and `IpcReply`; `sleep`
is a sleep for a message outside the calls. -/
inductive Event
  | lock (t : Ptr) (block : Option Ptr)
  | unlock (t : Ptr)
  | advance (t : Ptr)
  | wakeup (u : Ptr)
  | sleep (t : Ptr) (ms : UInt32)

def step (s : State) : Event → State
  | .lock t block =>
      if Runnable s t ∧ s.phase t = .out then ipcLockSemaphore s t block else s
  | .unlock t => if Runnable s t ∧ s.phase t = .holding then unlockPop s t else s
  | .advance t => if Runnable s t then advance s t else s
  | .wakeup u => { s with sched := (tmWakeupThread s.sched u).2 }
  | .sleep t ms =>
      if Runnable s t ∧ (s.phase t = .out ∨ s.phase t = .holding) then
        { s with sched := tmSleepThread s.sched t t ms }
      else s

/-- Any scheduler and heap, a new semaphore, and no call in progress. -/
def start (sched : Scheduler.State) (heap : Queue.State) : State :=
  ⟨sched, ipcInitializeSemaphore heap, fun _ => .out⟩

end Sgos.Semaphore
