import Sgos.Semaphore

/-!
# Messages sent by interrupt handlers

`IpcSend` (kernel/ipc/message.c) step by step, called by threads and, through `ArHandleIrq`,
`KeHardwareInterruptMessage` and `IpcQuickSend`, by the handler of a hardware interrupt. Each
thread has a semaphore, and its message queue has another one, which `RtlPushFrontQueue` takes. The
handler runs with interrupts off in the context of the interrupted thread.
-/
namespace Sgos.Interrupt
open Queue Scheduler Thread
open Semaphore (KSemaphore Phase ipcInitializeSemaphore ipcLockSemaphore unlockPop)

/-- The `Semaphore` of a thread and the semaphore of its message queue. -/
inductive SemId
  | thread (d : Ptr)
  | queue (d : Ptr)
  deriving DecidableEq

/-- How far a call of `IpcSend` to `d` is. In the last two phases of each lock the semaphore of the
queue, or that of the thread, is on its way through `IpcUnlockSemaphore`. -/
inductive Pc
  | idle
  | waiting (d : Ptr)
  | inside (d : Ptr)
  | admitted (d : Ptr)
  | queueWaiting (d : Ptr)
  | linking (d : Ptr) (p : Phase)
  | leaving (d : Ptr) (wake : Bool) (p : Phase)
  | waking (d : Ptr)
  deriving DecidableEq

/-- What a call has done with a semaphore. -/
def phaseOf : SemId → Pc → Phase
  | .thread d, .waiting d' => if d = d' then .waiting else .out
  | .thread d, .inside d' | .thread d, .admitted d' | .thread d, .queueWaiting d'
  | .thread d, .linking d' _ => if d = d' then .holding else .out
  | .thread d, .leaving d' _ p => if d = d' then p else .out
  | .queue d, .queueWaiting d' => if d = d' then .waiting else .out
  | .queue d, .linking d' p => if d = d' then p else .out
  | _, _ => .out

@[simp] lemma phaseOf_idle (id : SemId) : phaseOf id .idle = .out := by
  cases id <;> simp [phaseOf]

/-- The null pointer is no thread; it stands for the call of the interrupt handler. -/
def handler : Ptr := 0

/-- `interrupted` is the thread in whose context the handler runs. `slept` is set when the handler
has put that thread to sleep. -/
structure State where
  sched : Scheduler.State
  sem : SemId → KSemaphore
  pc : Ptr → Pc
  interrupted : Option Ptr
  slept : Bool

/-- One semaphore and what the calls have done with it. -/
def State.view (s : State) (id : SemId) : Semaphore.State :=
  ⟨s.sched, s.sem id, fun t => phaseOf id (s.pc t)⟩

/-- A part of a call that concerns one semaphore is done. -/
def State.put (s : State) (id : SemId) (v : Semaphore.State) (t : Ptr) (pc : Pc) : State :=
  { s with
    sched := v.sched, sem := Function.update s.sem id v.sem, pc := Function.update s.pc t pc }

/-- `IpcLockSemaphore` by a thread. -/
def down (s : State) (id : SemId) (t : Ptr) (block : Option Ptr) (waiting got : Pc) : State :=
  let v := ipcLockSemaphore (s.view id) t block
  s.put id v t (if v.phase t = .waiting then waiting else got)

/-- `IpcLockSemaphore` by the handler. `TmGetCurrentThread` is the interrupted thread; `TmSchedule`
only records the next one, so the assertion at the end of `TmSleepThread` fails. -/
def downInterrupted (s : State) (id : SemId) (cur : Ptr) (block : Option Ptr) (got : Pc) : State :=
  let value := (s.sem id).value - 1
  if value ≠ 0 then
    { s with
      sched := tmSleepThread s.sched cur cur INFINITE
      sem := Function.update s.sem id
        ⟨(rtlPushFrontQueue (s.sem id).waitQueue block cur).2, value⟩
      slept := true }
  else s.put id (ipcLockSemaphore (s.view id) handler block) handler got

/-- The next part of an unlock that starts in the phase `holding`. -/
def upPart (v : Semaphore.State) (t : Ptr) : Semaphore.State :=
  if v.phase t = .holding then unlockPop v t else Semaphore.advance v t

/-- The next part of a call after its first lock. `memory` says whether the message could be
allocated, `room` whether the queue takes it; `lock` is the lock of the queue. -/
def advance (lock : State → SemId → Pc → Pc → State) (s : State) (t : Ptr) (memory room : Bool) :
    State :=
  match s.pc t with
  | .idle => s
  | .waiting d => s.put (.thread d) (Semaphore.advance (s.view (.thread d)) t) t (.inside d)
  | .inside d =>
      let dead := s.sched.stateOf d = .dead ∨ s.sched.stateOf d = .init
      let pc := if dead ∨ memory = false then .leaving d false .holding else .admitted d
      { s with pc := Function.update s.pc t pc }
  | .admitted d =>
      if room then lock s (.queue d) (.queueWaiting d) (.linking d .holding)
      else { s with pc := Function.update s.pc t (.leaving d true .holding) }
  | .queueWaiting d =>
      s.put (.queue d) (Semaphore.advance (s.view (.queue d)) t) t (.linking d .holding)
  | .linking d _ =>
      let v := upPart (s.view (.queue d)) t
      s.put (.queue d) v t
        (if v.phase t = .out then .leaving d true .holding else .linking d (v.phase t))
  | .leaving d wake _ =>
      let v := upPart (s.view (.thread d)) t
      s.put (.thread d) v t
        (if v.phase t = .out then if wake then .waking d else .idle
          else .leaving d wake (v.phase t))
  | .waking d =>
      { s with sched := (tmWakeupThread s.sched d).2, pc := Function.update s.pc t .idle }

def setInterrupted (s : State) (t : Ptr) (b : Bool) : Scheduler.State :=
  s.sched.modify t ({ · with isInterrupted := b })

/-- `block` is what the allocator offers for a node of a wait queue. -/
inductive Event
  | call (t d : Ptr) (block : Option Ptr)
  | run (t : Ptr) (block : Option Ptr) (memory room : Bool)
  | interrupt (t : Ptr)
  | quickSend (d : Ptr) (block : Option Ptr)
  | handle (block : Option Ptr) (memory room : Bool)
  | iret

/-- A ready thread that no interrupt holds up. -/
def CanRun (s : State) (t : Ptr) : Prop :=
  s.interrupted = none ∧ t ≠ handler ∧ s.sched.stateOf t = .ready

instance (s : State) (t : Ptr) : Decidable (CanRun s t) :=
  inferInstanceAs (Decidable (_ ∧ _ ∧ _))

/-- `iret` is the end of `ArHandleIrq`. -/
def act (s : State) : Event → State
  | .call t d block =>
      if CanRun s t ∧ s.pc t = .idle then down s (.thread d) t block (.waiting d) (.inside d) else s
  | .run t block memory room =>
      if CanRun s t then advance (fun s id => down s id t block) s t memory room else s
  | .interrupt t =>
      if CanRun s t then { s with sched := setInterrupted s t true, interrupted := some t } else s
  | .quickSend d block =>
      match s.interrupted with
      | none => s
      | some cur =>
          if s.pc handler = .idle then downInterrupted s (.thread d) cur block (.inside d) else s
  | .handle block memory room =>
      match s.interrupted with
      | none => s
      | some cur =>
          advance (fun s id _ => downInterrupted s id cur block) s handler memory room
  | .iret =>
      match s.interrupted with
      | none => s
      | some cur =>
          if s.pc handler = .idle then
            { s with sched := setInterrupted s cur false, interrupted := none }
          else s

/-- After a failed assertion the run is not followed. -/
def step (s : State) (e : Event) : State := if s.slept then s else act s e

/-- New semaphores, and no call in progress. -/
def start (sched : Scheduler.State) (heap : SemId → Queue.State) : State :=
  ⟨sched, fun id => ipcInitializeSemaphore (heap id), fun _ => .idle, none, false⟩

end Sgos.Interrupt
