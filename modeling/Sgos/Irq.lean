import Sgos.GuardedRun
import Sgos.Thread

/-!
# Nested interrupts

`ArHandleIrq` of `kernel/arch/i386/irq/irq.c` with the timer routine of `clock/rtc.c`, statement by
statement. Each thread has a stack of activations, the innermost first. The gates of the hardware
interrupts turn interrupts off, and the timer routine turns them on again around
`TmIncreaseTime`, so that an interrupt may arrive on top of it. A thread that is switched away
keeps its stack.
-/
namespace Sgos.Irq
open GuardedRun Scheduler Thread

def RTC_INTERRUPT : Fin 16 := 0

/-- How far an activation is: before `IsInterrupted = 1`; before the routine of the irq; in the
timer routine, before and after `TmIncreaseTime`; in `KeHardwareInterruptMessage`; behind
`IsInterrupted = 0`; behind the end of interrupt; on the way out. -/
inductive Pc
  | entered | handling | ticking | ticked | messaging | cleared | acknowledged | leaving
  deriving DecidableEq, Repr

structure Activation where
  irq : Fin 16
  pc : Pc
  deriving DecidableEq, Repr

/-- Between the two assignments to `IsInterrupted`. -/
def Activation.InProgress (a : Activation) : Prop :=
  a.pc = .handling ∨ a.pc = .ticking ∨ a.pc = .ticked ∨ a.pc = .messaging

/-- The end of interrupt has been sent. -/
def Activation.Acknowledged (a : Activation) : Prop := a.pc = .acknowledged ∨ a.pc = .leaving

/-- The processor takes interrupts. -/
def Activation.Enabled (a : Activation) : Prop := a.pc = .ticking ∨ a.pc = .ticked

instance (a : Activation) : Decidable a.InProgress :=
  inferInstanceAs (Decidable (_ ∨ _ ∨ _ ∨ _))
instance (a : Activation) : Decidable a.Acknowledged := inferInstanceAs (Decidable (_ ∨ _))
instance (a : Activation) : Decidable a.Enabled := inferInstanceAs (Decidable (_ ∨ _))

/-- `mask` is the mask of the interrupt controllers. -/
structure State where
  sched : Scheduler.State
  stack : Ptr → List Activation
  mask : Fin 16 → Bool

namespace State

/-- `TmGetCurrentThread`. -/
def current (s : State) : Option Ptr := s.sched.head .running

def flag (s : State) (t : Ptr) : Bool := (s.sched.thread t).isInterrupted

def setFlag (s : State) (t : Ptr) (b : Bool) : State :=
  { s with sched := s.sched.modify t ({ · with isInterrupted := b }) }

def setStack (s : State) (t : Ptr) (as : List Activation) : State :=
  { s with stack := Function.update s.stack t as }

/-- `ArSetIrqMask`. -/
def setMask (s : State) (irq : Fin 16) (enabled : Bool) : State :=
  { s with mask := Function.update s.mask irq !enabled }

def setSched (s : State) (sched : Scheduler.State) : State := { s with sched := sched }

end State

/-- The switch at the end of `do_irq`. -/
def switchToNext (s : Scheduler.State) : Scheduler.State :=
  match s.box.next with
  | some t => { s with box := { s.box with next := none } }.setHead .running (some t)
  | none => s

/-- The next statement of the innermost activation of the current thread `cur`. -/
def advance (s : State) (cur : Ptr) (canSchedule : Int32) : State :=
  match s.stack cur with
  | [] => s
  | a :: as =>
      let at_ (pc : Pc) : List Activation := ⟨a.irq, pc⟩ :: as
      match a.pc with
      | .entered => (s.setFlag cur true).setStack cur (at_ .handling)
      | .handling =>
          if a.irq = RTC_INTERRUPT then (s.setMask RTC_INTERRUPT false).setStack cur (at_ .ticking)
          else s.setStack cur (at_ .messaging)
      | .ticking =>
          (s.setSched (tmIncreaseTime s.sched cur canSchedule)).setStack cur (at_ .ticked)
      | .ticked => (s.setMask RTC_INTERRUPT true).setStack cur (at_ .messaging)
      | .messaging => (s.setFlag cur false).setStack cur (at_ .cleared)
      | .cleared => s.setStack cur (at_ .acknowledged)
      | .acknowledged => (s.setSched (switchToNext s.sched)).setStack cur (at_ .leaving)
      | .leaving => s.setStack cur as

/-- The calls that set thread states and may schedule. -/
inductive Call
  | schedule
  | wakeup (thr : Ptr)
  | sleep (thr : Ptr) (ms : UInt32)
  | suspend (thr : Ptr)
  | set (thr : Ptr) (st : TargetState)

def Call.run (s : Scheduler.State) (cur : Ptr) : Call → Scheduler.State
  | .schedule => tmSchedule s cur
  | .wakeup thr => (tmWakeupThread s thr).2
  | .sleep thr ms => tmSleepThread s cur thr ms
  | .suspend thr => tmSuspendThread s cur thr
  | .set thr st => tmSetThreadState s thr st.1

/-- `wake` and `block` are parts of `KeHardwareInterruptMessage`, which masks the irq and sends:
the receiver is woken up, or the sender is put to sleep by a semaphore. `kernel` and `enable` are
calls of a thread. -/
inductive Event
  | interrupt (irq : Fin 16)
  | advance (canSchedule : Int32)
  | wake (thr : Ptr)
  | block
  | kernel (c : Call)
  | enable (irq : Fin 16) (b : Bool)

/-- An interrupt may be taken on top of these activations. -/
def Interruptible : List Activation → Prop
  | [] => True
  | a :: _ => a.Enabled

instance : (as : List Activation) → Decidable (Interruptible as)
  | [] => .isTrue trivial
  | a :: _ => inferInstanceAs (Decidable a.Enabled)

/-- A call of the scheduler by the message that the innermost activation sends. -/
def message (s : State) (cur : Ptr) (c : Call) : State :=
  match s.stack cur with
  | [] => s
  | a :: _ =>
      if a.pc = .messaging then (s.setMask a.irq false).setSched (c.run s.sched cur) else s

def act (s : State) (cur : Ptr) : Event → State
  | .interrupt irq =>
      if Interruptible (s.stack cur) ∧ s.mask irq = false then
        s.setStack cur (⟨irq, .entered⟩ :: s.stack cur)
      else s
  | .advance canSchedule => advance s cur canSchedule
  | .wake thr => message s cur (.wakeup thr)
  | .block => message s cur (.sleep cur INFINITE)
  | .kernel c => if s.stack cur = [] then s.setSched (c.run s.sched cur) else s
  | .enable irq b => if s.stack cur = [] then s.setMask irq b else s

def step (s : State) (e : Event) : State :=
  match s.current with
  | some cur => act s cur e
  | none => s

/-- A new scheduler, with all interrupts enabled and none being handled. -/
def start (running : Option Ptr) : State := ⟨initial running, fun _ => [], fun _ => false⟩

end Sgos.Irq
