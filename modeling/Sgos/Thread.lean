import Sgos.Scheduler

/-!
# Thread states

The operations of `kernel/tm/thread.c` that change the state of a thread, and the clock tick and
the choice of the next thread of `kernel/tm/sched.c`. `cur` is the running thread. What a switch
does besides naming the next thread is left to the run: any ready thread may go on.
-/
namespace Sgos.Thread
open LinkedChain Scheduler

def INFINITE : UInt32 := 0xFFFFFFFF
def ERR_UNKNOWN : Int32 := 5

/-- `1000/RTC_FREQUENCY`. -/
def MS : Int32 := 5

/-- `ArSwitchThread`, which an interrupt handler leaves to the end of the interrupt. -/
def switchThread (s : State) (cur thr : Ptr) : State :=
  if thr = cur then s
  else if (s.thread cur).isInterrupted then { s with box := { s.box with next := some thr } }
  else { s with box := { s.box with next := none } }.setHead .running (some thr)

/-- `TmSchedule`; without an idle thread the kernel stops. -/
def tmSchedule (s : State) (cur : Ptr) : State :=
  let following := if s.stateOf cur = .ready then s.next cur else none
  let thr := match following with
    | some t => if s.stateOf t = .ready then some t else s.head .ready
    | none => s.head .ready
  match thr with
  | some t => switchThread (s.setClock t 5) cur t
  | none =>
      match s.head .idle with
      | some t => switchThread (s.setClock t 1) cur t
      | none => s

def tmResumeThread (s : State) (thr : Ptr) : State := tmSetThreadState s thr .ready

def tmSuspendThread (s : State) (cur thr : Ptr) : State :=
  let s := tmSetThreadState s thr .paused
  if thr = cur then tmSchedule s cur else s

def tmSleepThread (s : State) (cur thr : Ptr) (ms : UInt32) : State :=
  let s :=
    if ms = INFINITE then tmSetThreadState s thr .sleep
    else tmSetThreadState (s.setClock thr ms.toInt32) thr .wait
  if thr = cur then tmSchedule s cur else s

def tmWakeupThread (s : State) (thr : Ptr) : Int32 × State :=
  if s.stateOf thr = .sleep ∨ s.stateOf thr = .wait then (0, tmSetThreadState s thr .ready)
  else (-ERR_UNKNOWN, s)

def clockOf (s : State) (thr : Ptr) : Int32 := (s.thread thr).scheduleInformation.clock

/-- The loop of `TmIncreaseTime` over the waiting threads. After an expiry it goes on behind the
thread before, or else behind the new head. -/
def expire : ℕ → State → Option Ptr → State
  | 0, s, _ => s
  | _ + 1, s, none => s
  | fuel + 1, s, some thr =>
      let s := s.setClock thr (clockOf s thr - MS)
      if clockOf s thr ≤ 0 then
        let prev := s.prev thr
        let s := tmSetThreadState s thr .ready
        match prev with
        | some p => expire fuel s (s.next p)
        | none =>
            match s.head .wait with
            | some h => expire fuel s (s.next h)
            | none => s
      else expire fuel s (s.next thr)

def tmIncreaseTime (s : State) (cur : Ptr) (canSchedule : Int32) : State :=
  let s := expire addressSpace s (s.head .wait)
  let s := s.setClock cur (clockOf s cur - 1)
  if clockOf s cur ≤ 0 ∧ canSchedule = 0 then tmSchedule s cur else s

/-! ## What each operation does to the states -/

section StateOf
variable (s : State) (cur thr : Ptr)

@[simp] lemma removeFromLink_stateOf (l : Option Link) :
    (removeFromLink s thr l).stateOf = s.stateOf := by
  cases l with
  | none => rfl
  | some l =>
    rw [removeFromLink]
    split
    · rfl
    · split <;> dsimp only <;> split <;> simp

@[simp] lemma putToLink_stateOf (l : Option Link) :
    (putToLink s thr l).stateOf = s.stateOf := by
  cases l with
  | none => rfl
  | some l => exact (putToLink_links s thr l).2.2.2

@[simp] lemma tmSetThreadState_stateOf (st : ThreadState) :
    (tmSetThreadState s thr st).stateOf = Function.update s.stateOf thr st := by
  rw [tmSetThreadState]
  split_ifs with h
  · rw [← h, Function.update_eq_self]
  · simp

@[simp] lemma switchThread_stateOf : (switchThread s cur thr).stateOf = s.stateOf := by
  rw [switchThread]
  split_ifs <;> rfl

@[simp] lemma tmSchedule_stateOf : (tmSchedule s cur).stateOf = s.stateOf := by
  simp only [tmSchedule]
  repeat' split
  all_goals simp

@[simp] lemma tmResumeThread_stateOf :
    (tmResumeThread s thr).stateOf = Function.update s.stateOf thr .ready :=
  tmSetThreadState_stateOf s thr .ready

@[simp] lemma tmSuspendThread_stateOf :
    (tmSuspendThread s cur thr).stateOf = Function.update s.stateOf thr .paused := by
  rw [tmSuspendThread]
  split_ifs <;> simp

@[simp] lemma tmSleepThread_stateOf (ms : UInt32) : (tmSleepThread s cur thr ms).stateOf =
    Function.update s.stateOf thr (if ms = INFINITE then .sleep else .wait) := by
  rw [tmSleepThread]
  split_ifs <;> simp

/-- A wake-up changes only a thread that sleeps or waits. -/
lemma tmWakeupThread_stateOf : (tmWakeupThread s thr).2.stateOf =
    if s.stateOf thr = .sleep ∨ s.stateOf thr = .wait then Function.update s.stateOf thr .ready
    else s.stateOf := by
  rw [tmWakeupThread]
  split_ifs <;> simp

lemma tmWakeupThread_stateOf_of_ne {thr : Ptr} {t : Ptr} (h : t ≠ thr) :
    (tmWakeupThread s thr).2.stateOf t = s.stateOf t := by
  rw [tmWakeupThread_stateOf]
  split_ifs
  · rw [Function.update_of_ne h]
  · rfl

end StateOf

end Sgos.Thread
