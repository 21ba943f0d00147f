import Sgos.ThreadDeathRuns

/-!
# Joining a thread

`TmJoinThread` of `kernel/tm/thread.c` and the `System_JoinThread` of `kernel/start/system.c`, in
runs with the calls of `ThreadDeath`. The check of the state and the sleep are one step, since
interrupts are off; the return is another. The caller of `System_JoinThread` gets its reply when
the call that the system thread makes for it returns.
-/
namespace Sgos.Join
open GuardedRun LinkedChain Scheduler Thread ThreadDeath

/-- `joining` is the argument of the `TmJoinThread` that a thread is in. -/
structure State where
  death : ThreadDeath.State
  joining : Ptr → Option Ptr

def setJoinSemaphore (s : ThreadDeath.State) (thr : Ptr) (sem : KSemaphore) : ThreadDeath.State :=
  { s with joinSemaphore := Function.update s.joinSemaphore thr sem }

/-- `IpcLockSemaphore( &thr->JoinSemaphore )` by `t`, up to its sleep or return. Without memory for
a node (`stored`) the thread sleeps all the same. -/
def lockJoinSemaphore (s : ThreadDeath.State) (t thr : Ptr) (stored : Bool) : ThreadDeath.State :=
  let sem := s.joinSemaphore thr
  if sem.value - 1 ≠ 0 then
    let queue := if stored then sem.waitQueue ++ [t] else sem.waitQueue
    { setJoinSemaphore s thr ⟨sem.value - 1, queue⟩ with
      sched := tmSleepThread s.sched t t INFINITE }
  else setJoinSemaphore s thr ⟨sem.value - 1, sem.waitQueue⟩

/-- The threads of `MmGetCurrentSpace()` when `t` runs. -/
def currentThreads (s : ThreadDeath.State) (t : Ptr) : List Ptr :=
  s.spaceThreads (s.threadId t >>> 16)

/-- `TmJoinThread`, called by `t`, up to its sleep. -/
def tmJoinThread (s : State) (t thr : Ptr) (stored : Bool) : State where
  death :=
    if thr ∈ currentThreads s.death t then
      if s.death.sched.stateOf thr ≠ .dead then lockJoinSemaphore s.death t thr stored
      else s.death
    else s.death
  joining := Function.update s.joining t (some thr)

/-- The system thread carries out `joinThread`. -/
inductive Event
  | join (t thr : Ptr) (stored : Bool)
  | joinThread (t : Ptr) (tid : UInt32) (stored : Bool)
  | returns (t : Ptr)
  | call (e : ThreadDeath.Event)

/-- The running thread `t` is in no other call. -/
def Free (s : State) (t : Ptr) : Prop :=
  Runnable s.death t ∧ s.death.phase t = .idle ∧ s.joining t = none

instance (s : State) (t : Ptr) : Decidable (Free s t) := inferInstanceAs (Decidable (_ ∧ _ ∧ _))

/-- Who makes a call; the clock interrupt has no caller. -/
def caller : ThreadDeath.Event → Option Ptr
  | .terminate t _ _ | .resume t _ | .suspend t _ | .sleep t _ _ | .wakeup t _ | .send t _ _
  | .reply t _ | .advance t => some t
  | .tick _ _ => none

/-- By a look at the one caller. -/
instance (s : State) (e : ThreadDeath.Event) : Decidable (∀ t ∈ caller e, s.joining t = none) :=
  Option.decidableForallMem _

def step (s : State) : Event → State
  | .join t thr stored => if Free s t then tmJoinThread s t thr stored else s
  | .joinThread t tid stored =>
      if Free s t then
        match tmGetThreadById s.death t tid with
        | some thr => tmJoinThread s t thr stored
        | none => s
      else s
  | .returns t =>
      if Runnable s.death t then { s with joining := Function.update s.joining t none } else s
  | .call e =>
      if ∀ t ∈ caller e, s.joining t = none then { s with death := ThreadDeath.step s.death e }
      else s

/-! ## The law -/

def stateOf (s : State) : Ptr → ThreadState := s.death.sched.stateOf

/-- `u` has set `TS_DEAD` on `thr` and has yet to wake the joiners. -/
def Ends (phase : Ptr → Phase) (u thr : Ptr) : Prop :=
  phase u = .marked thr ∨ phase u = .emptied thr

/-- A thread that can go on behind its join has joined a dead thread, and a thread still asleep
there after the death is about to be woken. -/
structure Good (s : State) : Prop where
  returns : ∀ t thr, s.joining t = some thr → stateOf s t = .ready → stateOf s thr = .dead
  wakes : ∀ t thr, s.joining t = some thr → stateOf s thr = .dead → stateOf s t = .sleep →
    ∃ u, stateOf s u = .ready ∧ Ends s.death.phase u thr

/-! ## Conditions -/

/-- `w` sleeps until a thread dies that still lives. -/
def Waits (s : State) (w : Ptr) : Prop :=
  stateOf s w = .sleep ∧ ∃ thr, s.joining w = some thr ∧ stateOf s thr ≠ .dead

/-- No join of `thr` and no end of `thr` is in progress. -/
def Unattended (s : State) (thr : Ptr) : Prop :=
  (∀ t, s.joining t ≠ some thr) ∧ ∀ u, ¬Ends s.death.phase u thr

/-- The join finds `thr` dead, or `thr` is in the space of `t`, `t` gets into the queue and the
count has not wrapped. -/
def JoinOk (s : State) (t thr : Ptr) (stored : Bool) : Prop :=
  stateOf s thr = .dead ∨ thr ∈ currentThreads s.death t ∧ stored = true ∧
    (s.death.joinSemaphore thr).value - 1 ≠ 0

/-- What a call by `t` asks of the thread that an id resolves to. -/
def Target (s : State) (t : Ptr) (tid : UInt32) (ok : Ptr → Prop) : Prop :=
  Runnable s.death t → s.death.phase t = .idle →
    ∀ thr, tmGetThreadById s.death t tid = some thr → ok thr

/-- The threads that `t` wakes with the next part of its call, other than the joiners of the thread
it ends. -/
def Disturbs (s : State) (t w : Ptr) : Prop :=
  match s.death.phase t with
  | .entered (.terminate thr _) =>
      thr = t ∧ (w ∈ (s.death.semaphore thr).waitQueue ∨
        w ∈ (s.death.joinSemaphore thr).waitQueue ∧ s.joining w ≠ some thr)
  | .emptied thr =>
      w ∈ (s.death.semaphore thr).waitQueue ++ (s.death.joinSemaphore thr).waitQueue
  | .entered (.send dest _) => (s.death.semaphore dest).waitQueue.head? = some w
  | .sent dest => w = dest
  | _ => False

/-- No call makes a joiner of a living thread ready or puts a joiner to sleep; no thread in the
middle of ending another is stopped; and a dead thread that is joined or ended is not given another
state. -/
def StepOk (s : State) : Event → Prop
  | .join t thr stored => Free s t → JoinOk s t thr stored
  | .joinThread t tid stored =>
      Free s t → ∀ thr, tmGetThreadById s.death t tid = some thr → JoinOk s t thr stored
  | .returns _ => True
  | .call e => (∀ t ∈ caller e, s.joining t = none) →
      match e with
      | .terminate _ _ _ | .send _ _ _ | .tick _ _ => True
      | .wakeup t tid | .reply t tid => Target s t tid fun w => ¬Waits s w
      | .resume t tid => Target s t tid fun w =>
          (∀ thr, s.joining w = some thr → stateOf s thr = .dead) ∧
            (stateOf s w = .dead → Unattended s w)
      | .suspend t tid => Target s t tid fun w =>
          (∀ thr, ¬Ends s.death.phase w thr) ∧ (stateOf s w = .dead → Unattended s w)
      | .sleep t tid _ => Target s t tid fun w => s.joining w = none ∧
          (∀ thr, ¬Ends s.death.phase w thr) ∧ (stateOf s w = .dead → Unattended s w)
      | .advance t => Runnable s.death t → (∀ w, Disturbs s t w → ¬Waits s w) ∧
          ∀ w code, s.death.phase t = .entered (.terminate w code) →
            ∀ thr, ¬Ends s.death.phase w thr

/-- No join and no call is in progress. -/
structure Fresh (s : State) : Prop where
  death : ThreadDeath.Fresh s.death
  joining : ∀ t, s.joining t = none

end Sgos.Join
