import Sgos.GuardedRun
import Sgos.Machine
import Mathlib.Logic.Function.Basic

/-!
# The processes of the process service

The classes `Process` and `Thread` of `apps/wprocess/wprocess.cpp`: a list of processes, a list of
threads for each of them, constructors that give up half-way, and the disposal that both share.
Objects live in two heaps; a member that is read before it is set, while it is null, or in an object
that was deleted has no value. What the kernel replies is given with each call. The blocks of memory
that belong to an object, and its exit code, are left out.
-/
namespace Sgos.ProcessList
open GuardedRun

structure Thread where
  next : Option Ptr
  prev : Option Ptr
  disposed : Bool
  ti : Option Ptr
  process : Option Ptr
  deriving DecidableEq, Repr

structure Process where
  spaceId : UInt32
  disposed : Bool
  pi : Option Ptr
  prev : Option Ptr
  next : Option Ptr
  parent : Option Ptr
  child : Option Ptr
  mainThread : Option Ptr
  deriving DecidableEq, Repr

structure State where
  thread : Ptr → Option Thread
  process : Ptr → Option Process
  firstProcess : Option Ptr

namespace State

def putThread (s : State) (t : Ptr) (v : Option Thread) : State :=
  { s with thread := Function.update s.thread t v }

def putProcess (s : State) (p : Ptr) (v : Option Process) : State :=
  { s with process := Function.update s.process p v }

/-- Write to a member of a thread. -/
def setThread (s : State) (t : Ptr) (f : Thread → Thread) : Option State :=
  (s.thread t).map fun th => s.putThread t (some (f th))

/-- Write to a member of a process. -/
def setProcess (s : State) (p : Ptr) (f : Process → Process) : Option State :=
  (s.process p).map fun ps => s.putProcess p (some (f ps))

end State

/-! ## The search -/

/-- `EnumProcessTree`. -/
def enumProcessTree (s : State) (id : UInt32) : ℕ → Option Ptr → Option Ptr
  | _, none => none
  | 0, some _ => none
  | fuel + 1, some t =>
      match s.process t with
      | none => none
      | some ps =>
          if ps.spaceId = id then some t
          else
            match ps.child.bind fun c => enumProcessTree s id fuel (some c) with
            | some ret => some ret
            | none => enumProcessTree s id fuel ps.next

def getProcessById (s : State) (id : UInt32) : Option Ptr :=
  enumProcessTree s id addressSpace s.firstProcess

/-! ## Disposal -/

/-- The thread before `th`, or its process, leads past it. -/
def bypassThread (s : State) (th : Thread) : Option State :=
  match th.prev with
  | some p => s.setThread p fun v => { v with next := th.next }
  | none => th.process.bind fun ps => s.setProcess ps fun v => { v with mainThread := th.next }

/-- Take a thread out of the list of its process. -/
def unlinkThread (s : State) (t : Ptr) : Option State := do
  let th ← s.thread t
  let s ← bypassThread s th
  match th.next with
  | some n => s.setThread n fun v => { v with prev := th.prev }
  | none => some s

/-- `Thread::Dispose` reads `ti->Self` whatever `ti` is. -/
def threadDispose (s : State) (t : Ptr) : Option State := do
  let th ← s.thread t
  if th.disposed then some s
  else
    let s := s.putThread t (some { th with disposed := true })
    let _ ← th.ti
    unlinkThread s t

/-- `delete` of a thread. -/
def deleteThread (s : State) (t : Ptr) : Option State :=
  (threadDispose s t).map fun s => s.putThread t none

/-- The loop of `Process::Dispose`. -/
def deleteThreads : ℕ → State → Option Ptr → Option State
  | _, s, none => some s
  | 0, _, some _ => none
  | fuel + 1, s, some d => do
      let th ← s.thread d
      let s ← deleteThread s d
      deleteThreads fuel s th.next

/-- The process before `ps` leads past it. -/
def bypassProcess (s : State) (ps : Process) : Option State :=
  match ps.prev with
  | some q => s.setProcess q fun v => { v with next := ps.next }
  | none => some s

/-- Take a process out of the list. The `prev` of the process behind the first is left alone. -/
def unlinkProcess (s : State) (p : Ptr) : Option State := do
  let ps ← s.process p
  if s.firstProcess = some p then some { s with firstProcess := ps.next }
  else if ps.parent ≠ none ∨ ps.prev ≠ none then
    let s ← bypassProcess s ps
    match ps.next with
    | some n => s.setProcess n fun v => { v with prev := ps.prev }
    | none => some s
  else some s

/-- `KillProcessChildren`, from the child `t` on. -/
def killProcessChildren (dispose : State → Ptr → Option State) : ℕ → State → Option Ptr →
    Option State
  | _, s, none => some s
  | 0, _, some _ => none
  | fuel + 1, s, some t => do
      let ps ← s.process t
      let s ← killProcessChildren dispose fuel s ps.child
      let s ← s.setProcess t fun v => { v with child := none }
      let s ← dispose s t
      let ps ← s.process t
      killProcessChildren dispose fuel s ps.next

/-- `Process::Dispose`. -/
def processDispose : ℕ → State → Ptr → Option State
  | 0, _, _ => none
  | fuel + 1, s, p => do
      let ps ← s.process p
      if ps.disposed then some s
      else
        let s := s.putProcess p (some { ps with disposed := true })
        let s ← deleteThreads addressSpace s ps.mainThread
        let s ← s.setProcess p fun v => { v with spaceId := 0 }
        let s ← unlinkProcess s p
        let ps ← s.process p
        killProcessChildren (processDispose fuel) addressSpace s ps.child

def dispose (s : State) (p : Ptr) : Option State := processDispose addressSpace s p

/-- `delete` of a process. -/
def deleteProcess (s : State) (p : Ptr) : Option State :=
  (dispose s p).map fun s => s.putProcess p none

/-! ## Construction -/

/-- The replies to the three calls of `MapAddress`. -/
structure MapReplies where
  addr : Option Ptr
  query : Int32
  map : Int32
  deriving DecidableEq, Repr

/-- The address, or the code of the failure. -/
def mapAddress (r : MapReplies) : Except Int32 Ptr :=
  match r.addr with
  | none => .error (-11)
  | some addr => if r.query < 0 then .error (-22) else if r.map < 0 then .error (-33) else .ok addr

structure ThreadReplies where
  remoteAddr : Option Ptr
  ti : MapReplies
  tid : Int32
  deriving DecidableEq, Repr

/-- All calls of the constructor succeed. -/
def ThreadReplies.ok (r : ThreadReplies) : Bool :=
  r.remoteAddr.isSome && (mapAddress r.ti).isOk && decide (0 ≤ r.tid)

/-- The last object from `p` on, along a member `next`. -/
def lastOf (next : Ptr → Option (Option Ptr)) : ℕ → Ptr → Option Ptr
  | 0, _ => none
  | fuel + 1, p =>
      match next p with
      | none => none
      | some none => some p
      | some (some n) => lastOf next fuel n

def lastThread (s : State) (t : Ptr) : Option Ptr :=
  lastOf (fun t => (s.thread t).map (·.next)) addressSpace t

/-- Put a thread behind the threads of a process. -/
def linkThread (s : State) (ps t : Ptr) : Option State := do
  let s ← s.setThread t fun v => { v with process := some ps }
  let pr ← s.process ps
  match pr.mainThread with
  | some main => do
      let last ← lastThread s main
      let s ← s.setThread last fun v => { v with next := some t }
      s.setThread t fun v => { v with next := none, prev := some last }
  | none => do
      let s ← s.setThread t fun v => { v with prev := none, next := none }
      s.setProcess ps fun v => { v with mainThread := some t }

/-- The constructor of `Thread`, in the block `t`. The members `threadId` and `process` are not set
before the last call succeeds. -/
def newThread (s : State) (t ps : Ptr) (r : ThreadReplies) : Option State := do
  let pr ← s.process ps
  let s := s.putThread t (some ⟨none, none, false, none, none⟩)
  if r.remoteAddr = none then threadDispose s t
  else
    match mapAddress r.ti with
    | .error _ => threadDispose s t
    | .ok ti => do
        let s ← s.setThread t fun v => { v with ti := some ti }
        let _ ← pr.pi
        if r.tid < 0 then threadDispose s t else linkThread s ps t

structure ProcessReplies where
  sid : UInt32
  load : Int32
  module : Option Ptr
  remotePi : Option Ptr
  pi : MapReplies
  commandLine : MapReplies
  environment : MapReplies
  thread : ThreadReplies
  deriving DecidableEq, Repr

/-- What `Initialize` has got before it creates the main thread. -/
structure Setup where
  result : Bool
  pi : Option Ptr

/-- The calls up to the main thread. The test of the space id is one of an unsigned number. -/
def setup (r : ProcessReplies) (env : Bool) : Setup :=
  if r.load < 0 ∨ r.module = none ∨ r.remotePi = none then ⟨false, none⟩
  else
    match mapAddress r.pi with
    | .error _ => ⟨false, none⟩
    | .ok pi =>
        match mapAddress r.commandLine with
        | .error _ => ⟨false, some pi⟩
        | .ok _ =>
            if env then
              match mapAddress r.environment with
              | .error _ => ⟨false, some pi⟩
              | .ok _ => ⟨true, some pi⟩
            else ⟨true, some pi⟩

def lastProcess (s : State) (p : Ptr) : Option Ptr :=
  lastOf (fun p => (s.process p).map (·.next)) addressSpace p

/-- Put a process behind the last one. -/
def linkProcess (s : State) (pid : UInt32) (this : Ptr) : Option State := do
  let p := (if pid ≠ 0 then getProcessById s pid else none).or s.firstProcess
  match p with
  | none => do
      let s := { s with firstProcess := some this }
      s.setProcess this fun v => { v with prev := none, next := none, child := none, parent := none }
  | some p => do
      let last ← lastProcess s p
      let s ← s.setProcess last fun v => { v with next := some this }
      let ps ← s.process last
      s.setProcess this fun v => { v with prev := some last, child := none, parent := ps.parent }

/-- `Process::Initialize`, with the main thread in the block `t`: whether it succeeds, and the
state. -/
def processInitialize (s : State) (this t : Ptr) (pid : UInt32) (env : Bool) (r : ProcessReplies) :
    Option (Bool × State) := do
  let s ← s.setProcess this fun v => { v with spaceId := r.sid, pi := (setup r env).pi }
  if (setup r env).result then do
    let s ← newThread s t this r.thread
    let ps ← s.process this
    if ps.mainThread = none then (dispose s this).map fun s => (false, s)
    else (linkProcess s pid this).map fun s => (true, s)
  else (dispose s this).map fun s => (false, s)

/-- The constructor of `Process`, in the block `this`. -/
def newProcess (s : State) (this t : Ptr) (pid : UInt32) (env : Bool) (r : ProcessReplies) :
    Option (Bool × State) := do
  let s := s.putProcess this (some ⟨0, false, none, none, none, none, none, none⟩)
  let (ok, s) ← processInitialize s this t pid env r
  if ok then some (true, s) else (dispose s this).map fun s => (false, s)

/-! ## Calls as events

The new objects are in blocks that are not in use. Threads are created for processes that are found
by their id. -/

inductive Event
  | createProcess (this t : Ptr) (pid : UInt32) (env : Bool) (r : ProcessReplies)
  | createThread (t ps : Ptr) (r : ThreadReplies)
  | terminateThread (t : Ptr)
  | deleteThread (t : Ptr)
  | terminateProcess (p : Ptr)
  | deleteProcess (p : Ptr)
  deriving DecidableEq, Repr

/-- The objects; the processes that were initialised and not disposed of since, with their ids; and
the threads of each process that were constructed and not disposed of since. Without a value, a call
has read a member that has none. -/
structure System where
  state : Option State
  initialised : List (Ptr × UInt32)
  constructed : Ptr → List Ptr

/-- A thread leaves the threads of all processes. -/
def forget (constructed : Ptr → List Ptr) (t : Ptr) (p : Ptr) : List Ptr :=
  (constructed p).filter (· ≠ t)

def step (s : System) (e : Event) : System :=
  match s.state with
  | none => s
  | some st =>
      match e with
      | .createProcess this t pid env r =>
          match newProcess st this t pid env r with
          | none => { s with state := none }
          | some (true, st) =>
              ⟨some st, s.initialised ++ [(this, r.sid)], Function.update s.constructed this [t]⟩
          | some (false, st) => { s with state := some st }
      | .createThread t ps r =>
          ⟨newThread st t ps r, s.initialised,
            if r.ok then Function.update s.constructed ps (s.constructed ps ++ [t])
            else s.constructed⟩
      | .terminateThread t => ⟨threadDispose st t, s.initialised, forget s.constructed t⟩
      | .deleteThread t => ⟨ProcessList.deleteThread st t, s.initialised, forget s.constructed t⟩
      | .terminateProcess p =>
          ⟨dispose st p, s.initialised.filter (·.1 ≠ p), Function.update s.constructed p []⟩
      | .deleteProcess p =>
          ⟨ProcessList.deleteProcess st p, s.initialised.filter (·.1 ≠ p),
            Function.update s.constructed p []⟩

/-- What a call is given. -/
def Given (st : State) (initialised : List (Ptr × UInt32)) : Event → Prop
  | .createProcess this t _ _ _ => st.process this = none ∧ st.thread t = none
  | .createThread t ps _ => ps ∈ initialised.map Prod.fst ∧ st.thread t = none
  | .terminateThread t | .deleteThread t => st.thread t ≠ none
  | .terminateProcess p | .deleteProcess p => st.process p ≠ none

instance (st : State) (initialised : List (Ptr × UInt32)) :
    ∀ e : Event, Decidable (Given st initialised e)
  | .createProcess _ _ _ _ _ | .createThread _ _ _ => inferInstanceAs (Decidable (_ ∧ _))
  | .terminateThread _ | .deleteThread _ => inferInstanceAs (Decidable (_ ≠ none))
  | .terminateProcess _ | .deleteProcess _ => inferInstanceAs (Decidable (_ ≠ none))

def Proper (s : System) (e : Event) : Prop := ∀ st, s.state = some st → Given st s.initialised e

instance (s : System) (e : Event) : Decidable (Proper s e) :=
  match h : s.state with
  | none => .isTrue fun _ hst => absurd (h.symm.trans hst) (by simp)
  | some st => decidable_of_iff (Given st s.initialised e)
      ⟨fun hg _ hst => Option.some.inj (h.symm.trans hst) ▸ hg, fun hp => hp st h⟩

end Sgos.ProcessList
