import Sgos.Machine
import Mathlib.Logic.Function.Basic

/-!
# The mathematical coprocessor

Lazy switching of the coprocessor: `kernel/arch/i386/math/fpu.c`, the two switch paths of
`kernel/arch/i386/cpu/threading.c` and `kernel/arch/i386/irq/irq.c`, and the part of the
termination of a thread in `kernel/tm/thread.c` that gives its save area back. `φ` is the type of
the contents of the coprocessor registers.
-/
namespace Sgos.Fpu

/-- The registers after `fninit`, and what a zeroed save area holds. -/
structure Coprocessor (φ : Type*) where
  initial : φ
  zero : φ

/-- What the coprocessor routines read of a thread. `handling` is set while the thread is in
`fpu_handler` with interrupts on; it holds the flag the handler has read. -/
structure KThread where
  fsave : Option Ptr
  usedFpu : Bool
  usedMathProcessor : Bool
  dead : Bool
  handling : Option Bool
  deriving DecidableEq, Repr

/-- `area` is the heap read as save areas, `live` are the areas in use. -/
structure State (φ : Type*) where
  thread : Ptr → KThread
  threads : List Ptr
  running : Ptr
  next : Option Ptr
  area : Ptr → φ
  live : List Ptr
  regs : φ
  ts : Bool

/-- `nullArea` is a save or a restore with a null `fsave`; `seen` are the registers an instruction
of the coprocessor finds. -/
inductive Result (φ : Type*)
  | done
  | seen (regs : φ)
  | nullArea
  deriving DecidableEq, Repr

variable {φ : Type*} (fpu : Coprocessor φ)

def State.modify (s : State φ) (thr : Ptr) (f : KThread → KThread) : State φ :=
  { s with thread := Function.update s.thread thr (f (s.thread thr)) }

/-- The allocation of `block` is assumed to succeed. -/
def arPrepareFpuForThread (s : State φ) (thr block : Ptr) : State φ :=
  match (s.thread thr).fsave with
  | some _ => s
  | none =>
      let s := s.modify thr ({ · with fsave := some block })
      { s with live := block :: s.live, area := Function.update s.area block fpu.zero }

/-- `fnsave` also initialises the registers. -/
def fpuSave (s : State φ) (thr : Ptr) : Result φ × State φ :=
  match (s.thread thr).fsave with
  | some area => (.done, { s with area := Function.update s.area area s.regs, regs := fpu.initial })
  | none => (.nullArea, { s with regs := fpu.initial })

def fpuRestore (s : State φ) (thr : Ptr) : Result φ × State φ :=
  match (s.thread thr).fsave with
  | some area => (.done, { s with regs := s.area area })
  | none => (.nullArea, s)

def arCheckAndSaveFpu (s : State φ) (thr : Ptr) : Result φ × State φ :=
  if (s.thread thr).usedFpu then
    let r := fpuSave fpu s thr
    let s := r.2.modify thr ({ · with usedFpu := false })
    (r.1, { s with ts := true })
  else (.done, s)

/-- The first part of `fpu_handler`, in which interrupts may come. -/
def fpuTrap (s : State φ) (block : Ptr) : State φ :=
  let thr := s.running
  let used := (s.thread thr).usedMathProcessor
  let s := if used then s else arPrepareFpuForThread fpu s thr block
  s.modify thr ({ · with handling := some used })

/-- The rest of `fpu_handler`, with interrupts off. -/
def fpuHandler (s : State φ) : Result φ × State φ :=
  let thr := s.running
  match (s.thread thr).handling with
  | none => (.done, s)
  | some true =>
      let r := fpuRestore { s with ts := false } thr
      (r.1, r.2.modify thr ({ · with usedFpu := true, handling := none }))
  | some false =>
      let s := s.modify thr ({ · with usedFpu := true, usedMathProcessor := true, handling := none })
      (.done, { s with ts := false, regs := fpu.initial })

/-- The part that concerns the coprocessor. -/
def arPrepareForNextThread (s : State φ) : Result φ × State φ :=
  match s.next with
  | none => (.done, s)
  | some _ => arCheckAndSaveFpu fpu s s.running

/-- `TmSchedule` has named the next thread and calls this outside of interrupts. -/
def arSwitchThread (s : State φ) (next : Ptr) : Result φ × State φ :=
  let r := arPrepareForNextThread fpu { s with next := some next }
  (r.1, { r.2 with running := next, next := none })

/-- The end of an interrupt, `next` being what `TmSchedule` has recorded in it. -/
def arHandleIrq (s : State φ) (next : Option Ptr) : Result φ × State φ :=
  let s := { s with next := next }
  match s.next with
  | none => (.done, s)
  | some thr =>
      let r := arPrepareForNextThread fpu s
      (r.1, { r.2 with running := thr, next := none })

def arReleaseThreadResources (s : State φ) (thr : Ptr) : State φ :=
  match (s.thread thr).fsave with
  | none => s
  | some area =>
      let s := { s with live := s.live.erase area }
      s.modify thr ({ · with fsave := none, usedMathProcessor := false })

/-- The thread is dead before its resources go. -/
def tmTerminateThread (s : State φ) (thr : Ptr) : State φ :=
  arReleaseThreadResources (s.modify thr ({ · with dead := true })) thr

/-- The descriptor is zeroed. -/
def tmCreateThread (s : State φ) (thr : Ptr) : State φ :=
  let s := { s with threads := thr :: s.threads }
  s.modify thr fun _ => ⟨none, false, false, false, none⟩

end Sgos.Fpu
