import Sgos.GuardedRun
import Sgos.Machine
import Mathlib.Logic.Function.Basic

/-!
# System calls

The listings `_SystemCallService` (`kernel/arch/i386/irq/interrupt.S`), `_ArAsmSysenterHandler`
(`kernel/arch/i386/cpu/sysenter.S`) and `do_irq`, instruction by instruction, for any number of
user threads. Each gate parks the result of its calls in a static variable `ret_val` of its own.
A handler is one step: where it is interrupted or sleeps is not told apart from a preemption before
its call.
-/
namespace Sgos.SystemCall
open GuardedRun

def EFLAG_IF : UInt32 := 0x200

def GD_KERNEL_CODE : UInt32 := 0x08
def GD_KERNEL_DATA : UInt32 := 0x10
def GD_USER_CODE : UInt32 := 0x1b
def GD_USER_DATA : UInt32 := 0x23

/-- The entries of `SystemCallTable`. -/
def SYSTEM_CALLS : UInt32 := 5

inductive Reg
  | eax | ecx | edx | ebx | ebp | esi | edi | ds | es | fs | gs
  deriving DecidableEq, Repr

/-- In the kernel, `stack` is the kernel stack of the thread from the stack pointer to its base. -/
inductive Mode
  | user (esp ss : UInt32)
  | kernel (stack : List UInt32)
  deriving DecidableEq, Repr

structure Cpu where
  reg : Reg → UInt32
  eip : UInt32
  eflags : UInt32
  mode : Mode

/-! ## Instructions -/

/-- The instructions of the listings between an entry and the instruction that leaves. -/
inductive Instr
  | sti
  | pushImm (v : UInt32)
  | push (r : Reg)
  | pusha
  | mov (src dst : Reg)
  | movAx (v : UInt32)
  | movSeg (r : Reg)
  | call (args : ℕ)
  | addEsp (bytes : ℕ)
  | storeRet
  | loadRet
  | pop (r : Reg)
  | popa
  deriving DecidableEq, Repr

/-- What these instructions work on. -/
structure Core where
  reg : Reg → UInt32
  eflags : UInt32
  stack : List UInt32
  retVal : UInt32

/-- What a handler leaves: its result, the other registers that it may use, and the words of its
arguments. -/
structure Handler where
  result : UInt32
  ecx : UInt32
  edx : UInt32
  args : ℕ → UInt32

namespace Core

def set (c : Core) (r : Reg) (v : UInt32) : Core := { c with reg := Function.update c.reg r v }

def push (c : Core) (v : UInt32) : Core := { c with stack := v :: c.stack }

/-- The stack pointer, in a stack that ends at `base`. -/
def esp (c : Core) (base : UInt32) : UInt32 := base - 4 * UInt32.ofNat c.stack.length

end Core

/-- One instruction. There is no step when the stack has too few words, or when the number of the
call is not in `SystemCallTable`. -/
def exec (base : UInt32) (h : Handler) (c : Core) : Instr → Option Core
  | .sti => some { c with eflags := c.eflags ||| EFLAG_IF }
  | .pushImm v => some (c.push v)
  | .push r => some (c.push (c.reg r))
  | .pusha => some { c with
      stack := [c.reg .edi, c.reg .esi, c.reg .ebp, c.esp base, c.reg .ebx, c.reg .edx, c.reg .ecx,
        c.reg .eax] ++ c.stack }
  | .mov src dst => some (c.set dst (c.reg src))
  | .movAx v => some (c.set .eax ((c.reg .eax &&& 0xFFFF0000) ||| v))
  | .movSeg r => some (c.set r (c.reg .eax &&& 0xFFFF))
  | .call n =>
      if c.reg .eax < SYSTEM_CALLS then
        some { (((c.set .eax h.result).set .ecx h.ecx).set .edx h.edx) with
          stack := (List.range n).map h.args ++ c.stack.drop n }
      else none
  | .addEsp bytes => some { c with stack := c.stack.drop (bytes / 4) }
  | .storeRet => some { c with retVal := c.reg .eax }
  | .loadRet => some (c.set .eax c.retVal)
  | .pop r =>
      match c.stack with
      | v :: rest => some { (c.set r v) with stack := rest }
      | [] => none
  | .popa =>
      match c.stack with
      | edi :: esi :: ebp :: _ :: ebx :: edx :: ecx :: eax :: rest =>
          some { c with
            reg := fun
              | .edi => edi | .esi => esi | .ebp => ebp | .ebx => ebx
              | .edx => edx | .ecx => ecx | .eax => eax
              | r => c.reg r
            stack := rest }
      | _ => none

def execAll (base : UInt32) (h : Handler) (c : Core) (is : List Instr) : Option Core :=
  is.foldlM (exec base h) c

/-- An interrupt through an interrupt gate: what the processor pushes on the kernel stack, up to
the new `eip`. No listing reached this way reads the `retVal` set here. -/
def interruptEntry (c : Cpu) : Core where
  reg := c.reg
  eflags := c.eflags &&& ~~~EFLAG_IF
  stack :=
    match c.mode with
    | .user esp ss => [c.eip, GD_USER_CODE, c.eflags, esp, ss]
    | .kernel stack => c.eip :: GD_KERNEL_CODE :: c.eflags :: stack
  retVal := 0

def iret (c : Core) : Option Cpu :=
  match c.stack with
  | eip :: cs :: eflags :: rest =>
      if cs = GD_KERNEL_CODE then some ⟨c.reg, eip, eflags, .kernel rest⟩
      else
        match rest with
        | esp :: ss :: _ => some ⟨c.reg, eip, eflags, .user esp ss⟩
        | _ => none
  | _ => none

def sysexit (c : Core) : Option Cpu :=
  some ⟨c.reg, c.reg .edx, c.eflags, .user (c.reg .ecx) GD_USER_DATA⟩

/-! ## The two gates -/

inductive Gate
  | systemCallService
  | sysenterHandler
  deriving DecidableEq, Repr

/-- The listing of a gate up to its last instruction. -/
def code : Gate → List Instr
  | .systemCallService =>
      [.sti, .pushImm 0, .pushImm 0xA1, .pusha, .push .ds, .push .es, .push .fs, .push .gs,
        .push .eax, .movAx 0x10, .movSeg .ds, .movSeg .es, .pop .eax,
        .push .edi, .push .edx, .push .ecx, .push .ebx, .call 4, .addEsp 16, .storeRet,
        .pop .gs, .pop .fs, .pop .es, .pop .ds, .popa, .addEsp 8, .loadRet]
  | .sysenterHandler =>
      [.pusha, .push .ds, .push .es, .push .eax, .movAx 0x10, .movSeg .ds, .movSeg .es, .pop .eax,
        .push .edx, .push .ecx, .push .ebx, .sti, .call 3, .addEsp 12, .storeRet,
        .pop .es, .pop .ds, .popa, .loadRet, .mov .ebp .ecx, .mov .esi .edx]

/-- The last instruction of a gate. -/
def leave : Gate → Core → Option Cpu
  | .systemCallService => iret
  | .sysenterHandler => sysexit

/-- Where the listing is in memory. Every instruction counts for one address. -/
def entry : Gate → ℕ
  | .systemCallService => 0xC0100000
  | .sysenterHandler => 0xC0101000

def InCode (g : Gate) (eip : UInt32) : Prop :=
  entry g ≤ eip.toNat ∧ eip.toNat ≤ entry g + (code g).length

instance (g : Gate) (eip : UInt32) : Decidable (InCode g eip) :=
  inferInstanceAs (Decidable (_ ∧ _))

/-- The instruction at an address: its gate and its number there. -/
def locate (eip : UInt32) : Option (Gate × ℕ) :=
  if InCode .systemCallService eip then
    some (.systemCallService, eip.toNat - entry .systemCallService)
  else if InCode .sysenterHandler eip then
    some (.sysenterHandler, eip.toNat - entry .sysenterHandler)
  else none

/-! ## Threads -/

/-- What a thread finds in `eax` on the return from a call, beside the result of the handler. -/
structure Return where
  thr : Ptr
  result : UInt32
  eax : UInt32
  deriving DecidableEq, Repr

/-- `esp0` is the base of the kernel stack of a thread, and `stackPointer` the words of its kernel
stack from where `StackPointer` points to that base. `result` and `returns` only record. -/
structure State where
  cpu : Cpu
  running : Ptr
  threads : List Ptr
  esp0 : Ptr → UInt32
  stackPointer : Ptr → List UInt32
  retVal : Gate → UInt32
  result : Ptr → UInt32
  returns : List Return

/-- Any instruction in user mode other than the two calls. It cannot change the interrupt flag. -/
structure UserStep where
  reg : Reg → UInt32
  eip : UInt32
  eflags : UInt32
  esp : UInt32
  ss : UInt32

def userStep (s : State) (u : UserStep) : State :=
  match s.cpu.mode with
  | .kernel _ => s
  | .user _ _ =>
      { s with cpu := ⟨u.reg, u.eip, (u.eflags &&& ~~~EFLAG_IF) ||| (s.cpu.eflags &&& EFLAG_IF),
        .user u.esp u.ss⟩ }

/-- `int $0xA1` and `sysenter`. -/
def enter (g : Gate) (c : Cpu) : Cpu :=
  let k := interruptEntry { c with eip := c.eip + 2 }
  match g with
  | .systemCallService => ⟨k.reg, UInt32.ofNat (entry g), k.eflags, .kernel k.stack⟩
  | .sysenterHandler => ⟨k.reg, UInt32.ofNat (entry g), k.eflags, .kernel []⟩

def systemCall (s : State) (g : Gate) : State :=
  match s.cpu.mode with
  | .kernel _ => s
  | .user _ _ => { s with cpu := enter g s.cpu }

/-- The result of the handler of a thread after an instruction. -/
def resultAfter (h : Handler) (result : UInt32) : Instr → UInt32
  | .call _ => h.result
  | _ => result

/-- An instruction in a gate. -/
def execGate (s : State) (h : Handler) (g : Gate) (stack : List UInt32) (i : Instr) : State :=
  match exec (s.esp0 s.running) h ⟨s.cpu.reg, s.cpu.eflags, stack, s.retVal g⟩ i with
  | none => s
  | some k =>
      { s with
        cpu := ⟨k.reg, s.cpu.eip + 1, k.eflags, .kernel k.stack⟩
        retVal := Function.update s.retVal g k.retVal
        result := Function.update s.result s.running (resultAfter h (s.result s.running) i) }

def leaveGate (s : State) (g : Gate) (stack : List UInt32) : State :=
  match leave g ⟨s.cpu.reg, s.cpu.eflags, stack, s.retVal g⟩ with
  | none => s
  | some c =>
      { s with
        cpu := c
        returns := s.returns ++ [⟨s.running, s.result s.running, c.reg .eax⟩] }

/-- The next instruction of the running thread in the kernel. -/
def kernelStep (s : State) (h : Handler) : State :=
  match s.cpu.mode, locate s.cpu.eip with
  | .kernel stack, some (g, i) =>
      match (code g)[i]? with
      | some ins => execGate s h g stack ins
      | none => leaveGate s g stack
  | _, _ => s

/-! ## Hardware interrupts -/

/-- From the stub of the interrupt to the call of `ArHandleIrq`. -/
def irqSave (irq : UInt32) : List Instr :=
  [.pushImm 0, .pushImm (32 + irq), .pusha, .push .ds, .push .es, .push .fs, .push .gs,
    .movAx 0x10, .movSeg .ds, .movSeg .es]

/-- From `.restore` to the `iret`. -/
def irqRestore : List Instr := [.pop .gs, .pop .fs, .pop .es, .pop .ds, .popa, .addEsp 8]

instance : Inhabited Handler := ⟨⟨0, 0, 0, fun _ => 0⟩⟩

def restore (c : Core) : Option Cpu := (execAll 0 default c irqRestore).bind iret

/-- `do_irq` with interrupts off; `next` is `ThreadingBox.next` after `ArHandleIrq`. -/
def doIrq (s : State) (irq : UInt32) (next : Option Ptr) : State :=
  match execAll (s.esp0 s.running) default (interruptEntry s.cpu) (irqSave irq) with
  | none => s
  | some k =>
      match next with
      | none =>
          match restore k with
          | none => s
          | some cpu => { s with cpu }
      | some thr =>
          let stackPointer := Function.update s.stackPointer s.running k.stack
          match restore { k with stack := stackPointer thr } with
          | none => s
          | some cpu => { s with cpu, stackPointer, running := thr }

/-- `exec` is the next instruction in the kernel, with what the handler leaves when it is the call.
-/
inductive Event
  | user (u : UserStep)
  | call (g : Gate)
  | exec (h : Handler)
  | irq (irq : UInt32) (next : Option Ptr)

def step (s : State) : Event → State
  | .user u => userStep s u
  | .call g => systemCall s g
  | .exec h => kernelStep s h
  | .irq irq next =>
      if s.cpu.eflags &&& EFLAG_IF ≠ 0 ∧ next.all (· ∈ s.threads) then doIrq s irq next else s

end Sgos.SystemCall
