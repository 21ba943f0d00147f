import Sgos.Machine
import Mathlib.Logic.Function.Basic

/-!
# Virtual-8086 mode

`gpf_handler` of `kernel/arch/i386/cpu/vm86.c` carries out the instructions that a VM86 thread may
not execute itself. It steps over prefixes, and for each instruction it moves a linear stack pointer
and the 16-bit `esp` separately. What it prints is left out.
-/
namespace Sgos.Vm86

def EFLAG_VM : UInt32 := 0x23000
def EFLAG_IF : UInt32 := 0x200
def EFLAG_IOPL3 : UInt32 := 0x3000
def VALID_FLAGS : UInt32 := 0xDFF

/-- The registers that the handler uses, the VM86 part of `ArchThread`, and the memory. -/
structure State where
  eax : UInt32
  eip : UInt32
  cs : UInt32
  eflags : UInt32
  esp : UInt32
  ss : UInt32
  inVm86 : Bool
  vmflagIf : Bool
  mem : UInt32 → UInt8

/-- The cast to `t_16`, as a 32-bit value again. -/
def word (x : UInt32) : UInt32 := x.toUInt16.toUInt32

/-- `FARPTR_TO_LINEAR`. -/
def farptrToLinear (seg off : UInt32) : UInt32 := (word seg <<< 4) + word off

def read16 (mem : UInt32 → UInt8) (a : UInt32) : UInt16 :=
  UInt16.ofNat ((mem a).toNat + 256 * (mem (a + 1)).toNat)

def write16 (mem : UInt32 → UInt8) (a : UInt32) (v : UInt16) : UInt32 → UInt8 :=
  Function.update (Function.update mem a (UInt8.ofNat v.toNat)) (a + 1)
    (UInt8.ofNat (v.toNat / 256))

/-- The IF of a word of flags is set to the virtual one. -/
def setIf (vmflagIf : Bool) (flags : UInt16) : UInt16 :=
  if vmflagIf then flags ||| EFLAG_IF.toUInt16 else flags &&& ~~~EFLAG_IF.toUInt16

/-- The write of a word of flags, of which the IF is corrected in place. -/
def writeFlags (mem : UInt32 → UInt8) (a : UInt32) (vmflagIf : Bool) (flags : UInt16) :
    UInt32 → UInt8 :=
  let mem := write16 mem a flags
  write16 mem a (setIf vmflagIf (read16 mem a))

/-- `r->eip = (t_16) (r->eip + 1)`. -/
def State.advance (s : State) : State := { s with eip := word (s.eip + 1) }

/-- An interrupt. The number is read again, and the vector, after the stack has been written. -/
def emulateInt (s : State) (ip stack : UInt32) : State :=
  let stack := stack - 6
  let mem := write16 s.mem stack (s.eip + 2).toUInt16
  let mem := write16 mem (stack + 2) s.cs.toUInt16
  let mem := writeFlags mem (stack + 4) s.vmflagIf s.eflags.toUInt16
  { s with
    mem := mem
    esp := ((s.esp &&& 0xffff) - 6) &&& 0xffff
    cs := (read16 mem ((mem (ip + 1)).toUInt32 * 4 + 2)).toUInt32
    eip := (read16 mem ((mem (ip + 1)).toUInt32 * 4)).toUInt32 }

/-- With a 32-bit operand `esp` moves by 4, but the pointer to the stack, a `t_16 *`, by 2. -/
def emulatePushf (s : State) (stack : UInt32) (isData32 : Bool) : State :=
  if isData32 then
    { s with
      esp := ((s.esp &&& 0xffff) - 4) &&& 0xffff
      mem := writeFlags s.mem (stack - 2) s.vmflagIf (s.eflags &&& VALID_FLAGS).toUInt16
      eip := word (s.eip + 1) }
  else
    { s with
      esp := ((s.esp &&& 0xffff) - 2) &&& 0xffff
      mem := writeFlags s.mem (stack - 2) s.vmflagIf s.eflags.toUInt16
      eip := word (s.eip + 1) }

def emulatePopf (s : State) (stack : UInt32) (isData32 : Bool) : State :=
  let flags := (read16 s.mem stack).toUInt32
  if isData32 then
    { s with
      eflags := (flags &&& VALID_FLAGS) ||| EFLAG_VM ||| EFLAG_IF
      esp := ((s.esp &&& 0xffff) + 4) &&& 0xffff
      vmflagIf := flags &&& EFLAG_IF != 0
      eip := word (s.eip + 1) }
  else
    { s with
      eflags := flags ||| EFLAG_VM ||| EFLAG_IF
      esp := ((s.esp &&& 0xffff) + 2) &&& 0xffff
      vmflagIf := flags &&& EFLAG_IF != 0
      eip := word (s.eip + 1) }

/-- With a 32-bit operand three words are read as well, but `esp` moves by 12. -/
def emulateIret (s : State) (stack : UInt32) (isData32 : Bool) : State :=
  let flags := (read16 s.mem (stack + 4)).toUInt32
  { s with
    eip := (read16 s.mem stack).toUInt32
    cs := (read16 s.mem (stack + 2)).toUInt32
    eflags := EFLAG_VM ||| EFLAG_IF ||| flags
    vmflagIf := flags &&& EFLAG_IF != 0
    esp := ((s.esp &&& 0xffff) + if isData32 then 12 else 6) &&& 0xffff }

/-- What the handler asks for beside the registers. -/
inductive Call
  | terminateThread (exitCode : UInt32)
  | sleepThread (time : UInt32)
  deriving DecidableEq

/-- A result of 0 is an exception that has not been handled. -/
structure Outcome where
  ret : Int32
  call : Option Call
  state : State

/-- The `switch` for an instruction at `ip` that is not a prefix. -/
def dispatch (s : State) (ip stack : UInt32) (isData32 : Bool) : Outcome :=
  if s.mem ip = 0xCD then
    if s.mem (ip + 1) = 0xFB ∨ s.mem (ip + 1) = 0x03 then ⟨0, some (.terminateThread s.eax), s⟩
    else if s.mem (ip + 1) = 0xFC then ⟨1, some (.sleepThread s.eax), s.advance⟩
    else ⟨1, none, emulateInt s ip stack⟩
  else if s.mem ip = 0x9C then ⟨1, none, emulatePushf s stack isData32⟩
  else if s.mem ip = 0x9D then ⟨1, none, emulatePopf s stack isData32⟩
  else if s.mem ip = 0xCF then ⟨1, none, emulateIret s stack isData32⟩
  else if s.mem ip = 0xFA then ⟨1, none, { s.advance with vmflagIf := false }⟩
  else if s.mem ip = 0xFB then ⟨1, none, { s.advance with vmflagIf := true }⟩
  else ⟨0, none, s⟩

/-- The loop over the prefixes. It does not end if there are nothing but prefixes. -/
def gpfLoop (stack : UInt32) : ℕ → UInt32 → Bool → State → Option Outcome
  | 0, _, _, _ => none
  | fuel + 1, ip, isData32, s =>
      if s.mem ip = 0x66 then gpfLoop stack fuel (ip + 1) true s.advance
      else if s.mem ip = 0x67 then gpfLoop stack fuel (ip + 1) isData32 s.advance
      else some (dispatch s ip stack isData32)

def gpfHandler (s : State) : Option Outcome :=
  if s.inVm86 then
    gpfLoop (farptrToLinear s.ss s.esp) addressSpace (farptrToLinear s.cs s.eip) false s
  else some ⟨0, none, s⟩

/-! ## Fetching -/

/-- The bytes stand in the memory from `a` on. -/
def Stands (mem : UInt32 → UInt8) : UInt32 → List UInt8 → Prop
  | _, [] => True
  | a, b :: bytes => mem a = b ∧ Stands mem (a + 1) bytes

/-- An instruction with or without the prefix of a 32-bit operand. -/
def coded (isData32 : Bool) (bytes : List UInt8) : List UInt8 :=
  if isData32 then 0x66 :: bytes else bytes

/-- The instruction at `cs:eip` is the given one, and the handler carries it out. -/
def Emulates (s : State) (bytes : List UInt8) (s' : State) : Prop :=
  Stands s.mem (farptrToLinear s.cs s.eip) bytes ∧ gpfHandler s = some ⟨1, none, s'⟩

/-- The prefix has been passed. -/
def State.passed (s : State) (isData32 : Bool) : State := if isData32 then s.advance else s

@[simp] lemma advance_mem (s : State) : s.advance.mem = s.mem := rfl

lemma passed_mem (s : State) (isData32 : Bool) : (s.passed isData32).mem = s.mem := by
  cases isData32 <;> rfl

/-- Where the instruction stands behind its prefix. -/
def State.pointer (s : State) (isData32 : Bool) : UInt32 :=
  if isData32 then farptrToLinear s.cs s.eip + 1 else farptrToLinear s.cs s.eip

/-- The linear stack pointer. -/
def State.stack (s : State) : UInt32 := farptrToLinear s.ss s.esp

lemma stands_behind {s : State} {isData32 : Bool} {bytes : List UInt8}
    (h : Stands s.mem (farptrToLinear s.cs s.eip) (coded isData32 bytes)) :
    Stands s.mem (s.pointer isData32) bytes := by
  cases isData32 with
  | false => exact h
  | true => exact h.2

/-- Behind the prefix, the instruction is dispatched. -/
lemma gpfHandler_coded {s : State} {isData32 : Bool} {op : UInt8} {rest : List UInt8}
    (hvm : s.inVm86 = true)
    (hstands : Stands s.mem (farptrToLinear s.cs s.eip) (coded isData32 (op :: rest)))
    (h66 : op ≠ 0x66) (h67 : op ≠ 0x67) :
    gpfHandler s =
      some (dispatch (s.passed isData32) (s.pointer isData32) s.stack isData32) := by
  have hfuel : addressSpace = 4294967294 + 1 + 1 := rfl
  unfold gpfHandler
  rw [if_pos hvm, hfuel]
  unfold gpfLoop
  cases isData32 with
  | false =>
    have hop : s.mem (farptrToLinear s.cs s.eip) = op := hstands.1
    rw [hop, if_neg h66, if_neg h67]
    rfl
  | true =>
    have hdata : s.mem (farptrToLinear s.cs s.eip) = 0x66 := hstands.1
    have hop : s.mem (farptrToLinear s.cs s.eip + 1) = op := hstands.2.1
    rw [if_pos hdata]
    unfold gpfLoop
    rw [advance_mem, hop, if_neg h66, if_neg h67]
    rfl

lemma Emulates.dispatched {s s' : State} {isData32 : Bool} {op : UInt8} {rest : List UInt8}
    (h : Emulates s (coded isData32 (op :: rest)) s') (h66 : op ≠ 0x66) (h67 : op ≠ 0x67) :
    dispatch (s.passed isData32) (s.pointer isData32) s.stack isData32 = ⟨1, none, s'⟩ := by
  obtain ⟨hstands, hhandler⟩ := h
  by_cases hvm : s.inVm86 = true
  · rw [gpfHandler_coded hvm hstands h66 h67] at hhandler
    exact Option.some.inj hhandler
  · unfold gpfHandler at hhandler
    rw [if_neg hvm] at hhandler
    have hret : (0 : Int32) = 1 := congrArg Outcome.ret (Option.some.inj hhandler)
    exact absurd hret (by decide)

lemma emulates_of_dispatch {s s' : State} {isData32 : Bool} {op : UInt8} {rest : List UInt8}
    (hvm : s.inVm86 = true)
    (hstands : Stands s.mem (farptrToLinear s.cs s.eip) (coded isData32 (op :: rest)))
    (h66 : op ≠ 0x66) (h67 : op ≠ 0x67)
    (h : dispatch (s.passed isData32) (s.pointer isData32) s.stack isData32 = ⟨1, none, s'⟩) :
    Emulates s (coded isData32 (op :: rest)) s' := by
  refine ⟨hstands, ?_⟩
  rw [gpfHandler_coded hvm hstands h66 h67, h]

section Dispatch
variable {s s' : State} {ip stack : UInt32} {isData32 : Bool}

lemma dispatch_pushf (h : s.mem ip = 0x9C) :
    dispatch s ip stack isData32 = ⟨1, none, emulatePushf s stack isData32⟩ := by
  unfold dispatch
  rw [h, if_neg (by decide), if_pos rfl]

lemma dispatch_popf (h : s.mem ip = 0x9D) :
    dispatch s ip stack isData32 = ⟨1, none, emulatePopf s stack isData32⟩ := by
  unfold dispatch
  rw [h, if_neg (by decide), if_neg (by decide), if_pos rfl]

lemma dispatch_iret (h : s.mem ip = 0xCF) :
    dispatch s ip stack isData32 = ⟨1, none, emulateIret s stack isData32⟩ := by
  unfold dispatch
  rw [h, if_neg (by decide), if_neg (by decide), if_neg (by decide), if_pos rfl]

/-- Three numbers are requests to the handler itself. -/
lemma dispatch_int (h : s.mem ip = 0xCD)
    (hn : s.mem (ip + 1) ≠ 0xFB ∧ s.mem (ip + 1) ≠ 0x03 ∧ s.mem (ip + 1) ≠ 0xFC) :
    dispatch s ip stack isData32 = ⟨1, none, emulateInt s ip stack⟩ := by
  have hnot : ¬(s.mem (ip + 1) = 0xFB ∨ s.mem (ip + 1) = 0x03) := not_or.mpr ⟨hn.1, hn.2.1⟩
  unfold dispatch
  rw [if_pos h, if_neg hnot, if_neg hn.2.2]

lemma Emulates.pushf (h : Emulates s (coded isData32 [0x9C]) s') :
    s' = emulatePushf (s.passed isData32) s.stack isData32 := by
  have hdispatch := h.dispatched (by decide) (by decide)
  have hop := (stands_behind h.1).1
  rw [← passed_mem s isData32] at hop
  rw [dispatch_pushf hop] at hdispatch
  exact (congrArg Outcome.state hdispatch).symm

lemma Emulates.popf (h : Emulates s (coded isData32 [0x9D]) s') :
    s' = emulatePopf (s.passed isData32) s.stack isData32 := by
  have hdispatch := h.dispatched (by decide) (by decide)
  have hop := (stands_behind h.1).1
  rw [← passed_mem s isData32] at hop
  rw [dispatch_popf hop] at hdispatch
  exact (congrArg Outcome.state hdispatch).symm

lemma Emulates.iret (h : Emulates s (coded false [0xCF]) s') :
    s' = emulateIret s s.stack false := by
  have hdispatch : dispatch s (s.pointer false) s.stack false = ⟨1, none, s'⟩ :=
    h.dispatched (by decide) (by decide)
  rw [dispatch_iret (stands_behind h.1).1] at hdispatch
  exact (congrArg Outcome.state hdispatch).symm

lemma Emulates.int {n : UInt8} (h : Emulates s (coded false [0xCD, n]) s') :
    s' = emulateInt s (s.pointer false) s.stack := by
  have hdispatch := h.dispatched (by decide) (by decide)
  have hop : (s.passed false).mem (s.pointer false) = 0xCD := (stands_behind h.1).1
  unfold dispatch at hdispatch
  rw [if_pos hop] at hdispatch
  split_ifs at hdispatch
  · cases congrArg Outcome.call hdispatch
  · cases congrArg Outcome.call hdispatch
  · exact (congrArg Outcome.state hdispatch).symm

/-! The instructions that stand at `cs:eip` are carried out. -/

lemma emulates_pushf (s : State) (isData32 : Bool) (hvm : s.inVm86 = true)
    (h : Stands s.mem (farptrToLinear s.cs s.eip) (coded isData32 [0x9C])) :
    Emulates s (coded isData32 [0x9C]) (emulatePushf (s.passed isData32) s.stack isData32) := by
  refine emulates_of_dispatch hvm h (by decide) (by decide) (dispatch_pushf ?_)
  rw [passed_mem]
  exact (stands_behind h).1

lemma emulates_popf (s : State) (isData32 : Bool) (hvm : s.inVm86 = true)
    (h : Stands s.mem (farptrToLinear s.cs s.eip) (coded isData32 [0x9D])) :
    Emulates s (coded isData32 [0x9D]) (emulatePopf (s.passed isData32) s.stack isData32) := by
  refine emulates_of_dispatch hvm h (by decide) (by decide) (dispatch_popf ?_)
  rw [passed_mem]
  exact (stands_behind h).1

lemma emulates_iret (s : State) (hvm : s.inVm86 = true)
    (h : Stands s.mem (farptrToLinear s.cs s.eip) (coded false [0xCF])) :
    Emulates s (coded false [0xCF]) (emulateIret s s.stack false) :=
  emulates_of_dispatch hvm h (by decide) (by decide) (dispatch_iret h.1)

lemma emulates_int (s : State) (n : UInt8) (hvm : s.inVm86 = true)
    (h : Stands s.mem (farptrToLinear s.cs s.eip) (coded false [0xCD, n]))
    (hn : n ≠ 0xFB ∧ n ≠ 0x03 ∧ n ≠ 0xFC) :
    Emulates s (coded false [0xCD, n]) (emulateInt s (s.pointer false) s.stack) := by
  refine emulates_of_dispatch hvm h (by decide) (by decide) (dispatch_int h.1 ?_)
  have hnumber : (s.passed false).mem (s.pointer false + 1) = n := h.2.1
  rw [hnumber]
  exact hn

end Dispatch

end Sgos.Vm86
