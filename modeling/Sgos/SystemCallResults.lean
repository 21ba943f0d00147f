import Sgos.SystemCall

/-!
# The result of a call

Between the store of `ret_val` and the load, a gate keeps the result of a thread in a variable that
every thread shares. When no store to it falls between the store and the load of another thread,
each thread returns with the result of its own handler.
-/
namespace Sgos.SystemCall
open GuardedRun

def Instr.isCall : Instr → Bool
  | .call _ => true
  | _ => false

/-- The number of the first instruction of a gate that is `p`. -/
def indexOf (g : Gate) (p : Instr → Bool) : ℕ := (code g).findIdx p

def callAt (g : Gate) : ℕ := indexOf g Instr.isCall
def storeAt (g : Gate) : ℕ := indexOf g (· = .storeRet)
def loadAt (g : Gate) : ℕ := indexOf g (· = .loadRet)

/-- The words `eip` and `cs` of `I386_REGISTERS` on the stack of a thread that does not run. -/
def savedEip (s : State) (t : Ptr) : UInt32 := (s.stackPointer t).getD 14 0
def savedCs (s : State) (t : Ptr) : UInt32 := (s.stackPointer t).getD 15 0

/-- The next instruction of a thread, when it is in one of the gates. -/
def position (s : State) (t : Ptr) : Option (Gate × ℕ) :=
  if t = s.running then
    match s.cpu.mode with
    | .kernel _ => locate s.cpu.eip
    | .user _ _ => none
  else if savedCs s t = GD_KERNEL_CODE then locate (savedEip s t)
  else none

/-- The thread has stored its result in `ret_val` and not loaded it yet. -/
def Parked (s : State) (g : Gate) (t : Ptr) : Prop :=
  ∃ i ∈ List.range (loadAt g + 1), storeAt g < i ∧ position s t = some (g, i)

instance (s : State) (g : Gate) (t : Ptr) : Decidable (Parked s g t) :=
  List.decidableBEx _ _

/-- Some other thread has. -/
def Busy (s : State) (g : Gate) : Prop := ∃ t ∈ s.threads, t ≠ s.running ∧ Parked s g t

instance (s : State) (g : Gate) : Decidable (Busy s g) := List.decidableBEx _ _

/-- A store to `ret_val` while the result of another thread is there stores the value that is
already there. -/
def StepOk (s : State) : Event → Prop
  | .exec _ => ∀ g ∈ [Gate.systemCallService, .sysenterHandler],
      position s s.running = some (g, storeAt g) → Busy s g → s.cpu.reg .eax = s.retVal g
  | _ => True

instance (s : State) : (e : Event) → Decidable (StepOk s e)
  | .exec _ => List.decidableBAll _ _
  | .user _ | .call _ | .irq _ _ => .isTrue trivial

/-- Each thread has found the result of its handler in `eax`. -/
def ResultLaw (s : State) : Prop := ∀ r ∈ s.returns, r.eax = r.result

/-! ## What one instruction does -/

/-- The words that an instruction takes from the stack. -/
def Instr.takes : Instr → ℕ
  | .pop _ => 1
  | .popa => 8
  | .call n => n
  | .addEsp bytes => bytes / 4
  | _ => 0

/-- The words that it leaves there instead. -/
def Instr.leaves : Instr → ℕ
  | .pushImm _ | .push _ => 1
  | .pusha => 8
  | .call n => n
  | _ => 0

/-- The words of the gate on the stack before its instruction number `i`. -/
def depth (g : Gate) (i : ℕ) : ℕ :=
  ((code g).take i).foldl (fun d ins => d - ins.takes + ins.leaves) 0

/-- Where the result of the handler is, by the number of the next instruction. -/
def Held (g : Gate) (i : ℕ) (result eax retVal : UInt32) : Prop :=
  (callAt g < i → i ≤ storeAt g → eax = result) ∧
    (storeAt g < i → i ≤ loadAt g → retVal = result) ∧ (loadAt g < i → eax = result)

def Instr.keepsEax : Instr → Bool
  | .sti | .pushImm _ | .push _ | .pusha | .addEsp _ | .storeRet => true
  | .mov _ r | .movSeg r | .pop r => r ≠ .eax
  | .movAx _ | .call _ | .loadRet | .popa => false

variable {base : UInt32} {h : Handler} {c k : Core} {ins : Instr}

lemma exec_words (hk : exec base h c ins = some k) :
    ∃ ws : List UInt32, ws.length = ins.leaves ∧ k.stack = ws ++ c.stack.drop ins.takes := by
  cases ins with
  | sti | mov | movAx | movSeg | addEsp | storeRet | loadRet =>
    obtain rfl := Option.some.inj hk
    exact ⟨[], rfl, rfl⟩
  | pushImm v =>
    obtain rfl := Option.some.inj hk
    exact ⟨[v], rfl, rfl⟩
  | push r =>
    obtain rfl := Option.some.inj hk
    exact ⟨[c.reg r], rfl, rfl⟩
  | pusha =>
    obtain rfl := Option.some.inj hk
    exact ⟨_, rfl, rfl⟩
  | call n =>
    rw [exec] at hk
    split_ifs at hk
    obtain rfl := Option.some.inj hk
    exact ⟨(List.range n).map h.args, (List.length_map _).trans List.length_range, rfl⟩
  | pop r =>
    rw [exec] at hk
    split at hk
    · case h_1 v rest hs =>
      obtain rfl := Option.some.inj hk
      exact ⟨[], rfl, by simp [hs, Instr.takes]⟩
    · cases hk
  | popa =>
    rw [exec] at hk
    split at hk
    · case h_1 hs =>
      obtain rfl := Option.some.inj hk
      exact ⟨[], rfl, by simp [hs, Instr.takes]⟩
    · cases hk

lemma exec_stack (hk : exec base h c ins = some k) {d : ℕ} (hd : ins.takes ≤ d) :
    k.stack.drop (d - ins.takes + ins.leaves) = c.stack.drop d := by
  obtain ⟨ws, hlen, hs⟩ := exec_words hk
  rw [hs, Nat.add_comm, ← hlen, List.drop_append, List.drop_of_length_le (by omega),
    List.nil_append, Nat.add_sub_cancel_left, List.drop_drop, Nat.add_sub_cancel' hd]

lemma exec_retVal (hk : exec base h c ins = some k) :
    k.retVal = if ins = .storeRet then c.reg .eax else c.retVal := by
  cases ins with
  | storeRet =>
    obtain rfl := Option.some.inj hk
    rfl
  | _ =>
    simp only [exec] at hk
    (try split at hk) <;> cases hk
    rfl

lemma exec_eax (hk : exec base h c ins = some k) (hins : ins.keepsEax) :
    k.reg .eax = c.reg .eax := by
  cases ins with
  | sti | pushImm | push | pusha | addEsp | storeRet =>
    obtain rfl := Option.some.inj hk
    rfl
  | mov _ r | movSeg r =>
    obtain rfl := Option.some.inj hk
    exact Function.update_of_ne (Ne.symm (by simpa [Instr.keepsEax] using hins)) _ _
  | pop r =>
    rw [exec] at hk
    split at hk
    · obtain rfl := Option.some.inj hk
      exact Function.update_of_ne (Ne.symm (by simpa [Instr.keepsEax] using hins)) _ _
    · cases hk
  | movAx | call | loadRet | popa => cases hins

lemma exec_loadRet (hk : exec base h c .loadRet = some k) : k.reg .eax = c.retVal := by
  obtain rfl := Option.some.inj hk
  rfl

lemma exec_call (hk : exec base h c ins = some k) (hins : ins.isCall) (result : UInt32) :
    k.reg .eax = resultAfter h result ins := by
  cases ins with
  | call n =>
    rw [exec] at hk
    split_ifs at hk
    obtain rfl := Option.some.inj hk
    rfl
  | _ => cases hins

lemma resultAfter_of_not (hins : ¬ ins.isCall) (result : UInt32) :
    resultAfter h result ins = result := by
  cases ins with
  | call n => exact absurd rfl hins
  | _ => rfl

/-! ## The two listings -/

/-- The words that a gate puts on the stack are there to be taken off; it has one call, one store
and one load, and it keeps `eax` between the call and the store and after the load. -/
lemma code_shape (g : Gate) : ∀ i : Fin (code g).length,
    ((code g).get i).takes ≤ depth g i ∧
      (((code g).get i).isCall ↔ i = callAt g) ∧
      ((code g).get i = .storeRet ↔ i = storeAt g) ∧
      ((code g).get i = .loadRet ↔ i = loadAt g) ∧
      (callAt g < i ∧ i < storeAt g ∨ loadAt g < i → ((code g).get i).keepsEax) := by
  cases g <;> decide

lemma code_order (g : Gate) : callAt g < storeAt g ∧ storeAt g < loadAt g ∧
    loadAt g < (code g).length ∧ depth g (code g).length = 0 := by
  cases g <;> decide

lemma depth_succ {g : Gate} {i : ℕ} (hi : (code g)[i]? = some ins) :
    depth g (i + 1) = depth g i - ins.takes + ins.leaves := by
  rw [depth, List.take_add_one, hi, List.foldl_append]
  rfl

lemma Held.exec {g : Gate} {i : ℕ} {result : UInt32} (hh : Held g i result (c.reg .eax) c.retVal)
    (hi : (code g)[i]? = some ins) (hk : exec base h c ins = some k) :
    Held g (i + 1) (resultAfter h result ins) (k.reg .eax) k.retVal := by
  obtain ⟨hlt, rfl⟩ := List.getElem?_eq_some_iff.mp hi
  obtain ⟨-, hcall, hstore, hload, hkeep⟩ := code_shape g ⟨i, hlt⟩
  obtain ⟨hcs, hsl, -, -⟩ := code_order g
  simp only [List.get_eq_getElem] at hcall hstore hload hkeep
  obtain ⟨hbefore, hparked, hafter⟩ := hh
  by_cases hci : (code g)[i].isCall
  · have hi := hcall.mp hci
    exact ⟨fun _ _ => exec_call hk hci result, fun _ _ => by omega, fun _ => by omega⟩
  rw [resultAfter_of_not hci, exec_retVal hk]
  have hne : i ≠ callAt g := fun he => hci (hcall.mpr he)
  refine ⟨fun h₁ h₂ => ?_, fun h₁ h₂ => ?_, fun h₁ => ?_⟩
  · rw [exec_eax hk (hkeep (.inl (by omega))), hbefore (by omega) (by omega)]
  · split_ifs with hs
    · exact hbefore (by have := hstore.mp hs; omega) (by have := hstore.mp hs; omega)
    · have : i ≠ storeAt g := fun he => hs (hstore.mpr he)
      exact hparked (by omega) (by omega)
  · by_cases hl : i = loadAt g
    · rw [hload.mpr hl] at hk
      rw [exec_loadRet hk, hparked (by omega) (by omega)]
    · rw [exec_eax hk (hkeep (.inr (by omega))), hafter (by omega)]

lemma locate_le {eip : UInt32} {g : Gate} {i : ℕ} (hl : locate eip = some (g, i)) :
    i ≤ (code g).length ∧ eip.toNat = entry g + i := by
  rw [locate] at hl
  split_ifs at hl with h₁ h₂
  · cases hl
    exact ⟨by have := h₁.2; omega, by have := h₁.1; omega⟩
  · cases hl
    exact ⟨by have := h₂.2; omega, by have := h₂.1; omega⟩

lemma locate_eq {eip : UInt32} {g : Gate} {i : ℕ} (hi : i ≤ (code g).length)
    (he : eip.toNat = entry g + i) : locate eip = some (g, i) := by
  have hcode : (code .systemCallService).length = 27 ∧ (code .sysenterHandler).length = 21 := by
    decide
  have hentry : entry .systemCallService = 0xC0100000 ∧ entry .sysenterHandler = 0xC0101000 :=
    ⟨rfl, rfl⟩
  rw [locate]
  cases g with
  | systemCallService =>
    rw [if_pos ⟨by omega, by omega⟩, he, Nat.add_sub_cancel_left]
  | sysenterHandler =>
    rw [if_neg (fun h => by have := h.2; omega), if_pos ⟨by omega, by omega⟩, he,
      Nat.add_sub_cancel_left]

lemma locate_succ {eip : UInt32} {g : Gate} {i : ℕ} (hl : locate eip = some (g, i))
    (hi : i < (code g).length) : locate (eip + 1) = some (g, i + 1) := by
  have he := (locate_le hl).2
  have hsmall : entry g + (code g).length + 1 < addressSpace := by cases g <;> decide
  refine locate_eq hi ?_
  rw [toNat_add_of_lt (by simp only [UInt32.toNat_one]; omega), he, UInt32.toNat_one]
  omega

lemma locate_entry (g : Gate) : locate (UInt32.ofNat (entry g)) = some (g, 0) := by
  cases g <;> decide

/-! ## Interrupts -/

/-- `I386_REGISTERS` as `do_irq` leaves it on the stack of an interrupted thread. -/
def frameOf (c : Cpu) (kesp intNo errCode : UInt32) : List UInt32 :=
  [c.reg .gs, c.reg .fs, c.reg .es, c.reg .ds, c.reg .edi, c.reg .esi, c.reg .ebp, kesp,
    c.reg .ebx, c.reg .edx, c.reg .ecx, c.reg .eax, intNo, errCode] ++ (interruptEntry c).stack

lemma irqSave_frame (base : UInt32) (c : Cpu) (irq : UInt32) :
    ∃ k kesp, execAll base default (interruptEntry c) (irqSave irq) = some k ∧
      k.stack = frameOf c kesp (32 + irq) 0 :=
  ⟨_, _, rfl, rfl⟩

/-- A thread that is restored goes on where it was interrupted. -/
lemma restore_frame (k : Core) (c : Cpu) (kesp intNo errCode : UInt32) :
    restore { k with stack := frameOf c kesp intNo errCode } = some c := by
  obtain ⟨reg, eip, eflags, mode⟩ := c
  have hreg : ∀ reg' : Reg → UInt32, (∀ r, reg' r = reg r) →
      some (Cpu.mk reg' eip eflags mode) = some ⟨reg, eip, eflags, mode⟩ := fun reg' h => by
    rw [funext h]
  cases mode with
  | user esp ss => exact hreg _ fun r => by cases r <;> rfl
  | kernel stack => exact hreg _ fun r => by cases r <;> rfl

end Sgos.SystemCall
