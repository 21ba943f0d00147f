import Sgos.SystemCallResults

/-!
# Runs of the two gates

The invariant of every thread, running or not, and its preservation by the instructions of the
gates, the calls, and the interrupts.
-/
namespace Sgos.SystemCall
open GuardedRun

/-- What the entry of a gate has on the kernel stack: the return to user mode, or nothing. -/
def UserFrame (g : Gate) (stack : List UInt32) : Prop :=
  match g with
  | .systemCallService => ∃ eip eflags esp ss, stack = [eip, GD_USER_CODE, eflags, esp, ss]
  | .sysenterHandler => stack = []

/-- In user mode, or in a gate with its stack in order and the result where it should be. -/
def Sound (retVal : Gate → UInt32) (result : UInt32) (c : Cpu) : Prop :=
  ∀ stack, c.mode = .kernel stack → ∃ g i, locate c.eip = some (g, i) ∧
    UserFrame g (stack.drop (depth g i)) ∧ Held g i result (c.reg .eax) (retVal g)

/-- The context of a thread that does not run is on its stack. -/
def Saved (s : State) (t : Ptr) (c : Cpu) : Prop :=
  ∃ kesp intNo errCode, s.stackPointer t = frameOf c kesp intNo errCode

structure Inv (s : State) : Prop where
  running : s.running ∈ s.threads
  cpu : Sound s.retVal (s.result s.running) s.cpu
  saved : ∀ t ∈ s.threads, t ≠ s.running → ∃ c, Saved s t c ∧ Sound s.retVal (s.result t) c
  law : ResultLaw s

variable {s : State}

lemma sound_user {retVal : Gate → UInt32} {result : UInt32} {c : Cpu} {esp ss : UInt32}
    (hc : c.mode = .user esp ss) : Sound retVal result c := by
  intro stack hs
  rw [hc] at hs
  cases hs

lemma Saved.position {t : Ptr} {c : Cpu} (hc : Saved s t c) (ht : t ≠ s.running)
    {stack : List UInt32} (hs : c.mode = .kernel stack) : position s t = locate c.eip := by
  obtain ⟨kesp, intNo, errCode, hf⟩ := hc
  have hcs : savedCs s t = GD_KERNEL_CODE := by
    rw [savedCs, hf]
    simp [frameOf, interruptEntry, hs]
  have heip : savedEip s t = c.eip := by
    rw [savedEip, hf]
    simp [frameOf, interruptEntry, hs]
  rw [SystemCall.position, if_neg ht, if_pos hcs, heip]

/-! ## The events -/

lemma Inv.userStep (h : Inv s) (u : UserStep) : Inv (userStep s u) := by
  rw [SystemCall.userStep]
  split
  · exact h
  · exact ⟨h.running, sound_user rfl, h.saved, h.law⟩

lemma sound_enter (retVal : Gate → UInt32) (result : UInt32) (g : Gate) {c : Cpu}
    {esp ss : UInt32} (hc : c.mode = .user esp ss) : Sound retVal result (enter g c) := by
  intro stack hs
  have hheld : ∀ eax ret, Held g 0 result eax ret := fun _ _ =>
    ⟨fun h => absurd h (Nat.not_lt_zero _), fun h => absurd h (Nat.not_lt_zero _),
      fun h => absurd h (Nat.not_lt_zero _)⟩
  refine ⟨g, 0, ?_, ?_, hheld _ _⟩
  · cases g <;> exact locate_entry _
  · cases g with
    | systemCallService =>
      cases hs
      simp only [UserFrame, interruptEntry, hc]
      exact ⟨_, _, _, _, rfl⟩
    | sysenterHandler =>
      cases hs
      rfl

lemma Inv.systemCall (h : Inv s) (g : Gate) : Inv (systemCall s g) := by
  rw [SystemCall.systemCall]
  split
  · exact h
  · case h_2 hmode => exact ⟨h.running, sound_enter _ _ g hmode, h.saved, h.law⟩

/-- The store of a result that nobody needs, or of the value that is there. -/
lemma Sound.store {retVal : Gate → UInt32} {result : UInt32} {c : Cpu}
    (hc : Sound retVal result c) {g : Gate} {v : UInt32}
    (hv : ∀ stack i, c.mode = .kernel stack → locate c.eip = some (g, i) → storeAt g < i →
      i ≤ loadAt g → v = retVal g) :
    Sound (Function.update retVal g v) result c := by
  intro stack hs
  obtain ⟨g', i, hl, hframe, hbefore, hparked, hafter⟩ := hc stack hs
  refine ⟨g', i, hl, hframe, hbefore, fun h₁ h₂ => ?_, hafter⟩
  rw [Function.update_apply]
  split_ifs with hg
  · subst hg
    rw [hv stack i hs hl h₁ h₂, hparked h₁ h₂]
  · exact hparked h₁ h₂

lemma Inv.execGate (h : Inv s) {hd : Handler} {g : Gate} {i : ℕ} {stack : List UInt32}
    {ins : Instr} (hmode : s.cpu.mode = .kernel stack) (hl : locate s.cpu.eip = some (g, i))
    (hi : (code g)[i]? = some ins) (hok : StepOk s (.exec hd)) :
    Inv (execGate s hd g stack ins) := by
  rw [SystemCall.execGate]
  split
  · exact h
  case h_2 k hk =>
  obtain ⟨g', i', hl', hframe, hheld⟩ := h.cpu stack hmode
  obtain ⟨rfl, rfl⟩ := Prod.mk.inj (Option.some.inj (hl.symm.trans hl'))
  have hlt := (List.getElem?_eq_some_iff.mp hi).1
  refine ⟨h.running, ?_, ?_, h.law⟩
  · rintro stack' ⟨⟩
    refine ⟨g, i + 1, locate_succ hl hlt, ?_, ?_⟩
    · have htakes := (code_shape g ⟨i, hlt⟩).1
      obtain ⟨_, rfl⟩ := List.getElem?_eq_some_iff.mp hi
      rw [depth_succ hi, exec_stack hk htakes]
      exact hframe
    · simpa using Held.exec hheld hi hk
  · intro t ht hne
    obtain ⟨c, hsaved, hc⟩ := h.saved t ht hne
    refine ⟨c, hsaved, ?_⟩
    change Sound _ (Function.update s.result s.running _ t) c
    rw [Function.update_of_ne hne]
    refine hc.store fun stack' j hs hj h₁ h₂ => ?_
    rw [exec_retVal hk]
    split_ifs with hins
    · have hat : i = storeAt g := by
        obtain ⟨_, rfl⟩ := List.getElem?_eq_some_iff.mp hi
        exact (code_shape g ⟨i, hlt⟩).2.2.1.mp hins
      refine hok g (by cases g <;> decide) ?_ ⟨t, ht, hne, j, by simp; omega, h₁, ?_⟩
      · rw [position, if_pos rfl, hmode, ← hat]
        exact hl
      · rw [hsaved.position hne hs, hj]
    · rfl

lemma leave_user {g : Gate} {k : Core} {c : Cpu} (hframe : UserFrame g k.stack)
    (hc : leave g k = some c) : c.reg .eax = k.reg .eax ∧ ∃ esp ss, c.mode = .user esp ss := by
  cases g with
  | systemCallService =>
    obtain ⟨eip, eflags, esp, ss, hs⟩ := hframe
    have hne : GD_USER_CODE ≠ GD_KERNEL_CODE := by decide
    simp only [leave, iret, hs, if_neg hne, Option.some.injEq] at hc
    subst hc
    exact ⟨rfl, _, _, rfl⟩
  | sysenterHandler =>
    cases hc
    exact ⟨rfl, _, _, rfl⟩

lemma Inv.leaveGate (h : Inv s) {g : Gate} {i : ℕ} {stack : List UInt32}
    (hmode : s.cpu.mode = .kernel stack) (hl : locate s.cpu.eip = some (g, i))
    (hi : (code g)[i]? = none) : Inv (leaveGate s g stack) := by
  rw [SystemCall.leaveGate]
  split
  · exact h
  case h_2 c hc =>
  obtain ⟨g', i', hl', hframe, -, -, hafter⟩ := h.cpu stack hmode
  obtain ⟨rfl, rfl⟩ := Prod.mk.inj (Option.some.inj (hl.symm.trans hl'))
  obtain ⟨-, -, hload, hdepth⟩ := code_order g
  obtain rfl : i = (code g).length :=
    le_antisymm (locate_le hl).1 (List.getElem?_eq_none_iff.mp hi)
  rw [hdepth] at hframe
  obtain ⟨heax, esp, ss, huser⟩ := leave_user hframe hc
  refine ⟨h.running, sound_user huser, h.saved, fun r hr => ?_⟩
  rcases List.mem_append.mp hr with hr | hr
  · exact h.law r hr
  · obtain rfl := List.mem_singleton.mp hr
    exact heax.trans (hafter hload)

lemma Inv.kernelStep (h : Inv s) {hd : Handler} (hok : StepOk s (.exec hd)) :
    Inv (kernelStep s hd) := by
  rw [SystemCall.kernelStep]
  split
  · case h_1 stack g i hmode hl =>
    split
    · case h_1 ins hi => exact h.execGate hmode hl hi hok
    · case h_2 hi => exact h.leaveGate hmode hl hi
  · exact h

lemma Inv.doIrq (h : Inv s) (irq : UInt32) {next : Option Ptr}
    (hnext : ∀ thr ∈ next, thr ∈ s.threads) : Inv (doIrq s irq next) := by
  obtain ⟨k, kesp, hk, hstack⟩ := irqSave_frame (s.esp0 s.running) s.cpu irq
  rw [SystemCall.doIrq, hk]
  cases next with
  | none =>
    have hr : restore k = some s.cpu := by
      rw [← restore_frame k s.cpu kesp (32 + irq) 0, ← hstack]
    simp only [hr]
    exact h
  | some thr =>
    have hsaved : ∀ t ∈ s.threads, ∃ c, (∃ kesp intNo errCode,
        Function.update s.stackPointer s.running k.stack t = frameOf c kesp intNo errCode) ∧
        Sound s.retVal (s.result t) c := by
      intro t ht
      by_cases hne : t = s.running
      · subst hne
        exact ⟨s.cpu, ⟨kesp, 32 + irq, 0, by rw [Function.update_self, hstack]⟩, h.cpu⟩
      · obtain ⟨c, hc, hsound⟩ := h.saved t ht hne
        exact ⟨c, by rw [Function.update_of_ne hne]; exact hc, hsound⟩
    obtain ⟨c, ⟨kesp', intNo, errCode, hc⟩, hsound⟩ := hsaved thr (hnext thr rfl)
    simp only [hc, restore_frame]
    exact ⟨hnext thr rfl, hsound, fun t ht _ => hsaved t ht, h.law⟩

lemma Inv.step (h : Inv s) {e : Event} (hok : StepOk s e) : Inv (step s e) := by
  cases e with
  | user u => exact h.userStep u
  | call g => exact h.systemCall g
  | exec hd => exact h.kernelStep hok
  | irq irq next =>
    rw [SystemCall.step]
    split_ifs with hirq
    · exact h.doIrq irq fun thr hthr => by simpa [Option.mem_def.mp hthr] using hirq.2
    · exact h

/-! ## Whole runs -/

/-- Every thread is in user mode, the running one and those that wait, and none has called yet. -/
structure Fresh (s : State) : Prop where
  running : s.running ∈ s.threads
  cpu : ∃ esp ss, s.cpu.mode = .user esp ss
  saved : ∀ t ∈ s.threads, t ≠ s.running → ∃ c esp ss, Saved s t c ∧ c.mode = .user esp ss
  returns : s.returns = []

lemma Fresh.inv (h : Fresh s) : Inv s := by
  obtain ⟨_, _, hcpu⟩ := h.cpu
  refine ⟨h.running, sound_user hcpu, fun t ht hne => ?_, fun r hr => ?_⟩
  · obtain ⟨c, _, _, hsaved, hc⟩ := h.saved t ht hne
    exact ⟨c, hsaved, sound_user hc⟩
  · rw [h.returns] at hr
    cases hr

/-- When every step of a run meets its condition, every thread finds the result of its own handler
in `eax` on every return. -/
theorem run_resultLaw (h : Fresh s) {es : List Event} (hok : Guarded step StepOk s es) :
    ResultLaw (run step s es) :=
  (hok.invariant Inv (fun _ _ hs he => hs.step he) h.inv).law

/-- A thread in user mode that asks for call 2. -/
def caller : Cpu := ⟨fun r => if r = .eax then 2 else 0, 0x400000, EFLAG_IF, .user 0x500000 0x23⟩

/-- Threads 1 and 2; the first runs. -/
def twoCallers : State where
  cpu := caller
  running := 1
  threads := [1, 2]
  esp0 t := 0xC0800000 + 0x1000 * t
  stackPointer _ := frameOf caller 0 0 0
  retVal _ := 0
  result _ := 0
  returns := []

lemma twoCallers_fresh : Fresh twoCallers :=
  ⟨by decide, ⟨_, _, rfl⟩, fun _ _ _ => ⟨caller, _, _, ⟨0, 0, 0, rfl⟩, rfl⟩, rfl⟩

/-- `n` instructions in a gate, with a handler that returns `result`. -/
def instructions (n : ℕ) (result : UInt32) : List Event :=
  List.replicate n (.exec ⟨result, 0, 0, fun _ => 0⟩)

/-- The first thread is interrupted between the store and the load; meanwhile the second calls
through the other gate. -/
def otherGate : List Event :=
  [.call .systemCallService] ++ instructions 22 5 ++
    [.irq 0 (some 2), .call .sysenterHandler] ++ instructions 22 7 ++
    [.irq 0 (some 1)] ++ instructions 6 5

theorem run_resultLaw_otherGate :
    ResultLaw (run step twoCallers otherGate) ∧
      (run step twoCallers otherGate).returns = [⟨2, 7, 7⟩, ⟨1, 5, 5⟩] :=
  ⟨run_resultLaw twoCallers_fresh (by decide +kernel), by decide +kernel⟩

/-- The second thread calls through the same gate, and the first returns with its result. -/
theorem run_not_resultLaw :
    ¬ ∀ (s : State) (es : List Event), Fresh s → ResultLaw (run step s es) := by
  intro h
  have hlaw := h twoCallers ([.call .systemCallService] ++ instructions 22 5 ++
    [.irq 0 (some 2), .call .systemCallService] ++ instructions 28 7 ++
    [.irq 0 (some 1)] ++ instructions 6 5) twoCallers_fresh
  exact absurd (hlaw ⟨1, 5, 7⟩ (by decide +kernel)) (by decide)

end Sgos.SystemCall
