import Sgos.Interrupt
import Sgos.SemaphoreRuns

/-!
# Interrupts respect the locks

Every semaphore keeps the invariant of its own module under the calls of the threads and of the
interrupt handler, if the handler finds the semaphores it takes free and the threads meet the
conditions of the semaphore law.
-/
namespace Sgos.Interrupt
open GuardedRun Queue Scheduler Thread
open Semaphore (Phase InQueue LockOk AdvanceOk ipcLockSemaphore unlockPop)

/-- The call of `t` is inside the part of `IpcSend` to `d` that the semaphore of `d` guards. -/
def Inside (s : State) (d t : Ptr) : Prop := phaseOf (.thread d) (s.pc t) = .holding

/-- One call at most, of a thread or of the handler, is inside the guarded part, and the handler
puts no thread to sleep. -/
structure SendLaw (s : State) : Prop where
  exclusion : ∀ d t u, Inside s d t → Inside s d u → t = u
  awake : s.slept = false

/-- A wake-up goes to no thread that is in a wait queue. -/
def WakeOk (s : State) (w : Ptr) : Prop := ∀ id, ¬ InQueue (s.view id) w

/-- The next part of an unlock. -/
def UpOk (s : State) (id : SemId) (t : Ptr) (p : Phase) : Prop :=
  AdvanceOk (s.view id) t ∧ ∀ w, p = .stored (some w) → WakeOk s w

/-- The lock of a queue is as `lock` says. -/
def PartOk (lock : SemId → Prop) (s : State) (t : Ptr) (room : Bool) : Prop :=
  match s.pc t with
  | .admitted d => room = true → lock (.queue d)
  | .linking d p => UpOk s (.queue d) t p
  | .leaving d _ p => UpOk s (.thread d) t p
  | .waking d => WakeOk s d
  | _ => True

/-- Threads meet the conditions of the semaphore law; the handler finds what it locks free. -/
def StepOk (s : State) : Event → Prop
  | .call t d block => CanRun s t → s.pc t = .idle → LockOk (s.view (.thread d)) t block
  | .run t block _ room => CanRun s t → PartOk (fun id => LockOk (s.view id) t block) s t room
  | .quickSend d _ => s.interrupted ≠ none → (s.sem (.thread d)).value = 1
  | .handle _ _ room => s.interrupted ≠ none →
      PartOk (fun id => (s.sem id).value = 1) s handler room
  | .interrupt _ | .iret => True

/-- The invariant of each semaphore. -/
def Inv (s : State) : Prop := s.slept = false ∧ ∀ id, Semaphore.Inv (s.view id)

section Steps
variable {s : State} {id : SemId} {t : Ptr}

/-- A part of a call that concerns one semaphore: the others only see what it does to the states
of the threads. -/
lemma Inv.put (h : Inv s) {v : Semaphore.State} {pc : Pc} {p : Phase} (hv : Semaphore.Inv v)
    (hphase : v.phase = Function.update (s.view id).phase t p) (hpc : phaseOf id pc = p)
    (hother : ∀ j, j ≠ id → phaseOf j pc = phaseOf j (s.pc t))
    (hsched : ∀ j, j ≠ id → Semaphore.Inv { s.view j with sched := v.sched }) :
    Inv (s.put id v t pc) := by
  refine ⟨h.1, fun j => ?_⟩
  have hview : ∀ j, (fun u => phaseOf j (Function.update s.pc t pc u)) =
      Function.update (s.view j).phase t (phaseOf j pc) := by
    intro j
    funext u
    by_cases hu : u = t
    · rw [hu, Function.update_self, Function.update_self]
    · rw [Function.update_of_ne hu, Function.update_of_ne hu]
      rfl
  by_cases hj : j = id
  · subst hj
    have heq : (s.put j v t pc).view j = v := by
      simp only [State.view, State.put, Function.update_self, hview, hpc]
      exact congrArg (fun ph => (⟨v.sched, v.sem, ph⟩ : Semaphore.State)) hphase.symm
    rwa [heq]
  · have heq : (s.put id v t pc).view j = { s.view j with sched := v.sched } := by
      simp only [State.view, State.put, Function.update_of_ne hj, hview, hother j hj]
      congr 1
      exact Function.update_eq_self t _
    rw [heq]
    exact hsched j hj

lemma ipcLockSemaphore_cases (v : Semaphore.State) (t : Ptr) (block : Option Ptr) :
    (ipcLockSemaphore v t block).phase = Function.update v.phase t .waiting ∧
        (ipcLockSemaphore v t block).sched = tmSleepThread v.sched t t INFINITE ∨
      (ipcLockSemaphore v t block).phase = Function.update v.phase t .holding ∧
        (ipcLockSemaphore v t block).sched = v.sched := by
  rw [ipcLockSemaphore]
  split_ifs
  · exact .inl ⟨rfl, rfl⟩
  · exact .inr ⟨rfl, rfl⟩

/-- The next part of an unlock touches the threads only by its wake-up. -/
lemma advance_cases (v : Semaphore.State) (t : Ptr) :
    ∃ p, (Semaphore.advance v t).phase = Function.update v.phase t p ∧
      ((Semaphore.advance v t).sched = v.sched ∨ ∃ w, v.phase t = .stored (some w) ∧
        (Semaphore.advance v t).sched = (tmWakeupThread v.sched w).2) := by
  rw [Semaphore.advance]
  split
  case h_1 | h_2 => exact ⟨_, (Function.update_eq_self t _).symm, .inl rfl⟩
  case h_7 w hw => exact ⟨_, rfl, .inr ⟨w, hw, rfl⟩⟩
  all_goals exact ⟨_, rfl, .inl rfl⟩

lemma upPart_cases (v : Semaphore.State) (t : Ptr) :
    ∃ p, (upPart v t).phase = Function.update v.phase t p ∧
      ((upPart v t).sched = v.sched ∨ ∃ w, v.phase t = .stored (some w) ∧
        (upPart v t).sched = (tmWakeupThread v.sched w).2) := by
  rw [upPart]
  split_ifs
  · exact ⟨_, rfl, .inl rfl⟩
  · exact advance_cases v t

/-- A lock of a thread. -/
lemma Inv.down (h : Inv s) {block : Option Ptr} {waiting got : Pc}
    (hout : phaseOf id (s.pc t) = .out) (hok : LockOk (s.view id) t block)
    (hwaiting : phaseOf id waiting = .waiting) (hgot : phaseOf id got = .holding)
    (hother : ∀ j, j ≠ id → phaseOf j waiting = phaseOf j (s.pc t) ∧
      phaseOf j got = phaseOf j (s.pc t))
    (hrest : ∀ j, j ≠ id → phaseOf j (s.pc t) = .out ∨ phaseOf j (s.pc t) = .holding) :
    Inv (down s id t block waiting got) := by
  have hinv := (h.2 id).lock hout hok
  rw [Interrupt.down]
  rcases ipcLockSemaphore_cases (s.view id) t block with ⟨hphase, hsched⟩ | ⟨hphase, hsched⟩
  · have hpc : (ipcLockSemaphore (s.view id) t block).phase t = .waiting := by
      rw [hphase, Function.update_self]
    simp only [hpc, reduceIte]
    refine h.put hinv hphase hwaiting (fun j hj => (hother j hj).1) fun j hj => ?_
    rw [hsched]
    exact (h.2 j).sleep (hrest j hj) INFINITE
  · have hpc : (ipcLockSemaphore (s.view id) t block).phase t = .holding := by
      rw [hphase, Function.update_self]
    simp only [hpc, reduceCtorEq, reduceIte]
    refine h.put hinv hphase hgot (fun j hj => (hother j hj).2) fun j hj => ?_
    rw [hsched]
    exact h.2 j

/-- A lock of the handler, on a semaphore that is free. -/
lemma Inv.downInterrupted (h : Inv s) {cur : Ptr} {block : Option Ptr} {got : Pc}
    (hout : phaseOf id (s.pc handler) = .out) (hvalue : (s.sem id).value = 1)
    (hgot : phaseOf id got = .holding)
    (hother : ∀ j, j ≠ id → phaseOf j got = phaseOf j (s.pc handler)) :
    Inv (downInterrupted s id cur block got) := by
  have hnot : ∀ u, ¬ Semaphore.Charged ((s.view id).phase u) := by
    obtain ⟨xs, -, hbooks⟩ := h.2 id
    refine hbooks.not_charged (t := handler) ?_ hvalue
    show ¬ Semaphore.Charged (phaseOf id (s.pc handler))
    rw [hout]
    exact Semaphore.not_charged_out
  have hok : LockOk (s.view id) handler block := by
    refine ⟨fun u hu => hnot u ?_, fun ⟨u, hu⟩ => absurd ?_ (hnot u), fun hne => absurd hvalue hne⟩
    · obtain ⟨thr, v, hu⟩ := hu
      rw [hu]
      exact Semaphore.charged_loaded thr v
    · rcases hu with ⟨thr, hu⟩ | ⟨thr, v, hu⟩
      · rw [hu]
        exact Semaphore.charged_popped thr
      · rw [hu]
        exact Semaphore.charged_loaded thr v
  have hfree : ¬ ((s.sem id).value - 1 ≠ 0) := by
    rw [hvalue]
    decide
  have hlock : ipcLockSemaphore (s.view id) handler block =
      Semaphore.setPhase { s.view id with
        sem := ⟨(s.sem id).waitQueue, (s.sem id).value - 1⟩ } handler .holding :=
    if_neg hfree
  rw [Interrupt.downInterrupted, if_neg hfree]
  refine h.put ((h.2 id).lock hout hok) ?_ hgot hother fun j _ => ?_
  · rw [hlock]
    rfl
  · rw [hlock]
    exact h.2 j

/-- The call goes on without touching a semaphore. -/
lemma Inv.setPc (h : Inv s) {pc : Pc} (hsame : ∀ j, phaseOf j pc = phaseOf j (s.pc t)) :
    Inv { s with pc := Function.update s.pc t pc } := by
  refine ⟨h.1, fun j => ?_⟩
  have hview : State.view { s with pc := Function.update s.pc t pc } j = s.view j := by
    rw [State.view, State.view]
    congr 1
    funext u
    show phaseOf j (Function.update s.pc t pc u) = phaseOf j (s.pc u)
    by_cases hu : u = t
    · rw [hu, Function.update_self, hsame]
    · rw [Function.update_of_ne hu]
  rw [hview]
  exact h.2 j

lemma Inv.wakeup (h : Inv s) {w : Ptr} (hw : WakeOk s w) :
    Inv { s with sched := (tmWakeupThread s.sched w).2 } :=
  ⟨h.1, fun j => (h.2 j).wakeup (hw j)⟩

/-- A thread that slept for a semaphore goes on. -/
lemma Inv.acquired (h : Inv s) {pc : Pc} (hwait : phaseOf id (s.pc t) = .waiting)
    (hready : s.sched.stateOf t = .ready) (hpc : phaseOf id pc = .holding)
    (hother : ∀ j, j ≠ id → phaseOf j pc = phaseOf j (s.pc t)) :
    Inv (s.put id (Semaphore.advance (s.view id) t) t pc) := by
  have hview : (s.view id).phase t = .waiting := hwait
  have hstep : Semaphore.advance (s.view id) t = Semaphore.setPhase (s.view id) t .holding := by
    rw [Semaphore.advance, hview]
  have hinv := (h.2 id).advance (fun _ => hready) (by rw [AdvanceOk, hview]; trivial)
  refine h.put hinv ?_ hpc hother fun j _ => ?_
  · rw [hstep]
    rfl
  · rw [hstep]
    exact h.2 j

/-- A part of an unlock. -/
lemma Inv.upPart (h : Inv s) {pc : Pc} (hrun : phaseOf id (s.pc t) = .waiting →
      s.sched.stateOf t = .ready) (hok : UpOk s id t (phaseOf id (s.pc t)))
    (hpc : phaseOf id pc = (upPart (s.view id) t).phase t)
    (hother : ∀ j, j ≠ id → phaseOf j pc = phaseOf j (s.pc t)) :
    Inv (s.put id (upPart (s.view id) t) t pc) := by
  have hinv : Semaphore.Inv (Interrupt.upPart (s.view id) t) := by
    rw [Interrupt.upPart]
    split_ifs with hhold
    · exact (h.2 id).unlock hhold
    · exact (h.2 id).advance hrun hok.1
  obtain ⟨p, hphase, hsched⟩ := upPart_cases (s.view id) t
  refine h.put hinv hphase ?_ hother fun j _ => ?_
  · rw [hpc, hphase, Function.update_self]
  · rcases hsched with hsched | ⟨w, hw, hsched⟩
    · rw [hsched]
      exact h.2 j
    · rw [hsched]
      exact (h.2 j).wakeup (hok.2 w hw j)

/-- Two points of a call differ only in what they have done with the semaphore `id`. -/
def AgreeOff (id : SemId) (pc pc' : Pc) : Prop := ∀ j, j ≠ id → phaseOf j pc = phaseOf j pc'

section AgreeOff
variable (d : Ptr) (wake : Bool) (p q : Phase)

lemma idle_waiting : AgreeOff (.thread d) (.waiting d) .idle := by
  rintro (e | e) hj <;> simp_all [phaseOf]
lemma idle_inside : AgreeOff (.thread d) (.inside d) .idle := by
  rintro (e | e) hj <;> simp_all [phaseOf]
lemma waiting_inside : AgreeOff (.thread d) (.inside d) (.waiting d) := by
  rintro (e | e) hj <;> simp_all [phaseOf]
lemma inside_leaving (j : SemId) : phaseOf j (.leaving d wake .holding) = phaseOf j (.inside d) := by
  cases j <;> rfl
lemma inside_admitted (j : SemId) : phaseOf j (.admitted d) = phaseOf j (.inside d) := by
  cases j <;> rfl
lemma admitted_queueWaiting : AgreeOff (.queue d) (.queueWaiting d) (.admitted d) := by
  rintro (e | e) hj <;> simp_all [phaseOf]
lemma admitted_linking : AgreeOff (.queue d) (.linking d p) (.admitted d) := by
  rintro (e | e) hj <;> simp_all [phaseOf]
lemma queueWaiting_linking : AgreeOff (.queue d) (.linking d p) (.queueWaiting d) := by
  rintro (e | e) hj <;> simp_all [phaseOf]
lemma linking_linking : AgreeOff (.queue d) (.linking d p) (.linking d q) := by
  rintro (e | e) hj <;> simp_all [phaseOf]
lemma linking_leaving : AgreeOff (.queue d) (.leaving d wake .holding) (.linking d p) := by
  rintro (e | e) hj <;> simp_all [phaseOf]
lemma leaving_leaving : AgreeOff (.thread d) (.leaving d wake p) (.leaving d wake q) := by
  rintro (e | e) hj <;> simp_all [phaseOf]
lemma leaving_waking : AgreeOff (.thread d) (.waking d) (.leaving d wake p) := by
  rintro (e | e) hj <;> simp_all [phaseOf]
lemma leaving_idle : AgreeOff (.thread d) .idle (.leaving d wake p) := by
  rintro (e | e) hj <;> simp_all [phaseOf]

end AgreeOff

/-- The next part of a call, given what its lock of the queue does. -/
lemma Inv.advance (h : Inv s) {lock : State → SemId → Pc → Pc → State} {lockOk : SemId → Prop}
    {memory room : Bool} (hready : ∀ j, phaseOf j (s.pc t) = .waiting → s.sched.stateOf t = .ready)
    (hlock : ∀ d, s.pc t = .admitted d → lockOk (.queue d) →
      Inv (lock s (.queue d) (.queueWaiting d) (.linking d .holding)))
    (hok : PartOk lockOk s t room) : Inv (advance lock s t memory room) := by
  rw [Interrupt.advance]
  rw [PartOk] at hok
  cases hpc : s.pc t with
  | idle => exact h
  | waiting d =>
    have hwait : phaseOf (.thread d) (s.pc t) = .waiting := by simp [hpc, phaseOf]
    refine h.acquired hwait (hready _ hwait) (by simp [phaseOf]) ?_
    rw [hpc]
    exact waiting_inside d
  | inside d =>
    refine h.setPc fun j => ?_
    rw [hpc]
    split_ifs
    · exact inside_leaving d false j
    · exact inside_admitted d j
  | admitted d =>
    rw [hpc] at hok
    dsimp only
    split_ifs with hroom
    · exact hlock d hpc (hok hroom)
    · refine h.setPc fun j => ?_
      rw [hpc, inside_leaving, inside_admitted]
  | queueWaiting d =>
    have hwait : phaseOf (.queue d) (s.pc t) = .waiting := by simp [hpc, phaseOf]
    refine h.acquired hwait (hready _ hwait) (by simp [phaseOf]) ?_
    rw [hpc]
    exact queueWaiting_linking d .holding
  | linking d p =>
    have hphase : phaseOf (.queue d) (s.pc t) = p := by simp [hpc, phaseOf]
    rw [hpc] at hok
    refine h.upPart (hready _) (by rwa [hphase]) ?_ ?_
    · split_ifs with hout
      · rw [hout]
        rfl
      · simp [phaseOf]
    · rw [hpc]
      split_ifs
      · exact linking_leaving d true p
      · exact linking_linking d _ p
  | leaving d wake p =>
    have hphase : phaseOf (.thread d) (s.pc t) = p := by simp [hpc, phaseOf]
    rw [hpc] at hok
    refine h.upPart (hready _) (by rwa [hphase]) ?_ ?_
    · split_ifs with hout
      · rw [hout]
        rfl
      · rw [hout]
        rfl
      · simp [phaseOf]
    · rw [hpc]
      split_ifs
      · exact leaving_waking d wake p
      · exact leaving_idle d wake p
      · exact leaving_leaving d wake _ p
  | waking d =>
    rw [hpc] at hok
    refine (h.wakeup hok).setPc fun j => ?_
    show phaseOf j .idle = phaseOf j (s.pc t)
    rw [hpc]
    cases j <;> rfl

/-- The handler never waits for a semaphore. -/
def Attentive (s : State) : Prop := ∀ j, phaseOf j (s.pc handler) ≠ .waiting

lemma upPart_ne_waiting {v : Semaphore.State} (h : v.phase t ≠ .waiting) :
    (upPart v t).phase t ≠ .waiting := by
  rw [upPart]
  split_ifs
  · simp [unlockPop, Semaphore.setPhase]
  · rw [Semaphore.advance]
    split <;> simp_all [Semaphore.setPhase]

lemma downInterrupted_pc (s : State) (id : SemId) (cur : Ptr) (block : Option Ptr) (got : Pc) :
    (downInterrupted s id cur block got).pc handler = s.pc handler ∨
      (downInterrupted s id cur block got).pc handler = got := by
  rw [downInterrupted]
  split_ifs
  · exact .inl rfl
  · exact .inr (by simp [State.put])

lemma phaseOf_inside (d : Ptr) (j : SemId) : phaseOf j (.inside d) ≠ .waiting := by
  cases j <;> simp [phaseOf]
  split_ifs <;> simp

lemma phaseOf_linking {d : Ptr} {p : Phase} (hp : p ≠ .waiting) (j : SemId) :
    phaseOf j (.linking d p) ≠ .waiting := by
  cases j <;> simp [phaseOf] <;> split_ifs <;> simp [hp]

lemma phaseOf_leaving {d : Ptr} {wake : Bool} {p : Phase} (hp : p ≠ .waiting) (j : SemId) :
    phaseOf j (.leaving d wake p) ≠ .waiting := by
  cases j <;> simp [phaseOf]
  split_ifs <;> simp [hp]

lemma Attentive.handle (h : Attentive s) (cur : Ptr) (block : Option Ptr) (memory room : Bool) :
    Attentive (advance (fun s id _ => downInterrupted s id cur block) s handler memory room) := by
  have hview : ∀ id, (upPart (s.view id) handler).phase handler ≠ .waiting :=
    fun id => upPart_ne_waiting (h id)
  have hupdate : ∀ pc, Function.update s.pc handler pc handler = pc :=
    fun _ => Function.update_self _ _ _
  intro j
  rw [advance]
  split
  case h_1 hpc => exact h j
  case h_2 d hpc => exact absurd (by simp [hpc, phaseOf]) (h (.thread d))
  case h_3 d hpc =>
    dsimp only
    rw [hupdate]
    split_ifs
    · exact phaseOf_leaving (p := .holding) (by decide) j
    · rw [inside_admitted]
      exact phaseOf_inside d j
  case h_4 d hpc =>
    split_ifs
    · rcases downInterrupted_pc s (.queue d) cur block (.linking d .holding) with he | he
      · rw [he]
        exact h j
      · rw [he]
        exact phaseOf_linking (p := .holding) (by decide) j
    · dsimp only
      rw [hupdate]
      exact phaseOf_leaving (p := .holding) (by decide) j
  case h_5 d hpc => exact absurd (by simp [hpc, phaseOf]) (h (.queue d))
  case h_6 d p hpc =>
    dsimp only [State.put]
    rw [hupdate]
    split_ifs
    · exact phaseOf_leaving (p := .holding) (by decide) j
    · exact phaseOf_linking (hview _) j
  case h_7 d wake p hpc =>
    dsimp only [State.put]
    rw [hupdate]
    split_ifs
    · cases j <;> simp [phaseOf]
    · cases j <;> simp [phaseOf]
    · exact phaseOf_leaving (hview _) j
  case h_8 d hpc =>
    dsimp only
    rw [hupdate]
    cases j <;> simp [phaseOf]

lemma setInterrupted_stateOf (s : State) (t : Ptr) (b : Bool) :
    (setInterrupted s t b).stateOf = s.sched.stateOf := by
  funext u
  by_cases hu : u = t <;>
    simp [setInterrupted, Scheduler.State.modify, Scheduler.State.stateOf, hu]

/-- The flag of a thread is nothing to the semaphores. -/
lemma Inv.setInterrupted (h : Inv s) (t : Ptr) (b : Bool) (x : Option Ptr) :
    Inv { s with sched := setInterrupted s t b, interrupted := x } := by
  refine ⟨h.1, fun j => ?_⟩
  obtain ⟨xs, hholds, hbooks⟩ := h.2 j
  refine ⟨xs, hholds, hbooks.congr fun u _ => ?_⟩
  show (Interrupt.setInterrupted s t b).stateOf u = s.sched.stateOf u
  rw [setInterrupted_stateOf]

/-- A thread's part leaves the handler's call where it is. -/
lemma advance_pc_of_ne {lock : State → SemId → Pc → Pc → State} {u : Ptr} (hu : u ≠ t)
    (hlock : ∀ id w g, (lock s id w g).pc u = s.pc u) (memory room : Bool) :
    (advance lock s t memory room).pc u = s.pc u := by
  rw [advance]
  split
  case h_1 => rfl
  case h_4 =>
    split_ifs
    · exact hlock _ _ _
    · exact Function.update_of_ne hu _ _
  all_goals exact Function.update_of_ne hu _ _

end Steps

/-- The whole invariant: also, between interrupts the handler is idle. -/
structure Good (s : State) : Prop where
  inv : Inv s
  attentive : Attentive s

section Runs
variable {s : State}

lemma Good.call (h : Good s) {t d : Ptr} {block : Option Ptr} (ht : t ≠ handler)
    (hpc : s.pc t = .idle) (hok : LockOk (s.view (.thread d)) t block) :
    Good (down s (.thread d) t block (.waiting d) (.inside d)) := by
  refine ⟨h.inv.down ?_ hok (by simp [phaseOf]) (by simp [phaseOf]) ?_ ?_, fun j => ?_⟩
  · rw [hpc]
    rfl
  · rw [hpc]
    exact fun j hj => ⟨idle_waiting d j hj, idle_inside d j hj⟩
  · rw [hpc]
    exact fun j _ => .inl (phaseOf_idle j)
  · rw [down, State.put]
    dsimp only
    rw [Function.update_of_ne ht.symm]
    exact h.attentive j

lemma Good.run (h : Good s) {t : Ptr} {block : Option Ptr} {memory room : Bool}
    (hrun : CanRun s t) (hok : PartOk (fun id => LockOk (s.view id) t block) s t room) :
    Good (advance (fun s id => down s id t block) s t memory room) := by
  refine ⟨h.inv.advance (fun _ _ => hrun.2.2) (fun d hpc hlock => ?_) hok, fun j => ?_⟩
  · refine h.inv.down ?_ hlock (by simp [phaseOf]) (by simp [phaseOf]) ?_ ?_
    · rw [hpc]
      rfl
    · rw [hpc]
      exact fun j hj => ⟨admitted_queueWaiting d j hj, admitted_linking d .holding j hj⟩
    · rw [hpc]
      rintro (e | e) _
      · by_cases he : e = d <;> simp [phaseOf, he]
      · exact .inl rfl
  · rw [advance_pc_of_ne hrun.2.1.symm]
    · exact h.attentive j
    · exact fun id w g => Function.update_of_ne hrun.2.1.symm _ _

lemma Good.quickSend (h : Good s) {d cur : Ptr} {block : Option Ptr} (hpc : s.pc handler = .idle)
    (hvalue : (s.sem (.thread d)).value = 1) :
    Good (downInterrupted s (.thread d) cur block (.inside d)) := by
  refine ⟨h.inv.downInterrupted ?_ hvalue (by simp [phaseOf]) ?_, fun j => ?_⟩
  · rw [hpc]
    rfl
  · rw [hpc]
    exact idle_inside d
  · rcases downInterrupted_pc s (.thread d) cur block (.inside d) with he | he
    · rw [he]
      exact h.attentive j
    · rw [he]
      exact phaseOf_inside d j

lemma Good.handle (h : Good s) {cur : Ptr} {block : Option Ptr} {memory room : Bool}
    (hok : PartOk (fun id => (s.sem id).value = 1) s handler room) :
    Good (advance (fun s id _ => downInterrupted s id cur block) s handler memory room) := by
  refine ⟨h.inv.advance (fun j hj => absurd hj (h.attentive j)) (fun d hpc hvalue => ?_) hok,
    h.attentive.handle cur block memory room⟩
  refine h.inv.downInterrupted ?_ hvalue (by simp [phaseOf]) ?_
  · rw [hpc]
    rfl
  · rw [hpc]
    exact admitted_linking d .holding

lemma step_good (s : State) (e : Event) (h : Good s) (hok : StepOk s e) : Good (step s e) := by
  rw [step, if_neg (by rw [h.inv.1]; decide)]
  cases e with
  | call t d block =>
    rw [act]
    split_ifs with hc
    · exact h.call hc.1.2.1 hc.2 (hok hc.1 hc.2)
    · exact h
  | run t block memory room =>
    rw [act]
    split_ifs with hc
    · exact h.run hc (hok hc)
    · exact h
  | interrupt t =>
    rw [act]
    split_ifs with hc
    · exact ⟨h.inv.setInterrupted t true (some t), h.attentive⟩
    · exact h
  | quickSend d block =>
    rw [act]
    cases hi : s.interrupted with
    | none => exact h
    | some cur =>
      dsimp only
      split_ifs with hpc
      · exact h.quickSend hpc (hok (by rw [hi]; nofun))
      · exact h
  | handle block memory room =>
    rw [act]
    cases hi : s.interrupted with
    | none => exact h
    | some cur => exact h.handle (hok (by rw [hi]; nofun))
  | iret =>
    rw [act]
    cases hi : s.interrupted with
    | none => exact h
    | some cur =>
      dsimp only
      split_ifs
      · exact ⟨h.inv.setInterrupted cur false none, h.attentive⟩
      · exact h

lemma start_good (sched : Scheduler.State) (heap : SemId → Queue.State) :
    Good (start sched heap) := by
  have hview : ∀ j, (start sched heap).view j = Semaphore.start sched (heap j) := by
    intro j
    simp only [State.view, start, phaseOf_idle, Semaphore.start]
  refine ⟨⟨rfl, fun j => ?_⟩, fun j => ?_⟩
  · rw [hview]
    exact Semaphore.start_inv sched (heap j)
  · show phaseOf j .idle ≠ .waiting
    rw [phaseOf_idle]
    nofun

lemma Good.law (h : Good s) : SendLaw s :=
  ⟨fun d t u ht hu => (h.inv.2 (.thread d)).law.exclusion t u ht hu, h.inv.1⟩

end Runs

/-- As long as the handler finds what it locks free and the threads meet the conditions of the
semaphore law, no two calls are inside the guarded part of `IpcSend` and no interrupt puts a thread
to sleep. -/
theorem run_sendLaw (sched : Scheduler.State) (heap : SemId → Queue.State) {es : List Event}
    (hok : Guarded step StepOk (start sched heap) es) :
    SendLaw (run step (start sched heap) es) :=
  (hok.invariant Good step_good (start_good sched heap)).law

/-- A thread is inside `IpcSend` to one thread when an interrupt sends to another. -/
def twoDestinations : List Event := [.call 1 5 none, .interrupt 1, .quickSend 6 none]

theorem run_sendLaw_twoDestinations :
    SendLaw (run step (start Semaphore.allReady fun _ => Semaphore.emptyHeap) twoDestinations) := by
  have hout : ∀ j u, (State.view (start Semaphore.allReady fun _ => Semaphore.emptyHeap) j).phase u =
      .out := by
    intro j u
    cases j <;> rfl
  refine run_sendLaw _ _ ⟨fun _ _ => ⟨fun u hu => ?_, fun ⟨u, hu⟩ => ?_, fun hne => absurd rfl hne⟩,
    trivial, fun _ => by decide +kernel, trivial⟩
  · obtain ⟨thr, v, hu⟩ := hu
    cases (hout _ u).symm.trans hu
  · rcases hu with ⟨thr, hu⟩ | ⟨thr, v, hu⟩
    · cases (hout _ u).symm.trans hu
    · cases (hout _ u).symm.trans hu

/-- An interrupt that sends to the thread whose semaphore the interrupted thread holds. -/
theorem run_not_sendLaw : ¬ ∀ (sched : Scheduler.State) (heap : SemId → Queue.State)
    (es : List Event), SendLaw (run step (start sched heap) es) := by
  intro h
  have hlaw := h Semaphore.allReady (fun _ => Semaphore.emptyHeap)
    [.call 1 5 none, .interrupt 1, .quickSend 5 (some 0x100)]
  have hawake := hlaw.awake
  revert hawake
  decide +kernel

end Sgos.Interrupt
