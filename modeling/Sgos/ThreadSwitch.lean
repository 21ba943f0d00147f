import Sgos.Descriptors
import Sgos.ThreadClocks

/-!
# The environment of the running thread

`kernel/arch/i386/cpu/threading.c`: before another thread goes on, `ArPrepareForNextThread` gives
the processor the page directory, the kernel stacks and the thread information block of that
thread. A switch happens in `TmSchedule`, or at the end of the interrupt in which `TmSchedule` was
called. The coprocessor has a model of its own.
-/
namespace Sgos.ThreadSwitch
open Descriptors GuardedRun Scheduler

def GD_TSS_INDEX : ℕ := 5
def GD_TIB_INDEX : ℕ := 7

/-- What a switch reads of a `KThread`. -/
structure ThreadData where
  isKernelThread : Bool
  userModeThreadInformation : UInt32
  space : Ptr
  deriving DecidableEq, Repr

/-- The scheduler with the processor: `esp0` is the field of the `TSS`, `sysenterEsp` the register
of the fast system call. `physicalAddress` is that of the page directory of a space. -/
structure Machine where
  scheduler : Scheduler.State
  data : Ptr → ThreadData
  physicalAddress : Ptr → UInt32
  firstSpace : Ptr
  esp0 : UInt32
  sysenterEsp : UInt32
  tables : Tables
  cr3 : UInt32

/-- The size of a thread, whose kernel stack lies at its end, and the place of the `TSS`. -/
structure Layout where
  sizeofKThread : UInt32
  tss : UInt32
  sizeofTSS : UInt32

namespace Machine

def running (m : Machine) : Option Ptr := m.scheduler.head .running

def mmGetCurrentSpace (m : Machine) : Ptr :=
  match m.running with
  | some thr => (m.data thr).space
  | none => m.firstSpace

def setNext (m : Machine) (next : Option Ptr) : Machine :=
  { m with scheduler := { m.scheduler with box := { m.scheduler.box with next } } }

def setRunning (m : Machine) (thr : Ptr) : Machine :=
  { m with scheduler := m.scheduler.setHead .running (some thr) }

def setClock (m : Machine) (thr : Ptr) (clock : Int32) : Machine :=
  { m with scheduler := m.scheduler.setClock thr clock }

def setInterrupted (m : Machine) (thr : Ptr) (v : Bool) : Machine :=
  { m with scheduler := m.scheduler.modify thr ({ · with isInterrupted := v }) }

end Machine

section Switch
variable (layout : Layout) (m : Machine)

/-- The kernel stacks and the information block of a user thread. -/
def enterUserThread (next : Ptr) : Machine :=
  let esp0 := next + layout.sizeofKThread
  { m with
    esp0 := esp0
    sysenterEsp := esp0
    tables := arSetGdtEntry m.tables GD_TIB_INDEX (m.data next).userModeThreadInformation 0xFFF
      (DA_DRW ||| DA_32 ||| DA_DPL3) }

def arPrepareForNextThread : Machine :=
  match m.scheduler.box.next with
  | none => m
  | some next =>
      let m := if (m.data next).isKernelThread then m else enterUserThread layout m next
      if m.mmGetCurrentSpace ≠ (m.data next).space then
        { m with cr3 := m.physicalAddress (m.data next).space }
      else m

def arSwitchThread (next : Ptr) : Machine :=
  ((arPrepareForNextThread layout m).setRunning next).setNext none

/-- The end of `TmSchedule`, with the chosen thread. -/
def goOn (cur thr : Ptr) (clock : Int32) : Machine :=
  let m := m.setClock thr clock
  if thr = cur then m
  else
    let m := m.setNext (some thr)
    if (m.scheduler.thread cur).isInterrupted then m else arSwitchThread layout m thr

/-- Without an idle thread the kernel stops. -/
def tmSchedule (cur : Ptr) : Machine :=
  match ThreadClocks.nextReady m.scheduler cur with
  | some thr => goOn layout m cur thr 5
  | none =>
      match m.scheduler.head .idle with
      | some thr => goOn layout m cur thr 1
      | none => m

/-- The end of `ArHandleIrq`, and what `do_irq` does after it. -/
def leaveIrq (cur : Ptr) : Machine :=
  let m := m.setInterrupted cur false
  match m.scheduler.box.next with
  | none => m
  | some next => ((arPrepareForNextThread layout m).setRunning next).setNext none

/-- `ArStartThreading`, before it enters threading mode. -/
def arStartThreading : Machine :=
  { m with
    esp0 := 0
    tables := arSetGdtEntry m.tables GD_TSS_INDEX layout.tss (layout.sizeofTSS - 1) DA_386TSS }

/-! ## Runs -/

/-- `create` and `createSpace` are the parts of a creation that matter to switches; the other
events are calls of the running thread. -/
inductive Event
  | setState (thr : Ptr) (st : TargetState)
  | schedule
  | enterIrq
  | leaveIrq
  | create (thr : Ptr) (data : ThreadData)
  | createSpace (space : Ptr) (physicalAddress : UInt32)

def step : Event → Machine
  | .setState thr st => { m with scheduler := tmSetThreadState m.scheduler thr st.1 }
  | .schedule => m.running.elim m (tmSchedule layout m)
  | .enterIrq => m.running.elim m fun cur => m.setInterrupted cur true
  | .leaveIrq => m.running.elim m (leaveIrq layout m)
  | .create thr data => { m with data := Function.update m.data thr data }
  | .createSpace space addr =>
      { m with physicalAddress := Function.update m.physicalAddress space addr }

/-- What is created is not what runs. -/
def StepOk : Event → Prop
  | .create thr _ => m.running ≠ some thr
  | .createSpace space _ => m.mmGetCurrentSpace ≠ space
  | _ => True

/-- The segments of the kernel and of user threads span all addresses. -/
structure FlatSegments : Prop where
  kernelCode : (m.tables.gdt 1).segment = ⟨0, 0xFFFFF, DA_CR ||| DA_32 ||| DA_LIMIT_4K⟩
  kernelData : (m.tables.gdt 2).segment = ⟨0, 0xFFFFF, DA_DRW ||| DA_LIMIT_4K ||| DA_32⟩
  userCode : (m.tables.gdt 3).segment = ⟨0, 0xFFFFF, DA_CR ||| DA_32 ||| DA_LIMIT_4K ||| DA_DPL3⟩
  userData : (m.tables.gdt 4).segment = ⟨0, 0xFFFFF, DA_DRW ||| DA_LIMIT_4K ||| DA_32 ||| DA_DPL3⟩

/-- The processor works for the thread `thr`. -/
structure Environment (thr : Ptr) : Prop where
  directory : m.cr3 = m.physicalAddress (m.data thr).space
  kernelStacks : (m.data thr).isKernelThread = false →
    m.esp0 = thr + layout.sizeofKThread ∧ m.sysenterEsp = thr + layout.sizeofKThread
  block : (m.data thr).isKernelThread = false → (m.tables.gdt GD_TIB_INDEX).segment =
    ⟨(m.data thr).userModeThreadInformation, 0xFFF, DA_DRW ||| DA_32 ||| DA_DPL3⟩
  task : (m.tables.gdt GD_TSS_INDEX).segment =
    ⟨layout.tss, (layout.sizeofTSS - 1) &&& 0xFFFFF, DA_386TSS⟩
  flat : FlatSegments m

end Switch

section Law
variable {layout : Layout} {m m' : Machine} {cur thr next : Ptr}

/-- What the environment depends on. -/
lemma Environment.congr (h : Environment layout m thr) (hdata : m'.data thr = m.data thr)
    (haddr : m'.physicalAddress (m.data thr).space = m.physicalAddress (m.data thr).space)
    (hesp0 : m'.esp0 = m.esp0) (hesp : m'.sysenterEsp = m.sysenterEsp)
    (htables : m'.tables = m.tables) (hcr3 : m'.cr3 = m.cr3) : Environment layout m' thr where
  directory := by
    rw [hcr3, hdata, haddr]
    exact h.directory
  kernelStacks := by
    rw [hesp0, hesp, hdata]
    exact h.kernelStacks
  block := by
    rw [htables, hdata]
    exact h.block
  task := by
    rw [htables]
    exact h.task
  flat := by
    obtain ⟨h1, h2, h3, h4⟩ := h.flat
    rw [← htables] at h1 h2 h3 h4
    exact ⟨h1, h2, h3, h4⟩

/-- The steps of the scheduler alone leave the environment alone. -/
lemma Environment.scheduler (h : Environment layout m thr) (s : Scheduler.State) :
    Environment layout { m with scheduler := s } thr :=
  h.congr rfl rfl rfl rfl rfl rfl

lemma segment_enterUserThread (m : Machine) (next : Ptr) (i : ℕ) :
    ((enterUserThread layout m next).tables.gdt i).segment =
      if i = GD_TIB_INDEX then
        ⟨(m.data next).userModeThreadInformation, 0xFFF, DA_DRW ||| DA_32 ||| DA_DPL3⟩
      else (m.tables.gdt i).segment := by
  by_cases hi : i = GD_TIB_INDEX
  · rw [if_pos hi, hi, enterUserThread]
    dsimp only [arSetGdtEntry]
    rw [Function.update_self, segment_segmentDesc]
    rfl
  · rw [if_neg hi, enterUserThread]
    dsimp only [arSetGdtEntry]
    rw [Function.update_of_ne hi]

/-- The directory is loaded after the rest. -/
lemma arPrepareForNextThread_eq (hnext : m.scheduler.box.next = some next) :
    arPrepareForNextThread layout m =
      let user := if (m.data next).isKernelThread then m else enterUserThread layout m next
      { user with
        cr3 := if m.mmGetCurrentSpace ≠ (m.data next).space then
          m.physicalAddress (m.data next).space else m.cr3 } := by
  rw [arPrepareForNextThread, hnext]
  dsimp only
  by_cases hk : (m.data next).isKernelThread = true
  · simp only [if_pos hk]
    split_ifs <;> rfl
  · have hspace : (enterUserThread layout m next).mmGetCurrentSpace = m.mmGetCurrentSpace := rfl
    have hdata : (enterUserThread layout m next).data = m.data := rfl
    simp only [if_neg hk, hspace, hdata]
    split_ifs <;> rfl

/-- After the preparations for a thread the processor works for it. -/
lemma environment_prepared (h : Environment layout m cur) (hrun : m.running = some cur)
    (hnext : m.scheduler.box.next = some next) :
    Environment layout (arPrepareForNextThread layout m) next := by
  have hcr3 : (if m.mmGetCurrentSpace ≠ (m.data next).space then
      m.physicalAddress (m.data next).space else m.cr3) =
        m.physicalAddress (m.data next).space := by
    by_cases hspace : m.mmGetCurrentSpace = (m.data next).space
    · have hcur : m.mmGetCurrentSpace = (m.data cur).space := by
        rw [Machine.mmGetCurrentSpace, hrun]
      rw [if_neg (not_not.mpr hspace), h.directory, ← hcur, hspace]
    · rw [if_pos hspace]
  rw [arPrepareForNextThread_eq hnext, hcr3]
  by_cases hk : (m.data next).isKernelThread = true
  · have hnot : (m.data next).isKernelThread ≠ false := by simp [hk]
    simp only [if_pos hk]
    exact ⟨rfl, fun hf => absurd hf hnot, fun hf => absurd hf hnot, h.task, h.flat.1, h.flat.2,
      h.flat.3, h.flat.4⟩
  · have hkept : ∀ i, i ≠ GD_TIB_INDEX →
        ((enterUserThread layout m next).tables.gdt i).segment = (m.tables.gdt i).segment :=
      fun i hi => by rw [segment_enterUserThread, if_neg hi]
    simp only [if_neg hk]
    refine ⟨rfl, fun _ => ⟨rfl, rfl⟩, fun _ => ?_, ?_, ?_, ?_, ?_, ?_⟩
    · exact (@segment_enterUserThread layout m next _).trans (if_pos rfl)
    · exact (hkept _ (by decide)).trans h.task
    · exact (hkept _ (by decide)).trans h.flat.1
    · exact (hkept _ (by decide)).trans h.flat.2
    · exact (hkept _ (by decide)).trans h.flat.3
    · exact (hkept _ (by decide)).trans h.flat.4

/-- A switch leaves the processor with the next thread, and the work for it done. -/
lemma environment_switched (h : Environment layout m cur) (hrun : m.running = some cur)
    (hnext : m.scheduler.box.next = some next) :
    let m' := ((arPrepareForNextThread layout m).setRunning next).setNext none
    m'.running = some next ∧ Environment layout m' next := by
  have hprepared := environment_prepared h hrun hnext
  refine ⟨?_, (hprepared.scheduler _).scheduler _⟩
  simp [Machine.running, Machine.setNext, Machine.setRunning, State.head, State.setHead]

/-! ## The scheduler -/

lemma scheduler_arPrepareForNextThread (m : Machine) :
    (arPrepareForNextThread layout m).scheduler = m.scheduler := by
  cases hnext : m.scheduler.box.next with
  | none => rw [arPrepareForNextThread, hnext]
  | some next =>
    rw [arPrepareForNextThread_eq hnext]
    dsimp only
    split_ifs <;> rfl

lemma scheduler_goOn (m : Machine) (cur thr : Ptr) (clock : Int32) :
    (goOn layout m cur thr clock).scheduler =
      Thread.switchThread (m.scheduler.setClock thr clock) cur thr := by
  have hthread : ((m.setClock thr clock).setNext (some thr)).scheduler.thread =
      (m.scheduler.setClock thr clock).thread := rfl
  unfold goOn Thread.switchThread
  dsimp only
  rw [hthread]
  split_ifs
  · rfl
  · rfl
  · unfold arSwitchThread Machine.setNext Machine.setRunning
    rw [scheduler_arPrepareForNextThread]
    rfl

/-- The scheduler goes its way whatever the processor does. -/
lemma scheduler_tmSchedule (m : Machine) (cur : Ptr) :
    (tmSchedule layout m cur).scheduler = Thread.tmSchedule m.scheduler cur := by
  rw [ThreadClocks.tmSchedule_eq, tmSchedule]
  cases ThreadClocks.nextReady m.scheduler cur with
  | some thr => exact scheduler_goOn ..
  | none =>
    cases m.scheduler.head .idle with
    | some thr => exact scheduler_goOn ..
    | none => rfl

lemma head_removeFromLink {s : Scheduler.State} {l l' : Link} (hne : l' ≠ l) (thr : Ptr) :
    (removeFromLink s thr (some l)).head l' = s.head l' := by
  unfold removeFromLink
  dsimp only
  split
  · rfl
  · split <;> split <;> simp [Function.update_of_ne hne]

/-- A change of state touches only the chains of its two states. -/
lemma running_tmSetThreadState {s : Scheduler.State} (hs : WellFormed s) (thr : Ptr)
    (st : TargetState) : (tmSetThreadState s thr st.1).head .running = s.head .running := by
  obtain ⟨lists, hlists⟩ := hs
  have hput : ∀ (s' : Scheduler.State) l, l ≠ .running →
      (putToLink s' thr (some l)).head .running = s'.head .running := by
    intro s' l hl
    rw [(putToLink_links s' thr l).2.2.1, Function.update_of_ne hl.symm]
  obtain ⟨l, hc⟩ := getThreadChain_of_ne_init st.2.1
  have hl := getThreadChain_ne_running st.2.2 hc
  unfold tmSetThreadState
  split_ifs
  · rfl
  · dsimp only
    rw [hc, State.setState_head, hput _ l hl, State.setPrev_head]
    cases hold : getThreadChain (s.stateOf thr) with
    | none => rfl
    | some l' =>
      have hl' := getThreadChain_ne_running (hlists.notRunning thr) hold
      exact head_removeFromLink hl'.symm thr

lemma wellFormed_congr {s s' : Scheduler.State} (hs : WellFormed s)
    (hn : s'.next = s.next) (hp : s'.prev = s.prev)
    (hh : ∀ l, l ≠ .running → s'.head l = s.head l) (hst : s'.stateOf = s.stateOf) :
    WellFormed s' := by
  obtain ⟨lists, h⟩ := hs
  exact ⟨lists, ThreadClocks.chainsOf_congr h hn hp hh hst⟩

lemma wellFormed_setInterrupted (h : WellFormed m.scheduler) (thr : Ptr) (v : Bool) :
    WellFormed (m.setInterrupted thr v).scheduler := by
  refine wellFormed_congr h ?_ ?_ (fun _ _ => rfl) ?_ <;>
    funext t <;> by_cases ht : t = thr <;>
      simp [Machine.setInterrupted, State.modify, State.next, State.prev, State.stateOf, ht]

/-- Every step keeps the chains of the scheduler. -/
lemma wellFormed_step (h : WellFormed m.scheduler) (e : Event) :
    WellFormed (step layout m e).scheduler := by
  cases e with
  | setState thr st => exact tmSetThreadState_wellFormed h thr st.2.1 st.2.2
  | schedule =>
    rw [step]
    cases m.running with
    | none => exact h
    | some cur =>
      obtain ⟨lists, hlists⟩ := h
      rw [Option.elim_some, scheduler_tmSchedule]
      exact ⟨lists, ThreadClocks.chainsOf_tmSchedule hlists cur⟩
  | enterIrq =>
    rw [step]
    cases m.running with
    | none => exact h
    | some cur => exact wellFormed_setInterrupted h cur true
  | leaveIrq =>
    rw [step]
    cases m.running with
    | none => exact h
    | some cur =>
      have hclear := wellFormed_setInterrupted h cur false
      rw [Option.elim_some, leaveIrq]
      split
      · exact hclear
      · refine wellFormed_congr hclear ?_ ?_ (fun l hl => ?_) ?_ <;>
          simp only [Machine.setNext, Machine.setRunning, scheduler_arPrepareForNextThread]
        · rfl
        · rfl
        · exact Function.update_of_ne hl _ _
        · rfl
  | create thr data => exact h
  | createSpace space addr => exact h

/-! ## Every switch -/

/-- The processor works for the thread that runs. -/
def Works (layout : Layout) (m : Machine) : Prop :=
  ∃ thr, m.running = some thr ∧ Environment layout m thr

lemma works_goOn (h : Environment layout m cur) (hrun : m.running = some cur) (thr : Ptr)
    (clock : Int32) : Works layout (goOn layout m cur thr clock) := by
  have hclock : Environment layout (m.setClock thr clock) cur := h.scheduler _
  have hrun' : (m.setClock thr clock).running = some cur := hrun
  unfold goOn
  dsimp only
  split_ifs
  · exact ⟨cur, hrun', hclock⟩
  · exact ⟨cur, hrun', hclock.scheduler _⟩
  · exact ⟨thr, environment_switched (hclock.scheduler _) hrun' rfl⟩

lemma works_leaveIrq (h : Environment layout m cur) (hrun : m.running = some cur) :
    Works layout (leaveIrq layout m cur) := by
  have hclear : Environment layout (m.setInterrupted cur false) cur := h.scheduler _
  have hrun' : (m.setInterrupted cur false).running = some cur := hrun
  unfold leaveIrq
  dsimp only
  split
  · exact ⟨cur, hrun', hclear⟩
  · next next hnext => exact ⟨next, environment_switched hclear hrun' hnext⟩

/-- Every step keeps the processor at work for the thread that runs. -/
lemma works_step (hs : WellFormed m.scheduler) (h : Works layout m) (e : Event)
    (hok : StepOk m e) : Works layout (step layout m e) := by
  obtain ⟨cur, hrun, henv⟩ := h
  cases e with
  | setState thr st =>
    exact ⟨cur, (running_tmSetThreadState hs thr st).trans hrun, henv.scheduler _⟩
  | schedule =>
    rw [step, hrun, Option.elim_some, tmSchedule]
    split
    · exact works_goOn henv hrun _ _
    · split
      · exact works_goOn henv hrun _ _
      · exact ⟨cur, hrun, henv⟩
  | enterIrq =>
    rw [step, hrun, Option.elim_some]
    exact ⟨cur, hrun, henv.scheduler _⟩
  | leaveIrq =>
    rw [step, hrun, Option.elim_some]
    exact works_leaveIrq henv hrun
  | create thr data =>
    have hne : cur ≠ thr := fun he => hok (he ▸ hrun)
    exact ⟨cur, hrun, henv.congr (Function.update_of_ne hne _ _) rfl rfl rfl rfl rfl⟩
  | createSpace space addr =>
    have hcur : m.mmGetCurrentSpace = (m.data cur).space := by
      rw [Machine.mmGetCurrentSpace, hrun]
    have hne : (m.data cur).space ≠ space := hcur ▸ hok
    exact ⟨cur, hrun, henv.congr rfl (Function.update_of_ne hne _ _) rfl rfl rfl rfl⟩

/-- The kernel before it enters threading mode: `thr`, one of its threads, runs in its own space. -/
structure Initialized (m : Machine) (thr : Ptr) : Prop where
  wellFormed : WellFormed m.scheduler
  running : m.running = some thr
  kernel : (m.data thr).isKernelThread = true
  directory : m.cr3 = m.physicalAddress (m.data thr).space
  tables : m.tables = arInitializeGdt

lemma works_started (h : Initialized m thr) : Works layout (arStartThreading layout m) := by
  have hnot : (m.data thr).isKernelThread ≠ false := by simp [h.kernel]
  have hkept : ∀ i, i ≠ GD_TSS_INDEX → ((arStartThreading layout m).tables.gdt i).segment =
      (arInitializeGdt.gdt i).segment := by
    intro i hi
    rw [arStartThreading, h.tables]
    dsimp only [arSetGdtEntry]
    rw [Function.update_of_ne hi]
  have htask : ((arStartThreading layout m).tables.gdt GD_TSS_INDEX).segment =
      ⟨layout.tss, (layout.sizeofTSS - 1) &&& 0xFFFFF, DA_386TSS &&& 0xF0FF⟩ := by
    dsimp only [arStartThreading, arSetGdtEntry]
    rw [Function.update_self, segment_segmentDesc]
  refine ⟨thr, h.running, h.directory, fun hf => absurd hf hnot, fun hf => absurd hf hnot, htask,
    ?_, ?_, ?_, ?_⟩
  all_goals
    rw [hkept _ (by decide)]
    decide

/-- In every state that is reached, the processor works for the thread that runs. -/
theorem run_environment (h : Initialized m thr) (es : List Event)
    (hok : Guarded (step layout) StepOk (arStartThreading layout m) es) :
    ∃ cur, (run (step layout) (arStartThreading layout m) es).running = some cur ∧
      Environment layout (run (step layout) (arStartThreading layout m) es) cur :=
  (hok.invariant (fun m => WellFormed m.scheduler ∧ Works layout m)
    (fun _ e hm hok => ⟨wellFormed_step hm.1 e, works_step hm.1 hm.2 e hok⟩)
    ⟨h.wellFormed, works_started h⟩).2

end Law

/-! ## Two threads -/

def smallLayout : Layout := ⟨0x2000, 0xC0100000, 0x2068⟩

/-- A thread of the kernel, and a user thread of another space. -/
def booted : Machine where
  scheduler := initial (some 0xC1000000)
  data thr := if thr = 0xC1000000 then ⟨true, 0, 0xC2000000⟩ else ⟨false, 0x7FFFF000, 0xC3000000⟩
  physicalAddress space := if space = 0xC2000000 then 0x300000 else 0x500000
  firstSpace := 0xC2000000
  esp0 := 0
  sysenterEsp := 0
  tables := arInitializeGdt
  cr3 := 0x300000

lemma ready_target : ThreadState.ready ≠ .init ∧ ThreadState.ready ≠ .running := by decide

/-- The user thread becomes ready in an interrupt, at whose end it goes on. -/
def tick : List Event :=
  [.enterIrq, .setState 0xC1004000 ⟨.ready, ready_target⟩, .schedule, .leaveIrq]

theorem run_environment_tick :
    ∃ cur, (run (step smallLayout) (arStartThreading smallLayout booted) tick).running = some cur ∧
      Environment smallLayout (run (step smallLayout) (arStartThreading smallLayout booted) tick)
        cur :=
  run_environment ⟨initial_wellFormed _, rfl, rfl, rfl, rfl⟩ tick
    ⟨trivial, trivial, trivial, trivial, trivial⟩

end Sgos.ThreadSwitch
