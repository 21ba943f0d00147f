import Sgos.Fpu
import Sgos.GuardedRun

/-!
# Isolation of the coprocessor contents

The lazily switched coprocessor against a machine on which every thread has a coprocessor of its
own. They agree as long as no thread terminates itself while the registers are its own: the save
area goes, the flag that asks for the save stays.
-/
namespace Sgos.Fpu
open GuardedRun

variable {φ : Type*} (fpu : Coprocessor φ)

/-- `execute f` is a coprocessor instruction with the effect `f`. An instruction that meets the TS
bit traps instead: `trap` and `finish` are the two parts of the handler. -/
inductive Event (φ : Type*)
  | create (thr : Ptr)
  | switch (next : Ptr)
  | interrupt (next : Option Ptr)
  | trap (block : Ptr)
  | finish
  | execute (f : φ → φ)
  | terminate (thr : Ptr)

def step (s : State φ) : Event φ → Result φ × State φ
  | .create thr => (.done, tmCreateThread s thr)
  | .switch next => arSwitchThread fpu s next
  | .interrupt next => arHandleIrq fpu s next
  | .trap block => (.done, fpuTrap fpu s block)
  | .finish => fpuHandler fpu s
  | .execute f => (.seen s.regs, { s with regs := f s.regs })
  | .terminate thr => (.done, tmTerminateThread s thr)

/-- The contents of every thread's own coprocessor, and the running thread. -/
structure Private (φ : Type*) where
  contents : Ptr → φ
  running : Ptr

def privateStep (c : Private φ) : Event φ → Result φ × Private φ
  | .create thr => (.done, { c with contents := Function.update c.contents thr fpu.initial })
  | .switch next | .interrupt (some next) => (.done, { c with running := next })
  | .execute f => (.seen (c.contents c.running),
      { c with contents := Function.update c.contents c.running (f (c.contents c.running)) })
  | .interrupt none | .trap _ | .finish | .terminate _ => (.done, c)

/-- The scheduler names living threads, an instruction traps exactly on the TS bit, and a thread in
the handler does nothing else. The allocator returns free blocks. -/
def Proper (s : State φ) : Event φ → Prop
  | .create thr => thr ∉ s.threads
  | .switch next | .interrupt (some next) => next ∈ s.threads ∧ (s.thread next).dead = false
  | .interrupt none => True
  | .trap block => s.ts = true ∧ (s.thread s.running).dead = false ∧
      (s.thread s.running).handling = none ∧ block ∉ s.live
  | .finish => (s.thread s.running).handling ≠ none
  | .execute _ => s.ts = false ∧ (s.thread s.running).dead = false ∧
      (s.thread s.running).handling = none
  | .terminate thr => thr ∈ s.threads ∧ (s.thread s.running).handling = none

/-- No thread terminates itself while it uses the coprocessor. -/
def StepOk (s : State φ) (e : Event φ) : Prop :=
  Proper s e ∧ match e with
    | .terminate thr => thr = s.running → (s.thread thr).usedFpu = false
    | _ => True

instance (s : State φ) : ∀ e, Decidable (Proper s e)
  | .create thr => inferInstanceAs (Decidable (thr ∉ s.threads))
  | .switch next | .interrupt (some next) =>
      inferInstanceAs (Decidable (next ∈ s.threads ∧ (s.thread next).dead = false))
  | .interrupt none => .isTrue trivial
  | .trap block => inferInstanceAs (Decidable (s.ts = true ∧ (s.thread s.running).dead = false ∧
      (s.thread s.running).handling = none ∧ block ∉ s.live))
  | .finish => inferInstanceAs (Decidable ((s.thread s.running).handling ≠ none))
  | .execute _ => inferInstanceAs (Decidable (s.ts = false ∧ (s.thread s.running).dead = false ∧
      (s.thread s.running).handling = none))
  | .terminate thr =>
      inferInstanceAs (Decidable (thr ∈ s.threads ∧ (s.thread s.running).handling = none))

instance (s : State φ) : ∀ e, Decidable (StepOk s e)
  | .terminate thr => inferInstanceAs (Decidable (Proper s (.terminate thr) ∧
      (thr = s.running → (s.thread thr).usedFpu = false)))
  | .create _ | .switch _ | .interrupt _ | .trap _ | .finish | .execute _ =>
      inferInstanceAs (Decidable (Proper s _ ∧ True))

/-- The first thread runs and the TS bit is set. -/
def start (thr : Ptr) (area : Ptr → φ) (regs : φ) : State φ :=
  { thread := fun _ => ⟨none, false, false, false, none⟩
    threads := [thr]
    running := thr
    next := none
    area := area
    live := []
    regs := regs
    ts := true }

def startPrivate (thr : Ptr) : Private φ := ⟨fun _ => fpu.initial, thr⟩

/-! ## The relation -/

@[simp] lemma modify_thread (s : State φ) (thr t : Ptr) (f : KThread → KThread) :
    (s.modify thr f).thread t = if t = thr then f (s.thread thr) else s.thread t :=
  Function.update_apply _ _ _ _

/-- A thread that lives has the contents `v`: initially, in its save area, or in the registers. -/
structure Holds (thr : KThread) (area : Ptr → φ) (regs v : φ) : Prop where
  fresh : thr.usedMathProcessor = false → v = fpu.initial
  saved : thr.usedMathProcessor = true → thr.usedFpu = false →
    ∀ a, thr.fsave = some a → area a = v
  loaded : thr.usedFpu = true → regs = v

/-- The flags of a thread fit each other. -/
structure Flags (thr : KThread) : Prop where
  used : thr.usedFpu = true → thr.usedMathProcessor = true ∧ thr.dead = false ∧ thr.handling = none
  fsave : thr.usedMathProcessor = true → thr.fsave ≠ none
  handling : thr.dead = false → ∀ used, thr.handling = some used →
    thr.usedMathProcessor = used ∧ thr.fsave ≠ none

/-- The lazily switched coprocessor stands for the private ones. -/
structure Isolated (s : State φ) (c : Private φ) : Prop where
  running : c.running = s.running
  mem : s.running ∈ s.threads
  ts : s.ts = !(s.thread s.running).usedFpu
  idle : ∀ t ∈ s.threads, t ≠ s.running → (s.thread t).usedFpu = false
  alive : (s.thread s.running).handling ≠ none → (s.thread s.running).dead = false
  flags : ∀ t ∈ s.threads, Flags (s.thread t)
  live : ∀ t ∈ s.threads, ∀ a, (s.thread t).fsave = some a → a ∈ s.live
  inj : ∀ t ∈ s.threads, ∀ u ∈ s.threads, ∀ a, (s.thread t).fsave = some a →
    (s.thread u).fsave = some a → t = u
  holds : ∀ t ∈ s.threads, (s.thread t).dead = false →
    Holds fpu (s.thread t) s.area s.regs (c.contents t)

/-- What the threads other than `thr` have is in `s'` as it is in `s`. -/
structure Others (s s' : State φ) (thr : Ptr) : Prop where
  mem : ∀ t ∈ s'.threads, t ≠ thr → t ∈ s.threads
  thread : ∀ t, t ≠ thr → s'.thread t = s.thread t
  area : ∀ t ∈ s.threads, t ≠ thr → ∀ a, (s.thread t).fsave = some a →
    s'.area a = s.area a ∧ a ∈ s'.live
  regs : ∀ t ∈ s.threads, t ≠ thr → (s.thread t).usedFpu = true → s'.regs = s.regs

variable {fpu} {s s' : State φ} {c c' : Private φ} {thr : Ptr}

/-- A step need only be looked at where it changes something. -/
lemma Isolated.of_others (h : Isolated fpu s c) (thr : Ptr) (ho : Others s s' thr)
    (hc : ∀ t, t ≠ thr → c'.contents t = c.contents t) (hrunning : c'.running = s'.running)
    (hmem : s'.running ∈ s'.threads) (hrun : s'.running = s.running ∨ thr = s.running)
    (hts : s'.ts = !(s'.thread s'.running).usedFpu)
    (hidle : thr ≠ s'.running → (s'.thread thr).usedFpu = false)
    (halive : (s'.thread s'.running).handling ≠ none → (s'.thread s'.running).dead = false)
    (hflags : Flags (s'.thread thr))
    (hfsave : ∀ a, (s'.thread thr).fsave = some a → a ∈ s'.live ∧
      ∀ t ∈ s.threads, t ≠ thr → (s.thread t).fsave ≠ some a)
    (hholds : (s'.thread thr).dead = false →
      Holds fpu (s'.thread thr) s'.area s'.regs (c'.contents thr)) : Isolated fpu s' c' := by
  constructor
  case running => exact hrunning
  case mem => exact hmem
  case ts => exact hts
  case idle =>
    intro t ht hne
    by_cases he : t = thr
    · rw [he] at hne ⊢
      exact hidle hne
    · rw [ho.thread t he]
      refine h.idle t (ho.mem t ht he) ?_
      rcases hrun with hrun | hrun
      · rwa [hrun] at hne
      · rwa [hrun] at he
  case alive => exact halive
  case flags =>
    intro t ht
    by_cases he : t = thr
    · rwa [he]
    · rw [ho.thread t he]
      exact h.flags t (ho.mem t ht he)
  case live =>
    intro t ht a ha
    by_cases he : t = thr
    · exact (hfsave a (he ▸ ha)).1
    · rw [ho.thread t he] at ha
      exact (ho.area t (ho.mem t ht he) he a ha).2
  case inj =>
    intro t ht u hu a hta hua
    by_cases het : t = thr
    · by_cases heu : u = thr
      · rw [het, heu]
      · rw [ho.thread u heu] at hua
        exact absurd hua ((hfsave a (het ▸ hta)).2 u (ho.mem u hu heu) heu)
    · rw [ho.thread t het] at hta
      by_cases heu : u = thr
      · exact absurd hta ((hfsave a (heu ▸ hua)).2 t (ho.mem t ht het) het)
      · rw [ho.thread u heu] at hua
        exact h.inj t (ho.mem t ht het) u (ho.mem u hu heu) a hta hua
  case holds =>
    intro t ht hd
    by_cases he : t = thr
    · rw [he] at hd ⊢
      exact hholds hd
    · have hmem := ho.mem t ht he
      rw [ho.thread t he] at hd ⊢
      rw [hc t he]
      have hold := h.holds t hmem hd
      refine ⟨hold.fresh, fun hm hu a ha => ?_, fun hu => ?_⟩
      · rw [(ho.area t hmem he a ha).1]
        exact hold.saved hm hu a ha
      · rw [ho.regs t hmem he hu]
        exact hold.loaded hu

/-- No thread shares its save area with another. -/
lemma Isolated.fsave_ne (h : Isolated fpu s c) (hthr : thr ∈ s.threads) {a : Ptr}
    (ha : (s.thread thr).fsave = some a) : ∀ t ∈ s.threads, t ≠ thr → (s.thread t).fsave ≠ some a :=
  fun t ht hne hta => hne (h.inj t ht thr hthr a hta ha)

lemma start_isolated (thr : Ptr) (area : Ptr → φ) (regs : φ) :
    Isolated fpu (start thr area regs) (startPrivate fpu thr) := by
  constructor
  case holds => intro t _ _; constructor <;> simp [start, startPrivate]
  case flags => intro t _; constructor <;> simp [start]
  all_goals simp [start, startPrivate]

/-! ## The steps -/

lemma Isolated.create (h : Isolated fpu s c) (hthr : thr ∉ s.threads) :
    Isolated fpu (tmCreateThread s thr)
      { c with contents := Function.update c.contents thr fpu.initial } := by
  have hrun : s.running ≠ thr := ne_of_mem_of_not_mem h.mem hthr
  have hself : (tmCreateThread s thr).thread thr = ⟨none, false, false, false, none⟩ := by
    simp [tmCreateThread]
  have hother : ∀ t, t ≠ thr → (tmCreateThread s thr).thread t = s.thread t := by
    intro t hne
    simp [tmCreateThread, hne]
  have hrunning : (tmCreateThread s thr).thread (tmCreateThread s thr).running =
      s.thread s.running := hother _ hrun
  refine h.of_others thr ?others ?contents h.running (List.mem_cons_of_mem _ h.mem)
    (.inl rfl) ?ts ?idle ?alive ?flags ?fsave ?holds
  case others =>
    exact ⟨fun t ht hne => (List.mem_cons.mp ht).resolve_left hne, hother,
      fun t ht _ a ha => ⟨rfl, h.live t ht a ha⟩, fun _ _ _ _ => rfl⟩
  case contents => exact fun t hne => Function.update_of_ne hne _ _
  case ts => exact h.ts.trans (by rw [hrunning])
  case idle => simp [hself]
  case alive =>
    rw [hrunning]
    exact h.alive
  case flags => rw [hself]; constructor <;> simp
  case fsave => simp [hself]
  case holds => rw [hself]; intro _; constructor <;> simp

/-- The first part of the handler: the thread has an area, its own or a new one. -/
lemma fpuTrap_spec (fpu : Coprocessor φ) (hflags : Flags (s.thread s.running)) {block : Ptr} (hblock : block ∉ s.live) :
    ∃ a, (fpuTrap fpu s block).thread = Function.update s.thread s.running
        { s.thread s.running with
          fsave := some a, handling := some (s.thread s.running).usedMathProcessor } ∧
      ((s.thread s.running).fsave = some a ∧ (fpuTrap fpu s block).area = s.area ∧
          (fpuTrap fpu s block).live = s.live ∨
        (s.thread s.running).usedMathProcessor = false ∧ a ∉ s.live ∧
          (fpuTrap fpu s block).area = Function.update s.area a fpu.zero ∧
          (fpuTrap fpu s block).live = a :: s.live) := by
  cases hused : (s.thread s.running).usedMathProcessor with
  | true =>
    obtain ⟨a, ha⟩ := Option.ne_none_iff_exists'.mp (hflags.fsave hused)
    refine ⟨a, ?_, .inl ⟨ha, ?_, ?_⟩⟩ <;> simp [fpuTrap, hused, State.modify, ← ha]
  | false =>
    cases hfsave : (s.thread s.running).fsave with
    | some a =>
      refine ⟨a, ?_, .inl ⟨rfl, ?_, ?_⟩⟩ <;>
        simp [fpuTrap, hused, arPrepareFpuForThread, hfsave, State.modify]
    | none =>
      refine ⟨block, ?_, .inr ⟨rfl, hblock, ?_, ?_⟩⟩ <;>
        simp [fpuTrap, hused, arPrepareFpuForThread, hfsave, State.modify]

lemma fpuTrap_rest (fpu : Coprocessor φ) (s : State φ) (block : Ptr) :
    (fpuTrap fpu s block).threads = s.threads ∧ (fpuTrap fpu s block).running = s.running ∧
      (fpuTrap fpu s block).regs = s.regs ∧ (fpuTrap fpu s block).ts = s.ts := by
  cases hused : (s.thread s.running).usedMathProcessor <;>
    cases hfsave : (s.thread s.running).fsave <;>
    simp [fpuTrap, hused, arPrepareFpuForThread, hfsave, State.modify]

lemma Isolated.trap (h : Isolated fpu s c) {block : Ptr} (hts : s.ts = true)
    (hdead : (s.thread s.running).dead = false) (hblock : block ∉ s.live) :
    Isolated fpu (fpuTrap fpu s block) c := by
  have hflags := h.flags _ h.mem
  obtain ⟨a, hthread, harea⟩ := fpuTrap_spec fpu hflags hblock
  obtain ⟨hthreads, hrun, hregs, hts'⟩ := fpuTrap_rest fpu s block
  have hself := congrFun hthread s.running
  rw [Function.update_self] at hself
  have hidle : (s.thread s.running).usedFpu = false := by simpa [hts] using h.ts
  have hhold := h.holds _ h.mem hdead
  refine h.of_others s.running ⟨?_, ?_, ?_, ?_⟩ (fun _ _ => rfl) (h.running.trans hrun.symm)
    (by rw [hrun, hthreads]; exact h.mem) (.inl hrun) ?ts ?idle ?alive ?flags ?fsave ?holds
  · exact fun t ht _ => hthreads ▸ ht
  · intro t hne
    rw [hthread, Function.update_of_ne hne]
  · intro t ht hne b hb
    have hlive := h.live t ht b hb
    rcases harea with ⟨-, harea, hl⟩ | ⟨-, hnew, harea, hl⟩
    · rw [harea, hl]
      exact ⟨rfl, hlive⟩
    · rw [harea, hl, Function.update_of_ne (ne_of_mem_of_not_mem hlive hnew)]
      exact ⟨rfl, List.mem_cons_of_mem _ hlive⟩
  · exact fun _ _ _ _ => hregs
  case ts =>
    rw [hts', hts, hrun, hself]
    simp [hidle]
  case idle => exact fun hne => absurd hrun.symm hne
  case alive =>
    rw [hrun, hself]
    exact fun _ => hdead
  case flags =>
    rw [hself]
    refine ⟨fun hu => ?_, fun _ => by simp, fun _ used hu => ⟨Option.some.inj hu, by simp⟩⟩
    rw [hidle] at hu
    cases hu
  case fsave =>
    rw [hself]
    rintro b ⟨⟩
    rcases harea with ⟨hfsave, -, hl⟩ | ⟨-, hnew, -, hl⟩
    · rw [hl]
      exact ⟨h.live _ h.mem a hfsave, h.fsave_ne h.mem hfsave⟩
    · rw [hl]
      exact ⟨List.mem_cons_self, fun t ht _ ha => hnew (h.live t ht a ha)⟩
  case holds =>
    rw [hself, hregs]
    refine fun _ => ⟨hhold.fresh, fun hm hu b hb => ?_, hhold.loaded⟩
    obtain rfl := Option.some.inj hb
    rcases harea with ⟨hfsave, harea, -⟩ | ⟨hno, -, -, -⟩
    · rw [harea]
      exact hhold.saved hm hu a hfsave
    · rw [hno] at hm
      cases hm

/-- The state in which the running thread has the registers. -/
def loaded (s : State φ) (regs : φ) : State φ :=
  { s.modify s.running ({ · with usedFpu := true, usedMathProcessor := true, handling := none })
    with ts := false, regs := regs }

/-- The rest of the handler loads the thread's contents. -/
lemma Isolated.fpuHandler_eq (h : Isolated fpu s c)
    (hhandling : (s.thread s.running).handling ≠ none) :
    fpuHandler fpu s = (.done, loaded s (c.contents s.running)) := by
  have hdead := h.alive hhandling
  have hflags := h.flags _ h.mem
  have hhold := h.holds _ h.mem hdead
  obtain ⟨used, hused⟩ := Option.ne_none_iff_exists'.mp hhandling
  obtain ⟨hmath, hfsave⟩ := hflags.handling hdead used hused
  obtain ⟨a, ha⟩ := Option.ne_none_iff_exists'.mp hfsave
  cases used with
  | true =>
    have hidle : (s.thread s.running).usedFpu = false := by
      by_contra hu
      exact hhandling (hflags.used (by simpa using hu)).2.2
    rw [← hhold.saved hmath hidle a ha]
    simp [fpuHandler, hused, fpuRestore, ha, loaded, State.modify, hmath]
  | false =>
    rw [hhold.fresh hmath]
    simp [fpuHandler, hused, loaded, State.modify]

lemma Isolated.finish (h : Isolated fpu s c) (hhandling : (s.thread s.running).handling ≠ none) :
    (fpuHandler fpu s).1 = .done ∧ Isolated fpu (fpuHandler fpu s).2 c := by
  have hdead := h.alive hhandling
  obtain ⟨used, hused⟩ := Option.ne_none_iff_exists'.mp hhandling
  have hfsave := ((h.flags _ h.mem).handling hdead used hused).2
  have hself : (loaded s (c.contents s.running)).thread s.running =
      { s.thread s.running with usedFpu := true, usedMathProcessor := true, handling := none } := by
    simp [loaded]
  rw [h.fpuHandler_eq hhandling]
  refine ⟨rfl, h.of_others s.running ⟨fun _ ht _ => ht, ?_, ?_, ?_⟩ (fun _ _ => rfl)
    h.running h.mem (.inl rfl) ?ts ?idle ?alive ?flags ?fsave ?holds⟩
  · intro t hne
    simp [loaded, hne]
  · exact fun t ht _ a ha => ⟨rfl, h.live t ht a ha⟩
  · intro t ht hne hu
    rw [h.idle t ht hne] at hu
    cases hu
  case ts =>
    show false = !((loaded s (c.contents s.running)).thread s.running).usedFpu
    rw [hself]
    rfl
  case idle => exact fun hne => absurd rfl hne
  case alive =>
    show ((loaded s (c.contents s.running)).thread s.running).handling ≠ none → _
    rw [hself]
    exact fun hne => absurd rfl hne
  case flags =>
    rw [hself]
    exact ⟨fun _ => ⟨rfl, hdead, rfl⟩, fun _ => hfsave, fun _ _ hu => by cases hu⟩
  case fsave =>
    rw [hself]
    exact fun a ha => ⟨h.live _ h.mem a ha, h.fsave_ne h.mem ha⟩
  case holds =>
    rw [hself]
    intro _
    constructor <;> simp [loaded]

/-- An instruction finds and changes the thread's own contents. -/
lemma Isolated.execute (h : Isolated fpu s c) (f : φ → φ) (hts : s.ts = false)
    (hdead : (s.thread s.running).dead = false) :
    s.regs = c.contents c.running ∧ Isolated fpu { s with regs := f s.regs }
      { c with contents :=
          Function.update c.contents c.running (f (c.contents c.running)) } := by
  have hused : (s.thread s.running).usedFpu = true := by simpa [hts] using h.ts
  have hregs : s.regs = c.contents c.running := by
    rw [h.running]
    exact (h.holds _ h.mem hdead).loaded hused
  have hflags := h.flags _ h.mem
  refine ⟨hregs, h.of_others s.running ⟨fun _ ht _ => ht, fun _ _ => rfl, ?_, ?_⟩ ?_
    h.running h.mem (.inl rfl) h.ts (fun hne => absurd rfl hne) h.alive hflags ?_ ?_⟩
  · exact fun t ht _ a ha => ⟨rfl, h.live t ht a ha⟩
  · intro t ht hne hu
    rw [h.idle t ht hne] at hu
    cases hu
  · intro t hne
    refine Function.update_of_ne ?_ _ _
    rwa [h.running]
  · exact fun a ha => ⟨h.live _ h.mem a ha, h.fsave_ne h.mem ha⟩
  · intro _
    have hmath := (hflags.used hused).1
    refine ⟨fun hm => ?_, fun _ hu => ?_, fun _ => ?_⟩
    · rw [hmath] at hm
      cases hm
    · rw [hused] at hu
      cases hu
    · show f s.regs = Function.update c.contents c.running _ s.running
      rw [← h.running, Function.update_self, hregs]

/-- The resources of a thread that does not use the coprocessor are its own. -/
lemma Isolated.terminate (h : Isolated fpu s c) (hthr : thr ∈ s.threads)
    (hrun : (s.thread s.running).handling = none)
    (hok : thr = s.running → (s.thread thr).usedFpu = false) :
    Isolated fpu (tmTerminateThread s thr) c := by
  have hflags := h.flags thr hthr
  have hused : (s.thread thr).usedFpu = false := by
    by_cases he : thr = s.running
    · exact hok he
    · exact h.idle thr hthr he
  have hstep : ∃ live, tmTerminateThread s thr = { s with
        thread := Function.update s.thread thr { s.thread thr with
          dead := true, fsave := none, usedMathProcessor := false }
        live := live } ∧
      ∀ a ∈ s.live, (s.thread thr).fsave ≠ some a → a ∈ live := by
    cases hfsave : (s.thread thr).fsave with
    | none =>
      have hmath : (s.thread thr).usedMathProcessor = false := by
        by_contra hm
        exact hflags.fsave (by simpa using hm) hfsave
      refine ⟨s.live, ?_, fun a ha _ => ha⟩
      simp [tmTerminateThread, arReleaseThreadResources, hfsave, State.modify, hmath]
    | some area =>
      refine ⟨s.live.erase area, ?_, fun a ha hne => ?_⟩
      · simp [tmTerminateThread, arReleaseThreadResources, hfsave, State.modify]
      · exact (List.mem_erase_of_ne fun he => hne (congrArg some he.symm)).mpr ha
  obtain ⟨live, hstep, hlive⟩ := hstep
  rw [hstep]
  refine h.of_others thr ⟨fun _ ht _ => ht, fun t hne => Function.update_of_ne hne _ _, ?_,
    fun _ _ _ _ => rfl⟩ (fun _ _ => rfl) h.running h.mem (.inl rfl) ?ts ?idle ?alive ?flags ?fsave
    ?holds
  · intro t ht hne a ha
    refine ⟨rfl, hlive a (h.live t ht a ha) fun hthra => ?_⟩
    exact h.fsave_ne hthr hthra t ht hne ha
  case ts =>
    refine h.ts.trans ?_
    by_cases he : s.running = thr
    · simp [he]
    · simp [Function.update_of_ne he]
  case idle => simp [hused]
  case alive =>
    by_cases he : s.running = thr
    · rw [he] at hrun
      simp [he, hrun]
    · simp [Function.update_of_ne he, hrun]
  case flags => constructor <;> simp [hused]
  case fsave => simp
  case holds => simp

/-- A switch saves what is in the registers and finds a place for it. -/
lemma Isolated.save (h : Isolated fpu s c) :
    (arCheckAndSaveFpu fpu s s.running).1 = .done ∧
      ∃ area regs, (arCheckAndSaveFpu fpu s s.running).2 = { s with
          thread := Function.update s.thread s.running
            { s.thread s.running with usedFpu := false }
          area := area, regs := regs, ts := true } ∧
        (∀ b, (s.thread s.running).fsave ≠ some b → area b = s.area b) ∧
        ((s.thread s.running).dead = false →
          Holds fpu { s.thread s.running with usedFpu := false } area regs
            (c.contents s.running)) := by
  have hflags := h.flags _ h.mem
  cases hused : (s.thread s.running).usedFpu with
  | false =>
    have hself : { s.thread s.running with usedFpu := false } = s.thread s.running := by
      rw [← hused]
    have hts : s.ts = true := by simpa [hused] using h.ts
    rw [hself, Function.update_eq_self, arCheckAndSaveFpu, if_neg (by simp [hused])]
    exact ⟨rfl, s.area, s.regs, by rw [← hts], fun _ _ => rfl, h.holds _ h.mem⟩
  | true =>
    have hmath := (hflags.used hused).1
    obtain ⟨a, ha⟩ := Option.ne_none_iff_exists'.mp (hflags.fsave hmath)
    refine ⟨by simp [arCheckAndSaveFpu, hused, fpuSave, ha],
      Function.update s.area a s.regs, fpu.initial, ?_, fun b hb => ?_, fun hdead => ?_⟩
    · simp [arCheckAndSaveFpu, hused, fpuSave, ha, State.modify]
    · refine Function.update_of_ne ?_ _ _
      rintro rfl
      exact hb ha
    · have hhold := h.holds _ h.mem hdead
      refine ⟨fun hm => ?_, fun _ _ b hb => ?_, fun hu => by cases hu⟩
      · rw [show (s.thread s.running).usedMathProcessor = false from hm] at hmath
        cases hmath
      · obtain rfl : a = b := Option.some.inj (ha.symm.trans hb)
        rw [Function.update_self]
        exact hhold.loaded hused

lemma Isolated.setNext (h : Isolated fpu s c) (next : Option Ptr) :
    Isolated fpu { s with next := next } c :=
  ⟨h.running, h.mem, h.ts, h.idle, h.alive, h.flags, h.live, h.inj, h.holds⟩

lemma Isolated.switch (h : Isolated fpu s c) {next : Ptr} (hnext : next ∈ s.threads)
    (hdead : (s.thread next).dead = false) :
    (arCheckAndSaveFpu fpu s s.running).1 = .done ∧
      Isolated fpu { (arCheckAndSaveFpu fpu s s.running).2 with running := next, next := none }
        { c with running := next } := by
  obtain ⟨hdone, area, regs, hstep, harea, hholds⟩ := h.save
  have hflags := h.flags _ h.mem
  rw [hstep]
  refine ⟨hdone, h.of_others s.running ⟨fun _ ht _ => ht,
    fun t hne => Function.update_of_ne hne _ _, ?_, ?_⟩ (fun _ _ => rfl) rfl hnext (.inr rfl)
    ?ts ?idle ?alive ?flags ?fsave ?holds⟩
  · intro t ht hne a ha
    exact ⟨harea a fun hrun => h.fsave_ne h.mem hrun t ht hne ha, h.live t ht a ha⟩
  · intro t ht hne hu
    rw [h.idle t ht hne] at hu
    cases hu
  case ts =>
    by_cases he : next = s.running
    · simp [he]
    · simp [Function.update_of_ne he, h.idle next hnext he]
  case idle => simp
  case alive =>
    by_cases he : next = s.running
    · rw [he] at hdead
      simp [he, hdead]
    · simp [Function.update_of_ne he, hdead]
  case flags =>
    simp only [Function.update_self]
    exact ⟨fun hu => (nomatch hu), hflags.fsave, hflags.handling⟩
  case fsave =>
    simp only [Function.update_self]
    exact fun a ha => ⟨h.live _ h.mem a ha, h.fsave_ne h.mem ha⟩
  case holds =>
    simp only [Function.update_self]
    exact hholds

/-- One allowed step returns what the private coprocessors return. -/
lemma Isolated.step (h : Isolated fpu s c) {e : Event φ} (hok : StepOk s e) :
    (step fpu s e).1 = (privateStep fpu c e).1 ∧
      Isolated fpu (step fpu s e).2 (privateStep fpu c e).2 := by
  obtain ⟨hproper, hself⟩ := hok
  cases e with
  | create thr => exact ⟨rfl, h.create hproper⟩
  | switch next => exact (h.setNext (some next)).switch hproper.1 hproper.2
  | interrupt next =>
    cases next with
    | none => exact ⟨rfl, h.setNext none⟩
    | some next => exact (h.setNext (some next)).switch hproper.1 hproper.2
  | trap block =>
    obtain ⟨hts, hdead, -, hblock⟩ := hproper
    exact ⟨rfl, h.trap hts hdead hblock⟩
  | finish => exact h.finish hproper
  | execute f =>
    obtain ⟨hregs, hnext⟩ := h.execute f hproper.1 hproper.2.1
    exact ⟨congrArg Result.seen hregs, hnext⟩
  | terminate thr => exact ⟨rfl, h.terminate hproper.1 hproper.2 hself⟩

/-! ## Runs -/

lemma privateStep_ne_nullArea (c : Private φ) (e : Event φ) :
    (privateStep fpu c e).1 ≠ .nullArea := by
  cases e with
  | interrupt next => cases next <;> simp [privateStep]
  | _ => simp [privateStep]

lemma nullArea_not_mem (c : Private φ) (es : List (Event φ)) :
    Result.nullArea ∉ outputs (privateStep fpu) c es := by
  induction es generalizing c with
  | nil => exact List.not_mem_nil
  | cons e es ih =>
    rw [outputs, List.mem_cons, not_or]
    exact ⟨(privateStep_ne_nullArea c e).symm, ih _⟩

/-- As long as no thread terminates itself while it uses the coprocessor, every instruction finds
the thread's own contents, and no save or restore meets a null area. -/
theorem run_isolated (fpu : Coprocessor φ) (thr : Ptr) (area : Ptr → φ) (regs : φ)
    (es : List (Event φ)) (h : Guarded (next (step fpu)) StepOk (start thr area regs) es) :
    outputs (step fpu) (start thr area regs) es =
        outputs (privateStep fpu) (startPrivate fpu thr) es ∧
      Result.nullArea ∉ outputs (step fpu) (start thr area regs) es := by
  have hout : outputs (step fpu) (start thr area regs) es =
      outputs (privateStep fpu) (startPrivate fpu thr) es :=
    (h.simulation (Isolated fpu) (fun s c e hs hok => hs.step hok) (start_isolated thr area regs)).1
  rw [hout]
  exact ⟨rfl, nullArea_not_mem _ es⟩

/-- Two threads that count in the coprocessor, an interrupt in the handler, and the end of one. -/
def counting : List (Event ℕ) :=
  [.create 0x20, .trap 0x1000, .interrupt (some 0x20), .trap 0x2000, .finish, .execute (· + 5),
    .switch 0x10, .finish, .execute (· + 1), .interrupt (some 0x20), .trap 0x3000, .finish,
    .execute (· + 2), .switch 0x10, .terminate 0x20, .trap 0x3000, .finish, .execute (· + 3)]

theorem run_isolated_counting :
    outputs (step ⟨0, 0⟩) (start 0x10 (fun _ => 9) 7) counting =
        outputs (privateStep ⟨0, 0⟩) (startPrivate ⟨0, 0⟩ 0x10) counting ∧
      Result.nullArea ∉ outputs (step ⟨0, 0⟩) (start 0x10 (fun _ => 9) 7) counting := by
  exact run_isolated ⟨0, 0⟩ 0x10 (fun _ => 9) 7 counting (by decide +kernel)

/-- A thread that uses the coprocessor and terminates itself is saved without an area. -/
theorem run_not_isolated :
    ¬ ∀ (thr : Ptr) (area : Ptr → ℕ) (regs : ℕ) (es : List (Event ℕ)),
      Guarded (next (step ⟨0, 0⟩)) Proper (start thr area regs) es →
      outputs (step ⟨0, 0⟩) (start thr area regs) es =
          outputs (privateStep ⟨0, 0⟩) (startPrivate ⟨0, 0⟩ thr) es ∧
        Result.nullArea ∉ outputs (step ⟨0, 0⟩) (start thr area regs) es := by
  intro h
  have hproper : Guarded (next (step ⟨0, 0⟩)) Proper (start 0x10 (fun _ => 9) 7)
      [.create 0x20, .trap 0x1000, .finish, .execute (· + 1), .terminate 0x10, .switch 0x20] := by
    decide
  have hnull := (h _ _ _ _ hproper).2
  revert hnull
  decide

end Sgos.Fpu
