import Sgos.GuardedRun
import Sgos.LinkedChain
import Sgos.Machine
import Mathlib.Tactic.CasesM

/-!
# The scheduler's thread chains

`tmSetThreadState` is the embedding of `TmSetThreadState` (kernel/tm/sched.c): it takes a thread
out of the `ThreadingBox` chain of its old state and puts it at the head of the chain of the new
one, by writes to the intrusive links. The chains stay well formed over every run.
-/
namespace Sgos.Scheduler
open GuardedRun LinkedChain

inductive ThreadState
  | init | ready | running | paused | sleep | wait | dead | idle
  deriving DecidableEq, Repr

/-- The fields of `THREAD_BOX` that head a chain (`running` is a plain pointer there). -/
inductive Link
  | running | ready | sleep | paused | dead | wait | idle
  deriving DecidableEq, Repr

structure ScheduleInfo where
  clock : Int32
  prev : Option Ptr
  next : Option Ptr
  deriving DecidableEq, Repr

/-- The part of a `KThread` that the scheduler reads and writes. -/
structure KThread where
  threadState : ThreadState
  scheduleInformation : ScheduleInfo
  isInterrupted : Bool
  deriving DecidableEq, Repr

/-- `RtlZeroMemory` on a new thread leaves it in `TS_INIT` with null links. -/
def KThread.zero : KThread := ⟨.init, ⟨0, none, none⟩, false⟩

structure ThreadBox where
  next : Option Ptr
  link : Link → Option Ptr

structure State where
  box : ThreadBox
  thread : Ptr → KThread

namespace State

/-- The scheduling state of a thread. -/
def stateOf (s : State) (t : Ptr) : ThreadState := (s.thread t).threadState

/-- The `ScheduleInformation.next` links of all threads. -/
def next (s : State) (t : Ptr) : Option Ptr := (s.thread t).scheduleInformation.next

/-- The `ScheduleInformation.prev` links of all threads. -/
def prev (s : State) (t : Ptr) : Option Ptr := (s.thread t).scheduleInformation.prev

def head (s : State) (l : Link) : Option Ptr := s.box.link l

def modify (s : State) (t : Ptr) (f : KThread → KThread) : State :=
  { s with thread := Function.update s.thread t (f (s.thread t)) }

def setNext (s : State) (t : Ptr) (v : Option Ptr) : State :=
  s.modify t fun k => { k with scheduleInformation.next := v }

def setPrev (s : State) (t : Ptr) (v : Option Ptr) : State :=
  s.modify t fun k => { k with scheduleInformation.prev := v }

def setState (s : State) (t : Ptr) (v : ThreadState) : State :=
  s.modify t fun k => { k with threadState := v }

def setClock (s : State) (t : Ptr) (v : Int32) : State :=
  s.modify t fun k => { k with scheduleInformation.clock := v }

def setHead (s : State) (l : Link) (v : Option Ptr) : State :=
  { s with box := { s.box with link := Function.update s.box.link l v } }

section Fields
variable (s : State) (t : Ptr) (l : Link) (v : Option Ptr) (st : ThreadState) (c : Int32)

@[simp] theorem setNext_next : (s.setNext t v).next = Function.update s.next t v := by
  funext u; by_cases h : u = t <;> simp [setNext, modify, next, Function.update, h]
@[simp] theorem setNext_prev : (s.setNext t v).prev = s.prev := by
  funext u; by_cases h : u = t <;> simp [setNext, modify, prev, Function.update, h]
@[simp] theorem setNext_stateOf : (s.setNext t v).stateOf = s.stateOf := by
  funext u; by_cases h : u = t <;> simp [setNext, modify, stateOf, Function.update, h]
@[simp] theorem setNext_head : (s.setNext t v).head = s.head := rfl
@[simp] theorem setPrev_next : (s.setPrev t v).next = s.next := by
  funext u; by_cases h : u = t <;> simp [setPrev, modify, next, Function.update, h]
@[simp] theorem setPrev_prev : (s.setPrev t v).prev = Function.update s.prev t v := by
  funext u; by_cases h : u = t <;> simp [setPrev, modify, prev, Function.update, h]
@[simp] theorem setPrev_stateOf : (s.setPrev t v).stateOf = s.stateOf := by
  funext u; by_cases h : u = t <;> simp [setPrev, modify, stateOf, Function.update, h]
@[simp] theorem setPrev_head : (s.setPrev t v).head = s.head := rfl
@[simp] theorem setState_next : (s.setState t st).next = s.next := by
  funext u; by_cases h : u = t <;> simp [setState, modify, next, Function.update, h]
@[simp] theorem setState_prev : (s.setState t st).prev = s.prev := by
  funext u; by_cases h : u = t <;> simp [setState, modify, prev, Function.update, h]
@[simp] theorem setState_stateOf :
    (s.setState t st).stateOf = Function.update s.stateOf t st := by
  funext u; by_cases h : u = t <;> simp [setState, modify, stateOf, Function.update, h]
@[simp] theorem setState_head : (s.setState t st).head = s.head := rfl
@[simp] theorem setClock_next : (s.setClock t c).next = s.next := by
  funext u; by_cases h : u = t <;> simp [setClock, modify, next, Function.update, h]
@[simp] theorem setClock_prev : (s.setClock t c).prev = s.prev := by
  funext u; by_cases h : u = t <;> simp [setClock, modify, prev, Function.update, h]
@[simp] theorem setClock_stateOf : (s.setClock t c).stateOf = s.stateOf := by
  funext u; by_cases h : u = t <;> simp [setClock, modify, stateOf, Function.update, h]
@[simp] theorem setClock_head : (s.setClock t c).head = s.head := rfl
@[simp] theorem setHead_next : (s.setHead l v).next = s.next := rfl
@[simp] theorem setHead_prev : (s.setHead l v).prev = s.prev := rfl
@[simp] theorem setHead_stateOf : (s.setHead l v).stateOf = s.stateOf := rfl
@[simp] theorem setHead_head : (s.setHead l v).head = Function.update s.head l v := rfl

end Fields
end State

/-- `GetThreadChain`: `TS_INIT` has no chain. -/
def getThreadChain : ThreadState → Option Link
  | .init => none
  | .dead => some .dead
  | .running => some .running
  | .ready => some .ready
  | .sleep => some .sleep
  | .paused => some .paused
  | .wait => some .wait
  | .idle => some .idle

/-- The first half of `TmSetThreadState`: take the thread out of the chain of its old state. -/
def removeFromLink (s : State) (thr : Ptr) : Option Link → State
  | none => s
  | some l =>
      match s.head l with
      | none => s
      | some _ =>
          let s := match s.next thr with
            | some n => s.setPrev n (s.prev thr)
            | none => s
          match s.prev thr with
          | some p => s.setNext p (s.next thr)
          | none => s.setHead l (s.next thr)

/-- The second half: put it at the head of the chain of its new state. -/
def putToLink (s : State) (thr : Ptr) : Option Link → State
  | none => s
  | some l =>
      let s := s.setNext thr (s.head l)
      let s := match s.head l with
        | some h => s.setPrev h (some thr)
        | none => s
      s.setHead l (some thr)

def tmSetThreadState (s : State) (thr : Ptr) (st : ThreadState) : State :=
  if s.stateOf thr = st then s
  else
    let s := removeFromLink s thr (getThreadChain (s.stateOf thr))
    let s := s.setPrev thr none
    let s := putToLink s thr (getThreadChain st)
    s.setState thr st

/-- `TmInitializeScheduler` zeroes the box; some thread is then made the running one. -/
def initial (running : Option Ptr) : State where
  box := { next := none, link := Function.update (fun _ => none) .running running }
  thread := fun _ => KThread.zero

/-- The chains hold each thread where its state says. `lists` names the members of each chain. -/
structure ChainsOf (s : State) (lists : Link → List Ptr) : Prop where
  chain : ∀ l, l ≠ .running → Chain s.next s.prev (s.head l) (lists l)
  mem : ∀ l, l ≠ .running → ∀ t, t ∈ lists l ↔ getThreadChain (s.stateOf t) = some l
  notRunning : ∀ t, s.stateOf t ≠ .running

def WellFormed (s : State) : Prop := ∃ lists, ChainsOf s lists

theorem getThreadChain_injective {a b : ThreadState} {l : Link} (ha : getThreadChain a = some l)
    (hb : getThreadChain b = some l) : a = b := by
  cases a <;> cases b <;> simp_all [getThreadChain] <;> (subst l; simp_all)

theorem getThreadChain_ne_running {st : ThreadState} {l : Link} (hst : st ≠ .running)
    (h : getThreadChain st = some l) : l ≠ .running := by
  rintro rfl
  exact hst (getThreadChain_injective h rfl)

theorem getThreadChain_of_ne_init {st : ThreadState} (h : st ≠ .init) :
    ∃ l, getThreadChain st = some l := by
  cases st <;> first | exact ⟨_, rfl⟩ | exact absurd rfl h

/-- On a chain that holds the thread, the removal is the unlinking of a doubly linked chain. -/
theorem removeFromLink_links {s : State} {thr : Ptr} {l : Link} {xs : List Ptr}
    (h : Chain s.next s.prev (s.head l) xs) (hx : thr ∈ xs) :
    (removeFromLink s thr (some l)).next = unlinkNext s.next s.prev thr ∧
    (removeFromLink s thr (some l)).prev = unlinkPrev s.next s.prev thr ∧
    (removeFromLink s thr (some l)).head =
      Function.update s.head l (unlinkEnd s.prev s.next thr (s.head l)) ∧
    (removeFromLink s thr (some l)).stateOf = s.stateOf := by
  have hhead : ∃ y, s.head l = some y := by
    cases xs with
    | nil => simp at hx
    | cons y ys => exact ⟨y, h.head_eq⟩
  obtain ⟨y, hy⟩ := hhead
  -- the removal reads `prev` of the thread after writing `prev` of its successor
  cases hn : s.next thr with
  | none =>
    cases hp : s.prev thr <;>
      simp [removeFromLink, hy, hn, hp, unlinkNext, unlinkPrev, unlinkEnd]
  | some n =>
    have hne : thr ≠ n := (h.next_ne hx hn).symm
    cases hp : s.prev thr <;>
      simp [removeFromLink, hy, hn, hp, unlinkNext, unlinkPrev, unlinkEnd, hne]

theorem putToLink_links (s : State) (thr : Ptr) (l : Link) :
    (putToLink s thr (some l)).next = Function.update s.next thr (s.head l) ∧
    (putToLink s thr (some l)).prev =
      (match s.head l with
        | some h => Function.update s.prev h (some thr)
        | none => s.prev) ∧
    (putToLink s thr (some l)).head = Function.update s.head l (some thr) ∧
    (putToLink s thr (some l)).stateOf = s.stateOf := by
  cases h : s.head l <;> simp [putToLink, h]

/-- The chains as they are between the two halves: `thr` is on none of them. -/
structure Detached (s : State) (thr : Ptr) (lists : Link → List Ptr) : Prop where
  chain : ∀ l, l ≠ .running → Chain s.next s.prev (s.head l) (lists l)
  mem : ∀ l, l ≠ .running → ∀ t, t ∈ lists l ↔ t ≠ thr ∧ getThreadChain (s.stateOf t) = some l

theorem Detached.not_mem {s : State} {thr : Ptr} {lists : Link → List Ptr}
    (h : Detached s thr lists) {l : Link} (hl : l ≠ .running) : thr ∉ lists l :=
  fun hm => ((h.mem l hl thr).mp hm).1 rfl

theorem ChainsOf.disjoint {s : State} {lists : Link → List Ptr} (h : ChainsOf s lists)
    {l l' : Link} (hl : l ≠ .running) (hl' : l' ≠ .running) (hne : l' ≠ l) {t : Ptr}
    (ht : t ∈ lists l') : t ∉ lists l := by
  intro hm
  have h1 := (h.mem l hl t).mp hm
  have h2 := (h.mem l' hl' t).mp ht
  exact hne (Option.some.inj (h2.symm.trans h1))

theorem ChainsOf.removed {s : State} {lists : Link → List Ptr} (h : ChainsOf s lists)
    (thr : Ptr) :
    Detached (removeFromLink s thr (getThreadChain (s.stateOf thr))) thr
        (fun l => (lists l).erase thr) ∧
      (removeFromLink s thr (getThreadChain (s.stateOf thr))).stateOf = s.stateOf := by
  have hmem : ∀ l, l ≠ .running → ∀ t, t ∈ (lists l).erase thr ↔
      t ≠ thr ∧ getThreadChain (s.stateOf t) = some l := by
    intro l hl t
    rw [(h.chain l hl).nodup.mem_erase_iff, h.mem l hl t]
  cases hc : getThreadChain (s.stateOf thr) with
  | none =>
    have hnot : ∀ l, l ≠ .running → thr ∉ lists l := by
      intro l hl hm
      rw [h.mem l hl thr, hc] at hm
      simp at hm
    refine ⟨⟨fun l hl => ?_, hmem⟩, rfl⟩
    rw [List.erase_of_not_mem (hnot l hl)]
    exact h.chain l hl
  | some l =>
    have hl := getThreadChain_ne_running (h.notRunning thr) hc
    have hx : thr ∈ lists l := (h.mem l hl thr).mpr hc
    obtain ⟨hn, hp, hh, hst⟩ := removeFromLink_links (h.chain l hl) hx
    refine ⟨⟨fun l' hl' => ?_, ?_⟩, hst⟩
    · rw [hn, hp, hh]
      by_cases heq : l' = l
      · subst heq
        rw [Function.update_self]
        exact (h.chain l' hl').unlink hx
      · rw [Function.update_of_ne heq]
        have hthr : thr ∉ lists l' := h.disjoint hl' hl (Ne.symm heq) hx
        rw [List.erase_of_not_mem hthr]
        refine (h.chain l' hl').congr ?_ ?_
        · exact fun t ht => (h.chain l hl).unlinkNext_of_not_mem hx (h.disjoint hl hl' heq ht)
        · exact fun t ht => (h.chain l hl).unlinkPrev_of_not_mem hx (h.disjoint hl hl' heq ht)
    · rw [hst]
      exact hmem

theorem Detached.setPrev {s : State} {thr : Ptr} {lists : Link → List Ptr}
    (h : Detached s thr lists) (v : Option Ptr) : Detached (s.setPrev thr v) thr lists := by
  refine ⟨fun l hl => ?_, by simpa using h.mem⟩
  rw [State.setPrev_next, State.setPrev_prev, State.setPrev_head]
  refine (h.chain l hl).congr (fun _ _ => rfl) fun t ht => Function.update_of_ne ?_ _ _
  rintro rfl
  exact h.not_mem hl ht

/-- Putting a detached thread on the chain of its new state restores the invariant. -/
theorem Detached.put {s : State} {thr : Ptr} {lists : Link → List Ptr}
    (h : Detached s thr lists) (hrun : ∀ t, s.stateOf t ≠ .running) (hprev : s.prev thr = none)
    {st : ThreadState} {l : Link} (hst : st ≠ .running) (hc : getThreadChain st = some l) :
    ChainsOf ((putToLink s thr (some l)).setState thr st)
      (Function.update lists l (thr :: lists l)) := by
  have hl := getThreadChain_ne_running hst hc
  obtain ⟨hn, hp, hh, hso⟩ := putToLink_links s thr l
  have hheadmem : ∀ y, s.head l = some y → y ∈ lists l := fun y hy =>
    List.mem_of_head? ((h.chain l hl).head_eq.symm.trans hy)
  have hprevs : ∀ t, s.head l ≠ some t → (putToLink s thr (some l)).prev t = s.prev t := by
    intro t ht
    rw [hp]
    cases hd : s.head l with
    | none => rfl
    | some y =>
      refine Function.update_of_ne ?_ _ _
      rintro rfl
      exact ht hd
  constructor
  · intro l' hl'
    rw [State.setState_next, State.setState_prev, State.setState_head, hh]
    by_cases heq : l' = l
    · subst heq
      rw [Function.update_self, Function.update_self]
      refine (h.chain l' hl').push (h.not_mem hl') ?_ ?_ ?_ ?_ ?_
      · rw [hn, Function.update_self]
      · rw [hprevs thr fun he => h.not_mem hl' (hheadmem thr he), hprev]
      · intro y hy
        simp [hp, hy]
      · intro y hy
        rw [hn, Function.update_of_ne]
        rintro rfl
        exact h.not_mem hl' hy
      · exact fun y _ hne => hprevs y hne
    · rw [Function.update_of_ne heq, Function.update_of_ne heq]
      refine (h.chain l' hl').congr ?_ ?_
      · intro t ht
        rw [hn, Function.update_of_ne]
        rintro rfl
        exact h.not_mem hl' ht
      · intro t ht
        refine hprevs t fun he => heq ?_
        have h1 := ((h.mem l hl t).mp (hheadmem t he)).2
        have h2 := ((h.mem l' hl' t).mp ht).2
        exact Option.some.inj (h2.symm.trans h1)
  · intro l' hl' t
    rw [State.setState_stateOf, hso]
    by_cases heq : l' = l
    · subst heq
      rw [Function.update_self, List.mem_cons, h.mem l' hl' t]
      by_cases ht : t = thr
      · simp [ht, hc]
      · simp [ht]
    · rw [Function.update_of_ne heq, h.mem l' hl' t]
      by_cases ht : t = thr
      · simp [ht, hc, Ne.symm heq]
      · simp [ht]
  · intro t
    rw [State.setState_stateOf, hso]
    by_cases ht : t = thr
    · simpa [ht] using hst
    · simpa [ht] using hrun t

/-- One call of `TmSetThreadState` keeps the chains well formed. -/
theorem tmSetThreadState_wellFormed {s : State} (h : WellFormed s) (thr : Ptr) {st : ThreadState}
    (hinit : st ≠ .init) (hrun : st ≠ .running) : WellFormed (tmSetThreadState s thr st) := by
  obtain ⟨lists, hl⟩ := h
  unfold tmSetThreadState
  split_ifs
  · exact ⟨lists, hl⟩
  · obtain ⟨hd, hst⟩ := hl.removed thr
    obtain ⟨l, hc⟩ := getThreadChain_of_ne_init hinit
    simp only [hc]
    refine ⟨_, (hd.setPrev none).put ?_ (by simp) hrun hc⟩
    intro t
    rw [State.setPrev_stateOf, hst]
    exact hl.notRunning t

theorem initial_wellFormed (running : Option Ptr) : WellFormed (initial running) := by
  refine ⟨fun _ => [], ⟨fun l hl => ?_, ?_, ?_⟩⟩
  · have hhead : (initial running).head l = none := by
      simp [initial, State.head, Function.update_of_ne hl]
    rw [hhead]
    exact Chain.nil
  · intro l _ t
    simp [initial, State.stateOf, KThread.zero, getThreadChain]
  · intro t
    simp [initial, State.stateOf, KThread.zero]

/-- The states that `TmSetThreadState` is called with. -/
abbrev TargetState := {st : ThreadState // st ≠ .init ∧ st ≠ .running}

/-- A call of `TmSetThreadState` as an event of a run. -/
def step (s : State) (e : Ptr × TargetState) : State := tmSetThreadState s e.1 e.2.1

theorem run_wellFormed (running : Option Ptr) (es : List (Ptr × TargetState)) :
    WellFormed (run step (initial running) es) :=
  run_invariant WellFormed (fun _ e hs => tmSetThreadState_wellFormed hs e.1 e.2.2.1 e.2.2.2)
    (initial_wellFormed running) es

/-- Over every run from threads in `TS_INIT`, each chain of the box is a doubly linked list
without cycles, and a thread that has left `TS_INIT` is on the chain of its state, once, and on
no other. -/
theorem run_threads_on_their_chain (running : Option Ptr) (es : List (Ptr × TargetState)) :
    ∃ lists : Link → List Ptr,
      (∀ l, l ≠ .running →
        Chain (run step (initial running) es).next (run step (initial running) es).prev
          ((run step (initial running) es).head l) (lists l)) ∧
      ∀ t, (run step (initial running) es).stateOf t ≠ .init →
        ∃ l, getThreadChain ((run step (initial running) es).stateOf t) = some l ∧
          l ≠ .running ∧ (lists l).count t = 1 ∧
          ∀ l', l' ≠ .running → l' ≠ l → t ∉ lists l' := by
  obtain ⟨lists, h⟩ := run_wellFormed running es
  refine ⟨lists, h.chain, fun t ht => ?_⟩
  obtain ⟨l, hc⟩ := getThreadChain_of_ne_init ht
  have hl := getThreadChain_ne_running (h.notRunning t) hc
  have hm : t ∈ lists l := (h.mem l hl t).mpr hc
  refine ⟨l, hc, hl, List.count_eq_one_of_mem (h.chain l hl).nodup hm, ?_⟩
  exact fun l' hl' hne hm' => h.disjoint hl hl' hne hm' hm

end Sgos.Scheduler
