import Sgos.Thread

/-!
# Clocks, and the choice of the next thread

Only `TmSchedule` gives a thread a new quantum: the one that it chooses, which is ready or idle. The
chains stay as they are.
-/
namespace Sgos.ThreadClocks
open LinkedChain Scheduler Thread

variable {s s' : State} {lists : Link → List Ptr} {cur t : Ptr}

/-! ## Clocks and chains -/

lemma clockOf_setClock (s : State) (t u : Ptr) (c : Int32) :
    clockOf (s.setClock t c) u = if u = t then c else clockOf s u := by
  unfold clockOf State.setClock State.modify
  by_cases h : u = t
  · simp [h]
  · simp [h]

/-- Writing the links or the state of a thread keeps its clock. -/
lemma clockOf_modify (s : State) (t : Ptr) {f : KThread → KThread}
    (hf : ∀ k, (f k).scheduleInformation.clock = k.scheduleInformation.clock) :
    clockOf (s.modify t f) = clockOf s := by
  funext u
  unfold clockOf State.modify
  by_cases h : u = t
  · simp [h, hf]
  · simp [h]

@[simp] lemma clockOf_setNext (s : State) (t : Ptr) (v : Option Ptr) :
    clockOf (s.setNext t v) = clockOf s := clockOf_modify s t fun _ => rfl

@[simp] lemma clockOf_setPrev (s : State) (t : Ptr) (v : Option Ptr) :
    clockOf (s.setPrev t v) = clockOf s := clockOf_modify s t fun _ => rfl

@[simp] lemma clockOf_setState (s : State) (t : Ptr) (v : ThreadState) :
    clockOf (s.setState t v) = clockOf s := clockOf_modify s t fun _ => rfl

@[simp] lemma clockOf_setHead (s : State) (l : Link) (v : Option Ptr) :
    clockOf (s.setHead l v) = clockOf s := rfl

lemma clockOf_removeFromLink (s : State) (thr : Ptr) (l : Option Link) :
    clockOf (removeFromLink s thr l) = clockOf s := by
  cases l with
  | none => rfl
  | some l =>
    rw [removeFromLink]
    split
    · rfl
    · split <;> dsimp only <;> split <;> simp

lemma clockOf_putToLink (s : State) (thr : Ptr) (l : Option Link) :
    clockOf (putToLink s thr l) = clockOf s := by
  cases l with
  | none => rfl
  | some l => cases hh : s.head l <;> simp [putToLink, hh]

@[simp] lemma clockOf_tmSetThreadState (s : State) (thr : Ptr) (st : ThreadState) :
    clockOf (tmSetThreadState s thr st) = clockOf s := by
  unfold tmSetThreadState
  split_ifs
  · rfl
  · simp [clockOf_putToLink, clockOf_removeFromLink]

lemma chainsOf_congr (h : ChainsOf s lists) (hn : s'.next = s.next) (hp : s'.prev = s.prev)
    (hh : ∀ l, l ≠ .running → s'.head l = s.head l) (hst : s'.stateOf = s.stateOf) :
    ChainsOf s' lists where
  chain l hl := by
    rw [hn, hp, hh l hl]
    exact h.chain l hl
  mem l hl t := by
    rw [hst]
    exact h.mem l hl t
  notRunning t := by
    rw [hst]
    exact h.notRunning t

lemma chainsOf_setClock (h : ChainsOf s lists) (t : Ptr) (c : Int32) :
    ChainsOf (s.setClock t c) lists :=
  chainsOf_congr h (by simp) (by simp) (fun _ _ => by simp) (by simp)

/-! ## The next thread -/

/-- The ready thread that `TmSchedule` finds. -/
def nextReady (s : State) (cur : Ptr) : Option Ptr :=
  match if s.stateOf cur = .ready then s.next cur else none with
  | some t => if s.stateOf t = .ready then some t else s.head .ready
  | none => s.head .ready

/-- `TmSchedule` takes a ready thread, or else the idle one. -/
lemma tmSchedule_eq (s : State) (cur : Ptr) : tmSchedule s cur =
    match nextReady s cur with
    | some t => switchThread (s.setClock t 5) cur t
    | none =>
        match s.head .idle with
        | some t => switchThread (s.setClock t 1) cur t
        | none => s := rfl

lemma stateOf_head (h : ChainsOf s lists) {st : ThreadState} {l : Link} (hl : l ≠ .running)
    (hc : getThreadChain st = some l) (ht : s.head l = some t) : s.stateOf t = st := by
  have hmem : t ∈ lists l := List.mem_of_head? ((h.chain l hl).head_eq.symm.trans ht)
  exact getThreadChain_injective ((h.mem l hl t).mp hmem) hc

lemma stateOf_nextReady (h : ChainsOf s lists) (ht : nextReady s cur = some t) :
    s.stateOf t = .ready := by
  have hhead (hr : s.head .ready = some t) : s.stateOf t = .ready :=
    stateOf_head h (by decide) rfl hr
  unfold nextReady at ht
  split at ht
  · split_ifs at ht with hready
    · exact Option.some.inj ht ▸ hready
    · exact hhead ht
  · exact hhead ht

lemma chainsOf_switchThread (h : ChainsOf s lists) (cur thr : Ptr) :
    ChainsOf (switchThread s cur thr) lists := by
  unfold switchThread
  split_ifs
  · exact h
  · exact chainsOf_congr h rfl rfl (fun _ _ => rfl) rfl
  · refine chainsOf_congr h rfl rfl (fun l hl => ?_) rfl
    exact Function.update_of_ne hl _ _

lemma clockOf_switchThread (s : State) (cur thr : Ptr) :
    clockOf (switchThread s cur thr) = clockOf s := by
  unfold switchThread
  split_ifs <;> rfl

lemma chainsOf_tmSchedule (h : ChainsOf s lists) (cur : Ptr) :
    ChainsOf (tmSchedule s cur) lists := by
  rw [tmSchedule_eq]
  split
  · exact chainsOf_switchThread (chainsOf_setClock h _ _) _ _
  · split
    · exact chainsOf_switchThread (chainsOf_setClock h _ _) _ _
    · exact h

/-- A thread that is neither ready nor idle keeps its clock. -/
lemma clockOf_tmSchedule (h : ChainsOf s lists) (cur : Ptr) (hready : s.stateOf t ≠ .ready)
    (hidle : s.stateOf t ≠ .idle) : clockOf (tmSchedule s cur) t = clockOf s t := by
  rw [tmSchedule_eq]
  split
  next thr hthr =>
    have hne : t ≠ thr := by
      rintro rfl
      exact hready (stateOf_nextReady h hthr)
    rw [clockOf_switchThread, clockOf_setClock, if_neg hne]
  next =>
    split
    next thr hthr =>
      have hne : t ≠ thr := by
        rintro rfl
        exact hidle (stateOf_head h (by decide) rfl hthr)
      rw [clockOf_switchThread, clockOf_setClock, if_neg hne]
    next => rfl

end Sgos.ThreadClocks
