import Mathlib.Data.List.Rotate
import Sgos.ThreadClocks

/-!
# Round robin

`TmSchedule` goes on behind the running thread in the ready chain, and from the end of the chain to
its head. So the calls of the threads that run go round the chain.
-/
namespace Sgos.RoundRobin
open LinkedChain Scheduler Thread ThreadClocks

variable {s : State} {lists : Link → List Ptr} {cur : Ptr} {i : ℕ}

/-- The thread that `TmSchedule` chooses. -/
def chosen (s : State) (cur : Ptr) : Option Ptr := (nextReady s cur).or (s.head .idle)

/-- A call of `TmSchedule` by the running thread. -/
def turn (s : State) : State := (s.head .running).elim s (tmSchedule s)

/-- The threads that run after each of `n` calls. -/
def served (s : State) (n : ℕ) : List (Option Ptr) :=
  (List.range n).map fun k => (turn^[k + 1] s).head .running

/-! ## One call -/

/-- The chosen thread gets a quantum, and the processor. -/
lemma tmSchedule_chosen (s : State) (cur : Ptr) : ∃ quantum : Int32, tmSchedule s cur =
    (chosen s cur).elim s fun t => switchThread (s.setClock t quantum) cur t := by
  rw [tmSchedule_eq, chosen]
  cases nextReady s cur with
  | some t => exact ⟨5, rfl⟩
  | none =>
    refine ⟨1, ?_⟩
    cases s.head .idle <;> rfl

lemma nextReady_eq_none (h : nextReady s cur = none) : s.head .ready = none := by
  unfold nextReady at h
  split at h
  · split_ifs at h
    exact h
  · exact h

/-- Behind a ready thread follows the next one of the chain, and behind the last one the first. -/
lemma nextReady_getElem? (h : ChainsOf s lists) (hi : (lists .ready)[i]? = some cur) :
    nextReady s cur = (lists .ready)[(i + 1) % (lists .ready).length]? := by
  have hchain := h.chain .ready (by decide)
  obtain ⟨hlt, hget⟩ := List.getElem?_eq_some_iff.mp hi
  have hsplit : lists .ready = (lists .ready).take i ++ cur :: (lists .ready).drop (i + 1) := by
    rw [← hget, List.cons_getElem_drop_succ, List.take_append_drop]
  have hready (t : Ptr) (ht : t ∈ lists .ready) : s.stateOf t = .ready :=
    getThreadChain_injective ((h.mem .ready (by decide) t).mp ht) rfl
  have hnext : s.next cur = (lists .ready)[i + 1]? := by
    rw [hsplit] at hchain
    rw [hchain.next_eq, List.head?_drop]
  unfold nextReady
  rw [if_pos (hready cur (List.mem_of_getElem? hi)), hnext]
  rcases Nat.lt_or_ge (i + 1) (lists .ready).length with hmore | hend
  · rw [Nat.mod_eq_of_lt hmore, List.getElem?_eq_getElem hmore]
    exact if_pos (hready _ (List.getElem_mem hmore))
  · have hlast : i + 1 = (lists .ready).length := by omega
    rw [hlast, Nat.mod_self, List.getElem?_eq_none le_rfl, ← List.head?_eq_getElem?]
    exact hchain.head_eq

/-- What stays while the threads go round. -/
structure Going (s : State) (lists : Link → List Ptr) : Prop where
  chains : ChainsOf s lists
  plain : ∀ t ∈ lists .ready, (s.thread t).isInterrupted = false

lemma isInterrupted_setClock (s : State) (t u : Ptr) (c : Int32) :
    ((s.setClock t c).thread u).isInterrupted = (s.thread u).isInterrupted := by
  unfold State.setClock State.modify
  by_cases h : u = t
  · simp [h]
  · simp [h]

lemma thread_switchThread (s : State) (cur thr : Ptr) :
    (switchThread s cur thr).thread = s.thread := by
  unfold switchThread
  split_ifs <;> rfl

lemma running_switchThread (hrun : s.head .running = some cur)
    (hcur : (s.thread cur).isInterrupted = false) (t : Ptr) :
    (switchThread s cur t).head .running = some t := by
  by_cases hsame : t = cur
  · rw [switchThread, if_pos hsame, hsame, hrun]
  · rw [switchThread, if_neg hsame, hcur, if_neg Bool.false_ne_true, State.setHead_head,
      Function.update_self]

/-- The next thread of the chain runs. -/
lemma turn_going (h : Going s lists) (hrun : s.head .running = some cur)
    (hi : (lists .ready)[i]? = some cur) : Going (turn s) lists ∧
      (turn s).head .running = (lists .ready)[(i + 1) % (lists .ready).length]? := by
  obtain ⟨hlt, -⟩ := List.getElem?_eq_some_iff.mp hi
  have hnext := nextReady_getElem? h.chains hi
  have hmod : (i + 1) % (lists .ready).length < (lists .ready).length :=
    Nat.mod_lt _ (Nat.zero_lt_of_lt hlt)
  rw [List.getElem?_eq_getElem hmod] at hnext ⊢
  have hturn : turn s = switchThread (s.setClock (lists .ready)[(i + 1) % (lists .ready).length] 5)
      cur (lists .ready)[(i + 1) % (lists .ready).length] := by
    unfold turn
    rw [hrun, Option.elim_some, tmSchedule_eq, hnext]
  rw [hturn]
  refine ⟨⟨chainsOf_switchThread (chainsOf_setClock h.chains _ _) _ _, fun t ht => ?_⟩, ?_⟩
  · rw [thread_switchThread, isInterrupted_setClock]
    exact h.plain t ht
  · refine running_switchThread (by simpa using hrun) ?_ _
    rw [isInterrupted_setClock]
    exact h.plain cur (List.mem_of_getElem? hi)

/-! ## A round -/

lemma turns_going (h : Going s lists) (hrun : s.head .running = some cur)
    (hi : (lists .ready)[i]? = some cur) (k : ℕ) : Going (turn^[k] s) lists ∧
      (turn^[k] s).head .running = (lists .ready)[(i + k) % (lists .ready).length]? := by
  obtain ⟨hlt, -⟩ := List.getElem?_eq_some_iff.mp hi
  induction k with
  | zero => exact ⟨h, by rw [Function.iterate_zero, id, hrun, Nat.add_zero, Nat.mod_eq_of_lt hlt, hi]⟩
  | succ k ih =>
    obtain ⟨hgoing, hat⟩ := ih
    have hmod : (i + k) % (lists .ready).length < (lists .ready).length :=
      Nat.mod_lt _ (Nat.zero_lt_of_lt hlt)
    have hget := List.getElem?_eq_getElem hmod
    obtain ⟨hstep, hnext⟩ := turn_going hgoing (hat.trans hget) hget
    rw [Function.iterate_succ_apply']
    exact ⟨hstep, by rw [hnext, Nat.mod_add_mod, Nat.add_assoc]⟩

/-- In a round each ready thread runs once, and the thread that ran first runs again at its end. -/
structure Rounds (s : State) (cur : Ptr) (ready : List Ptr) : Prop where
  each : (served s ready.length).Perm (ready.map some)
  back : (turn^[ready.length] s).head .running = some cur

lemma rounds_of_going (h : Going s lists) (hrun : s.head .running = some cur)
    (hcur : cur ∈ lists .ready) : Rounds s cur (lists .ready) := by
  obtain ⟨i, hi⟩ := List.mem_iff_getElem?.mp hcur
  obtain ⟨hlt, -⟩ := List.getElem?_eq_some_iff.mp hi
  have hturns := turns_going h hrun hi
  have hserved : served s (lists .ready).length = ((lists .ready).rotate (i + 1)).map some := by
    apply List.ext_getElem?
    intro k
    rcases Nat.lt_or_ge k (lists .ready).length with hk | hk
    · have hmod : (i + (k + 1)) % (lists .ready).length < (lists .ready).length :=
        Nat.mod_lt _ (Nat.zero_lt_of_lt hlt)
      have hplace : k + (i + 1) = i + (k + 1) := by omega
      rw [List.getElem?_map, List.getElem?_rotate hk, hplace, served, List.getElem?_map,
        List.getElem?_range hk, Option.map_some, (hturns (k + 1)).2, List.getElem?_eq_getElem hmod]
      rfl
    · rw [List.getElem?_eq_none (by simpa [served] using hk),
        List.getElem?_eq_none (by simpa using hk)]
  constructor
  · rw [hserved]
    exact List.Perm.map some (List.rotate_perm _ _)
  · rw [(hturns _).2, Nat.add_mod_right, Nat.mod_eq_of_lt hlt, hi]

/-- The calls of the ready threads go round the chain, and an idle thread is chosen only if there is
no ready one. -/
theorem schedule_rounds (h : ChainsOf s lists) :
    (∀ cur, s.head .running = some cur → cur ∈ lists .ready →
      (∀ t ∈ lists .ready, (s.thread t).isInterrupted = false) → Rounds s cur (lists .ready)) ∧
    ∀ cur, (∃ quantum : Int32, tmSchedule s cur = (chosen s cur).elim s fun t =>
        switchThread (s.setClock t quantum) cur t) ∧
      ∀ t, chosen s cur = some t → s.stateOf t = .idle → lists .ready = [] := by
  refine ⟨fun cur hrun hcur hplain => rounds_of_going ⟨h, hplain⟩ hrun hcur,
    fun cur => ⟨tmSchedule_chosen s cur, fun t ht hidle => ?_⟩⟩
  unfold chosen at ht
  cases hnext : nextReady s cur with
  | some u =>
    rw [hnext, Option.some_or] at ht
    have hready := stateOf_nextReady h hnext
    rw [Option.some.inj ht, hidle] at hready
    cases hready
  | none =>
    have hhead := nextReady_eq_none hnext
    rw [(h.chain .ready (by decide)).head_eq] at hhead
    exact List.head?_eq_none_iff.mp hhead

/-- Two ready threads, of which the second one runs. -/
def twoReady : State := tmSetThreadState (tmSetThreadState (initial (some 1)) 1 .ready) 2 .ready

theorem schedule_rounds_twoReady : ∃ lists, ChainsOf twoReady lists ∧
    Rounds twoReady 1 (lists .ready) := by
  have hinit : ThreadState.ready ≠ .init := by decide
  have hrun : ThreadState.ready ≠ .running := by decide
  obtain ⟨lists, h⟩ := tmSetThreadState_wellFormed (tmSetThreadState_wellFormed
    (initial_wellFormed (some 1)) 1 hinit hrun) 2 hinit hrun
  have hone : getThreadChain (twoReady.stateOf 1) = some .ready := by decide +kernel
  refine ⟨lists, h, (schedule_rounds h).1 1 (by decide +kernel)
    ((h.mem .ready (by decide) 1).mpr hone) fun t ht => ?_⟩
  have hready : twoReady.stateOf t = .ready :=
    getThreadChain_injective ((h.mem .ready (by decide) t).mp ht) rfl
  have hstates : twoReady.stateOf t =
      if t = 2 then .ready else if t = 1 then .ready else .init := by
    unfold twoReady
    rw [tmSetThreadState_stateOf, tmSetThreadState_stateOf, Function.update_apply,
      Function.update_apply]
    rfl
  rw [hstates] at hready
  split_ifs at hready with htwo hone
  · subst htwo
    decide +kernel
  · subst hone
    decide +kernel

end Sgos.RoundRobin
