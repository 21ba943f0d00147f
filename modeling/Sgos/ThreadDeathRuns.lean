import Sgos.ThreadDeath

/-!
# Death is final

Wake-ups, messages and the clock leave dead threads dead. The other operations do not look at the
state they change; when none of them meets a dead thread, and no second termination gets past
`down`, dead threads stay dead and no message queue is destroyed twice.
-/
namespace Sgos.ThreadDeath
open GuardedRun LinkedChain Scheduler Thread

/-! ## Steps of the scheduler that spare the dead -/

/-- The chains stay well formed, and the dead stay dead. -/
structure Spares (s s' : Scheduler.State) : Prop where
  wellFormed : WellFormed s → WellFormed s'
  dead : ∀ t, s.stateOf t = .dead → s'.stateOf t = .dead

section Spares
variable {s s' s'' : Scheduler.State} {cur thr : Ptr}

lemma Spares.refl (s : Scheduler.State) : Spares s s := ⟨id, fun _ => id⟩

lemma Spares.trans (h : Spares s s') (h' : Spares s' s'') : Spares s s'' :=
  ⟨h'.wellFormed ∘ h.wellFormed, fun t ht => h'.dead t (h.dead t ht)⟩

lemma wellFormed_congr (h : WellFormed s) (hn : s'.next = s.next) (hp : s'.prev = s.prev)
    (hh : ∀ l, l ≠ .running → s'.head l = s.head l) (hst : s'.stateOf = s.stateOf) :
    WellFormed s' := by
  obtain ⟨lists, hl⟩ := h
  refine ⟨lists, fun l hr => ?_, fun l hr t => ?_, fun t => ?_⟩
  · rw [hn, hp, hh l hr]
    exact hl.chain l hr
  · rw [hst]
    exact hl.mem l hr t
  · rw [hst]
    exact hl.notRunning t

lemma spares_setClock (s : Scheduler.State) (thr : Ptr) (c : Int32) :
    Spares s (s.setClock thr c) :=
  ⟨fun h => wellFormed_congr h (by simp) (by simp) (fun _ _ => by simp) (by simp),
    fun t ht => by simpa using ht⟩

lemma spares_switchThread (s : Scheduler.State) (cur thr : Ptr) :
    Spares s (switchThread s cur thr) := by
  refine ⟨fun h => ?_, fun t ht => by simpa using ht⟩
  rw [switchThread]
  split_ifs
  · exact h
  · exact wellFormed_congr h rfl rfl (fun _ _ => rfl) rfl
  · refine wellFormed_congr h rfl rfl (fun l hl => ?_) rfl
    rw [State.setHead_head, Function.update_of_ne hl]
    rfl

lemma spares_tmSchedule (s : Scheduler.State) (cur : Ptr) : Spares s (tmSchedule s cur) := by
  simp only [tmSchedule]
  repeat' split
  all_goals first
    | exact (spares_setClock _ _ _).trans (spares_switchThread _ _ _)
    | exact Spares.refl s

/-- A thread that is not dead may go to any state, and any thread may die. -/
lemma spares_set {st : ThreadState} (hinit : st ≠ .init) (hrun : st ≠ .running)
    (hthr : s.stateOf thr ≠ .dead ∨ st = .dead) : Spares s (tmSetThreadState s thr st) where
  wellFormed h := tmSetThreadState_wellFormed h thr hinit hrun
  dead t ht := by
    rw [tmSetThreadState_stateOf, Function.update_apply]
    split_ifs with he
    · exact hthr.resolve_left fun hne => hne (he ▸ ht)
    · exact ht

lemma spares_tmWakeupThread (s : Scheduler.State) (thr : Ptr) :
    Spares s (tmWakeupThread s thr).2 := by
  rw [tmWakeupThread]
  split_ifs with h
  · refine spares_set (by decide) (by decide) (.inl fun hd => ?_)
    rw [hd] at h
    rcases h with h | h <;> cases h
  · exact Spares.refl s

lemma tmSleepThread_wellFormed (h : WellFormed s) (cur thr : Ptr) (ms : UInt32) :
    WellFormed (tmSleepThread s cur thr ms) := by
  have hset : WellFormed (if ms = INFINITE then tmSetThreadState s thr .sleep
      else tmSetThreadState (s.setClock thr ms.toInt32) thr .wait) := by
    split_ifs
    · exact tmSetThreadState_wellFormed h thr (by decide) (by decide)
    · exact tmSetThreadState_wellFormed ((spares_setClock s thr _).wellFormed h) thr (by decide)
        (by decide)
  simp only [tmSleepThread]
  generalize (if ms = INFINITE then tmSetThreadState s thr .sleep
    else tmSetThreadState (s.setClock thr ms.toInt32) thr .wait) = s1 at *
  split_ifs
  · exact (spares_tmSchedule s1 cur).wellFormed hset
  · exact hset

lemma spares_tmSleepThread (hthr : s.stateOf thr ≠ .dead) (ms : UInt32) :
    Spares s (tmSleepThread s cur thr ms) := by
  refine ⟨fun h => tmSleepThread_wellFormed h cur thr ms, fun t ht => ?_⟩
  have hne : t ≠ thr := fun he => hthr (he ▸ ht)
  rw [tmSleepThread_stateOf, Function.update_of_ne hne, ht]

lemma tmSuspendThread_wellFormed (h : WellFormed s) (cur thr : Ptr) :
    WellFormed (tmSuspendThread s cur thr) := by
  have hset : WellFormed (tmSetThreadState s thr .paused) :=
    tmSetThreadState_wellFormed h thr (by decide) (by decide)
  rw [tmSuspendThread]
  split_ifs
  · exact (spares_tmSchedule _ _).wellFormed hset
  · exact hset

lemma spares_tmSuspendThread (hthr : s.stateOf thr ≠ .dead) :
    Spares s (tmSuspendThread s cur thr) := by
  refine ⟨fun h => tmSuspendThread_wellFormed h cur thr, fun t ht => ?_⟩
  have hne : t ≠ thr := fun he => hthr (he ▸ ht)
  rw [tmSuspendThread_stateOf, Function.update_of_ne hne, ht]

lemma spares_wakeAll (s : Scheduler.State) (ts : List Ptr) : Spares s (wakeAll s ts) := by
  induction ts generalizing s with
  | nil => exact Spares.refl s
  | cons t ts ih => exact (spares_tmWakeupThread s t).trans (ih _)

/-! ### The clock -/

/-- The neighbours of a waiting thread, and the head of the chain, wait as well. -/
lemma next_waits (h : WellFormed s) {x y : Ptr} (hx : s.stateOf x = .wait)
    (hy : s.next x = some y) : s.stateOf y = .wait := by
  obtain ⟨lists, hl⟩ := h
  have hmem := (hl.mem .wait nofun x).mpr (by rw [hx]; rfl)
  have hnext := (hl.chain .wait nofun).linked.next_mem hmem hy
  exact getThreadChain_injective ((hl.mem .wait nofun y).mp hnext) rfl

lemma prev_waits (h : WellFormed s) {x y : Ptr} (hx : s.stateOf x = .wait)
    (hy : s.prev x = some y) : s.stateOf y = .wait ∧ y ≠ x := by
  obtain ⟨lists, hl⟩ := h
  have hchain := hl.chain .wait nofun
  have hmem := (hl.mem .wait nofun x).mpr (by rw [hx]; rfl)
  refine ⟨?_, hchain.prev_ne hmem hy⟩
  obtain ⟨pre, post, he⟩ := List.append_of_mem hmem
  rw [he] at hchain
  have hlast : y ∈ pre := List.mem_of_getLast? (hchain.prev_eq.symm.trans hy)
  refine getThreadChain_injective ((hl.mem .wait nofun y).mp ?_) rfl
  rw [he]
  exact List.mem_append_left _ hlast

lemma head_waits (h : WellFormed s) {x : Ptr} (hx : s.head .wait = some x) :
    s.stateOf x = .wait := by
  obtain ⟨lists, hl⟩ := h
  have hmem := List.mem_of_head? ((hl.chain .wait nofun).head_eq.symm.trans hx)
  exact getThreadChain_injective ((hl.mem .wait nofun x).mp hmem) rfl

/-- Some of the waiting threads are ready. -/
def Expires (s s' : Scheduler.State) : Prop :=
  ∀ t, s'.stateOf t = s.stateOf t ∨ s.stateOf t = .wait ∧ s'.stateOf t = .ready

lemma Expires.of_eq (h : s'.stateOf = s.stateOf) : Expires s s' := fun t => .inl (congrFun h t)

lemma Expires.trans (h : Expires s s') (h' : Expires s' s'') : Expires s s'' := by
  intro t
  rcases h' t with h' | ⟨hw, hr⟩
  · rw [h']
    exact h t
  · rcases h t with h | ⟨-, h⟩
    · exact .inr ⟨h ▸ hw, hr⟩
    · rw [h] at hw
      cases hw

lemma Expires.dead (h : Expires s s') {t : Ptr} (ht : s.stateOf t = .dead) :
    s'.stateOf t = .dead := by
  rcases h t with h | ⟨hw, -⟩
  · exact h.trans ht
  · rw [ht] at hw
    cases hw

/-- The loop stays on the chain of the waiting threads. -/
lemma expire_expires (fuel : ℕ) (s : Scheduler.State) (thr : Option Ptr) (h : WellFormed s)
    (hthr : ∀ x, thr = some x → s.stateOf x = .wait) :
    WellFormed (expire fuel s thr) ∧ Expires s (expire fuel s thr) := by
  induction fuel generalizing s thr with
  | zero => exact ⟨h, .of_eq rfl⟩
  | succ fuel ih =>
    cases thr with
    | none => exact ⟨h, .of_eq rfl⟩
    | some x =>
      have hx : s.stateOf x = .wait := hthr x rfl
      have hclock : Expires s (s.setClock x (clockOf s x - MS)) := .of_eq (by simp)
      have hwf := (spares_setClock s x (clockOf s x - MS)).wellFormed h
      have hx' : (s.setClock x (clockOf s x - MS)).stateOf x = .wait := by simpa using hx
      rw [expire]
      generalize s.setClock x (clockOf s x - MS) = s1 at *
      have hgo : ∀ s2 : Scheduler.State, WellFormed s2 → Expires s s2 → ∀ y, (∀ z, y = some z →
          s2.stateOf z = .wait) → WellFormed (expire fuel s2 y) ∧ Expires s (expire fuel s2 y) := by
        intro s2 hwf2 h2 y hy
        obtain ⟨hwf3, h3⟩ := ih s2 y hwf2 hy
        exact ⟨hwf3, h2.trans h3⟩
      have hwfReady : WellFormed (tmSetThreadState s1 x .ready) :=
        tmSetThreadState_wellFormed hwf x (by decide) (by decide)
      have hready : Expires s (tmSetThreadState s1 x .ready) := by
        refine hclock.trans fun t => ?_
        rw [tmSetThreadState_stateOf, Function.update_apply]
        split_ifs with ht
        · exact .inr ⟨ht ▸ hx', rfl⟩
        · exact .inl rfl
      have hstill : ∀ p, p ≠ x → s1.stateOf p = .wait →
          (tmSetThreadState s1 x .ready).stateOf p = .wait := fun p hpx hp => by
        rw [tmSetThreadState_stateOf, Function.update_of_ne hpx, hp]
      dsimp only
      split_ifs
      · cases hp : s1.prev x with
        | some p =>
          obtain ⟨hpw, hpx⟩ := prev_waits hwf hx' hp
          exact hgo _ hwfReady hready _ fun z hz => next_waits hwfReady (hstill p hpx hpw) hz
        | none =>
          dsimp only
          cases hh : (tmSetThreadState s1 x .ready).head .wait with
          | some y =>
            exact hgo _ hwfReady hready _ fun z hz =>
              next_waits hwfReady (head_waits hwfReady hh) hz
          | none => exact ⟨hwfReady, hready⟩
      · exact hgo s1 hwf hclock _ fun z hz => next_waits hwf hx' hz

lemma tmIncreaseTime_expires (h : WellFormed s) (cur : Ptr) (canSchedule : Int32) :
    WellFormed (tmIncreaseTime s cur canSchedule) ∧
      Expires s (tmIncreaseTime s cur canSchedule) := by
  obtain ⟨hwf, hexpires⟩ :=
    expire_expires addressSpace s (s.head .wait) h fun x hx => head_waits h hx
  rw [tmIncreaseTime]
  generalize expire addressSpace s (s.head .wait) = s1 at *
  have hclock := (spares_setClock s1 cur (clockOf s1 cur - 1)).wellFormed hwf
  split_ifs
  · exact ⟨(spares_tmSchedule _ _).wellFormed hclock, hexpires.trans (.of_eq (by simp))⟩
  · exact ⟨hclock, hexpires.trans (.of_eq (by simp))⟩

end Spares

/-! ## Conditions -/

/-- The target of a call by `t` is not dead. -/
def TargetOk (s : State) (t : Ptr) (tid : UInt32) : Prop :=
  Runnable s t → s.phase t = .idle →
    ∀ thr, tmGetThreadById s t tid = some thr → s.sched.stateOf thr ≠ .dead

/-- No state of a dead thread is changed; and a termination gets past `down` only if the message
queue is not destroyed yet and no other call is about to destroy it. -/
def StepOk (s : State) : Event → Prop
  | .resume t tid | .suspend t tid | .sleep t tid _ => TargetOk s t tid
  | .advance t => Runnable s t → ∀ thr code, s.phase t = .entered (.terminate thr code) →
      (s.messageQueue thr).destroyed = 0 ∧ ∀ u, s.phase u ≠ .marked thr
  | _ => True

/-! ## Message queues -/

structure Inv (s : State) : Prop where
  wellFormed : WellFormed s.sched
  once : ∀ thr, (s.messageQueue thr).destroyed ≤ 1
  marked : ∀ t thr, s.phase t = .marked thr → (s.messageQueue thr).destroyed = 0
  one : ∀ t u thr, s.phase t = .marked thr → s.phase u = .marked thr → t = u

/-- The scheduler spares the dead, and no message queue is destroyed. -/
structure Calm (s s' : State) : Prop where
  spares : Spares s.sched s'.sched
  destroyed : ∀ thr, (s'.messageQueue thr).destroyed = (s.messageQueue thr).destroyed
  phase : s'.phase = s.phase

section Steps
variable {s s' s'' : State} {t thr : Ptr}

lemma setPhase_phase (s : State) (t : Ptr) (p : Phase) :
    (setPhase s t p).phase = Function.update s.phase t p := rfl

lemma setMessageQueue_messageQueue (s : State) (thr : Ptr) (q : MessageQueue) :
    (setMessageQueue s thr q).messageQueue = Function.update s.messageQueue thr q := rfl

lemma Calm.trans (h : Calm s s') (h' : Calm s' s'') : Calm s s'' :=
  ⟨h.spares.trans h'.spares, fun thr => (h'.destroyed thr).trans (h.destroyed thr),
    h'.phase.trans h.phase⟩

lemma calm_sched (s : State) {sched : Scheduler.State} (h : Spares s.sched sched) :
    Calm s { s with sched } := ⟨h, fun _ => rfl, rfl⟩

lemma calm_down (h : s.sched.stateOf t ≠ .dead) (thr : Ptr) : Calm s (down s t thr) := by
  rw [down]
  split_ifs
  · exact ⟨spares_tmSleepThread h INFINITE, fun _ => rfl, rfl⟩
  · exact ⟨Spares.refl _, fun _ => rfl, rfl⟩

lemma calm_up (s : State) (thr : Ptr) : Calm s (up s thr) := by
  rw [up]
  split
  · exact ⟨Spares.refl _, fun _ => rfl, rfl⟩
  · exact ⟨spares_tmWakeupThread _ _, fun _ => rfl, rfl⟩

lemma calm_pushMessage (s : State) (thr kmsg : Ptr) : Calm s (pushMessage s thr kmsg) := by
  rw [pushMessage]
  split_ifs
  · exact ⟨Spares.refl _, fun _ => rfl, rfl⟩
  · refine ⟨Spares.refl _, fun x => ?_, rfl⟩
    rw [setMessageQueue_messageQueue, Function.update_apply]
    split_ifs with hx
    · rw [hx]
    · rfl

lemma calm_markDead (s : State) (thr : Ptr) (code : UInt32) : Calm s (markDead s thr code) :=
  ⟨spares_set (by decide) (by decide) (.inr rfl), fun _ => rfl, rfl⟩

lemma calm_destroySemaphores (s : State) (thr : Ptr) : Calm s (destroySemaphores s thr) :=
  ⟨spares_wakeAll _ _, fun _ => rfl, rfl⟩

/-- What a step does that destroys nothing: a thread goes on to a phase other than `marked`. -/
lemma Inv.calm (h : Inv s) (hc : Calm s s') {p : Phase} (hp : ∀ thr, p ≠ .marked thr) (t : Ptr) :
    Inv (setPhase s' t p) := by
  have hold : ∀ u thr, (setPhase s' t p).phase u = .marked thr → s.phase u = .marked thr := by
    intro u thr hu
    rw [setPhase_phase, hc.phase, Function.update_apply] at hu
    split_ifs at hu
    · exact absurd hu (hp thr)
    · exact hu
  refine ⟨hc.spares.wellFormed h.wellFormed, fun x => ?_, fun u x hu => ?_, fun u w x hu hw => ?_⟩
  · exact (hc.destroyed x).trans_le (h.once x)
  · exact (hc.destroyed x).trans (h.marked u x (hold u x hu))
  · exact h.one u w x (hold u x hu) (hold w x hw)

/-- A step that changes no phase. -/
lemma Inv.still (h : Inv s) (hc : Calm s s') : Inv s' := by
  refine ⟨hc.spares.wellFormed h.wellFormed, fun x => ?_, fun u x hu => ?_, fun u w x hu hw => ?_⟩
  · exact (hc.destroyed x).trans_le (h.once x)
  · exact (hc.destroyed x).trans (h.marked u x (hc.phase ▸ hu))
  · exact h.one u w x (hc.phase ▸ hu) (hc.phase ▸ hw)

lemma destroyed_destroy (s : State) (thr x : Ptr) :
    ((ipcDestroyThreadMessageQueue s thr).messageQueue x).destroyed =
      if x = thr then (s.messageQueue thr).destroyed + 1 else (s.messageQueue x).destroyed := by
  rw [ipcDestroyThreadMessageQueue, setMessageQueue_messageQueue, Function.update_apply]
  split_ifs <;> rfl

/-- The only destruction of a queue: nobody is about to destroy it again. -/
lemma Inv.destroy (h : Inv s) (hzero : (s.messageQueue thr).destroyed = 0)
    (hother : ∀ u, s.phase u ≠ .marked thr) : Inv (ipcDestroyThreadMessageQueue s thr) := by
  refine ⟨h.wellFormed, fun x => ?_, fun u x hu => ?_, h.one⟩
  · rw [destroyed_destroy, hzero]
    split_ifs
    · exact Nat.le_refl 1
    · exact h.once x
  · have hne : x ≠ thr := fun he => hother u (he ▸ hu)
    rw [destroyed_destroy, if_neg hne]
    exact h.marked u x hu

lemma finish_spares (s : State) (t thr : Ptr) : Spares s.sched (finish s t thr).sched :=
  (spares_wakeAll _ _).trans (spares_tmSchedule _ t)

lemma Inv.finish (h : Inv s) (t thr : Ptr) : Inv (finish s t thr) :=
  h.calm ((calm_destroySemaphores s thr).trans (calm_sched _ (spares_tmSchedule _ t)))
    (by simp) t

/-- `TS_DEAD` is set, and the queue is the caller's to destroy. -/
lemma Inv.mark (h : Inv s) (code : UInt32) (hzero : (s.messageQueue thr).destroyed = 0)
    (hother : ∀ u, s.phase u ≠ .marked thr) (t : Ptr) :
    Inv (setPhase (markDead s thr code) t (.marked thr)) := by
  have hcalm := calm_markDead s thr code
  have hold : ∀ u x, (setPhase (markDead s thr code) t (.marked thr)).phase u = .marked x →
      u = t ∧ x = thr ∨ x ≠ thr ∧ s.phase u = .marked x := by
    intro u x hu
    rw [setPhase_phase, hcalm.phase, Function.update_apply] at hu
    split_ifs at hu with hut
    · exact .inl ⟨hut, (Phase.marked.inj hu).symm⟩
    · refine .inr ⟨?_, hu⟩
      rintro rfl
      exact hother u hu
  refine ⟨hcalm.spares.wellFormed h.wellFormed, fun x => ?_, fun u x hu => ?_,
    fun u w x hu hw => ?_⟩
  · exact (hcalm.destroyed x).trans_le (h.once x)
  · refine (hcalm.destroyed x).trans ?_
    rcases hold u x hu with ⟨-, rfl⟩ | ⟨-, hu⟩
    · exact hzero
    · exact h.marked u x hu
  · rcases hold u x hu with ⟨hu, hx⟩ | ⟨hx, hu⟩ <;> rcases hold w x hw with ⟨hw, hx'⟩ | ⟨hx', hw⟩
    · exact hu.trans hw.symm
    · exact absurd hx hx'
    · exact absurd hx' hx
    · exact h.one u w x hu hw

lemma advance_spares (s : State) (t : Ptr) : Spares s.sched (advance s t).sched := by
  rw [advance]
  split
  case h_1 => exact Spares.refl _
  case h_2 thr code _ =>
    have hmark := (calm_markDead s thr code).spares
    dsimp only
    split_ifs
    · exact hmark.trans (finish_spares _ _ _)
    · exact hmark
  case h_3 => exact Spares.refl _
  case h_4 thr _ => exact finish_spares _ _ _
  case h_5 dest kmsg _ =>
    split_ifs
    · exact (calm_up s dest).spares
    · split
      · exact (calm_up s dest).spares
      · exact ((calm_pushMessage s dest _).trans (calm_up _ dest)).spares
  case h_6 dest _ => exact spares_tmWakeupThread _ dest

lemma Inv.advance (h : Inv s) (hok : ∀ thr code, s.phase t = .entered (.terminate thr code) →
    (s.messageQueue thr).destroyed = 0 ∧ ∀ u, s.phase u ≠ .marked thr) : Inv (advance s t) := by
  rw [ThreadDeath.advance]
  split
  case h_1 => exact h
  case h_2 thr code hphase =>
    obtain ⟨hzero, hother⟩ := hok thr code hphase
    dsimp only
    split_ifs with hself
    · exact ((h.still (calm_markDead s thr code)).destroy hzero hother).finish t thr
    · exact h.mark code hzero hother t
  case h_3 thr hphase =>
    have hnext := h.calm (calm_sched s (Spares.refl _)) (p := .emptied thr) (by simp) t
    refine hnext.destroy (h.marked t thr hphase) fun u hu => ?_
    rw [setPhase_phase, Function.update_apply] at hu
    split_ifs at hu with hut
    exact hut (h.one u t thr hu hphase)
  case h_4 thr hphase => exact h.finish t thr
  case h_5 dest kmsg hphase =>
    split_ifs
    · exact h.calm (calm_up s dest) (by simp) t
    · split
      · exact h.calm (calm_up s dest) (by simp) t
      · exact h.calm ((calm_pushMessage s dest _).trans (calm_up _ dest)) (by simp) t
  case h_6 dest hphase => exact h.calm (calm_sched s (spares_tmWakeupThread _ dest)) (by simp) t

lemma onThread_cases (s : State) (t : Ptr) (tid : UInt32) (f : Ptr → State) :
    onThread s t tid f = s ∨ Runnable s t ∧ s.phase t = .idle ∧
      ∃ thr, tmGetThreadById s t tid = some thr ∧ onThread s t tid f = f thr := by
  rw [onThread]
  split_ifs with h
  · cases hthr : tmGetThreadById s t tid with
    | none => exact .inl rfl
    | some thr => exact .inr ⟨h.1, h.2, thr, rfl, rfl⟩
  · exact .inl rfl

lemma Runnable.not_dead (h : Runnable s t) : s.sched.stateOf t ≠ .dead := by
  rw [show s.sched.stateOf t = .ready from h]
  decide

/-- A step that changes no phase and keeps the invariant, or a call that enters `down`. -/
lemma onThread_inv (h : Inv s) {tid : UInt32} {f : Ptr → State}
    (hf : Runnable s t → s.phase t = .idle → ∀ thr, tmGetThreadById s t tid = some thr →
      Inv (f thr) ∧ ∀ u, s.sched.stateOf u = .dead → (f thr).sched.stateOf u = .dead) :
    Inv (onThread s t tid f) ∧
      ∀ u, s.sched.stateOf u = .dead → (onThread s t tid f).sched.stateOf u = .dead := by
  rcases onThread_cases s t tid f with he | ⟨hrun, hidle, thr, hthr, he⟩
  · rw [he]
    exact ⟨h, fun _ => id⟩
  · rw [he]
    exact hf hrun hidle thr hthr

lemma step_inv (s : State) (e : Event) (h : Inv s) (hok : StepOk s e) :
    Inv (step s e) ∧ ∀ u, s.sched.stateOf u = .dead → (step s e).sched.stateOf u = .dead := by
  have hcall : ∀ {t : Ptr}, Runnable s t → ∀ thr call, Inv (setPhase (down s t thr) t
      (.entered call)) ∧ ∀ u, s.sched.stateOf u = .dead →
        (setPhase (down s t thr) t (.entered call)).sched.stateOf u = .dead := fun hrun thr call =>
    ⟨h.calm (calm_down hrun.not_dead thr) (by simp) _, (calm_down hrun.not_dead thr).spares.dead⟩
  have hsched : ∀ {sched : Scheduler.State}, Spares s.sched sched →
      Inv { s with sched } ∧ ∀ u, s.sched.stateOf u = .dead → sched.stateOf u = .dead :=
    fun hspares => ⟨h.still (calm_sched s hspares), hspares.dead⟩
  cases e with
  | terminate t tid code => exact onThread_inv h fun hrun _ thr _ => hcall hrun thr _
  | send t tid kmsg => exact onThread_inv h fun hrun _ thr _ => hcall hrun thr _
  | resume t tid =>
    exact onThread_inv h fun hrun hidle thr hthr =>
      hsched (spares_set (by decide) (by decide) (.inl (hok hrun hidle thr hthr)))
  | suspend t tid =>
    exact onThread_inv h fun hrun hidle thr hthr =>
      hsched (spares_tmSuspendThread (hok hrun hidle thr hthr))
  | sleep t tid ms =>
    exact onThread_inv h fun hrun hidle thr hthr =>
      hsched (spares_tmSleepThread (hok hrun hidle thr hthr) ms)
  | wakeup t tid => exact onThread_inv h fun _ _ thr _ => hsched (spares_tmWakeupThread _ thr)
  | reply t tid => exact onThread_inv h fun _ _ thr _ => hsched (spares_tmWakeupThread _ thr)
  | advance t =>
    rw [step]
    split_ifs with hrun
    · exact ⟨h.advance (hok hrun), (advance_spares s t).dead⟩
    · exact ⟨h, fun _ => id⟩
  | tick t canSchedule =>
    obtain ⟨hwf, hexpires⟩ := tmIncreaseTime_expires h.wellFormed t canSchedule
    exact ⟨⟨hwf, h.once, h.marked, h.one⟩, fun _ => hexpires.dead⟩

end Steps

/-! ## Whole runs -/

/-- The scheduler's chains are well formed, no queue is destroyed, and no call is in progress. -/
structure Fresh (s : State) : Prop where
  wellFormed : WellFormed s.sched
  destroyed : ∀ thr, (s.messageQueue thr).destroyed = 0
  phase : ∀ t, s.phase t = .idle

lemma Fresh.inv {s : State} (h : Fresh s) : Inv s where
  wellFormed := h.wellFormed
  once thr := by
    rw [h.destroyed]
    decide
  marked _ thr _ := h.destroyed thr
  one t _ _ ht _ := by
    rw [h.phase t] at ht
    cases ht

/-- Threads that are dead stay dead to the end of the run, and no message queue is destroyed
twice. -/
structure DeathFinal (s : State) (es : List Event) : Prop where
  dead : ∀ es₁ es₂ thr, es = es₁ ++ es₂ → (run step s es₁).sched.stateOf thr = .dead →
    (run step s es).sched.stateOf thr = .dead
  once : ∀ thr, ((run step s es).messageQueue thr).destroyed ≤ 1

/-- When every step of a run meets its condition, death is final. -/
theorem run_deathFinal {s : State} (h : Fresh s) {es : List Event}
    (hok : Guarded step StepOk s es) : DeathFinal s es := by
  have hinv : ∀ s e, Inv s → StepOk s e → Inv (step s e) := fun s e hs he => (step_inv s e hs he).1
  refine ⟨fun es₁ es₂ thr he hdead => ?_, (hok.invariant Inv hinv h.inv).once⟩
  rw [he, run_append]
  obtain ⟨hok₁, hok₂⟩ := (guarded_append s es₁ es₂).mp (he ▸ hok)
  refine (hok₂.invariant (fun s => Inv s ∧ s.sched.stateOf thr = .dead) (fun s e hs hse => ?_)
    ⟨hok₁.invariant Inv hinv h.inv, hdead⟩).2
  obtain ⟨hstep, hstays⟩ := step_inv s e hs.1 hse
  exact ⟨hstep, hstays thr hs.2⟩

/-- Two ready threads, 1 and 2, with the ids 0x10001 and 0x10002. -/
def twoThreads : State where
  sched := run Scheduler.step (initial (some 1))
    [(1, ⟨.ready, by decide⟩), (2, ⟨.ready, by decide⟩)]
  spaceThreads _ := [1, 2]
  threadId t := 0x10000 + t
  exitCode _ := 0
  semaphore _ := ⟨1, []⟩
  joinSemaphore _ := ⟨0, []⟩
  messageQueue _ := ⟨0, 0x70000000, [], 0⟩
  phase _ := .idle

lemma twoThreads_fresh : Fresh twoThreads :=
  ⟨run_wellFormed _ _, fun _ => rfl, fun _ => rfl⟩

/-- Thread 1 ends thread 2, and a message to it comes too late. -/
def lateMessage : List Event :=
  [.terminate 1 0x10002 0, .advance 1, .advance 1, .advance 1, .wakeup 1 0x10002, .tick 1 0]

theorem run_deathFinal_lateMessage : DeathFinal twoThreads lateMessage := by
  refine run_deathFinal twoThreads_fresh ⟨trivial, fun _ thr code hphase => ?_, ?_, ?_, trivial,
    trivial, trivial⟩
  · obtain rfl : thr = 2 := (Call.terminate.inj (Phase.entered.inj hphase)).1.symm
    refine ⟨rfl, fun u hu => ?_⟩
    change Function.update (fun _ => Phase.idle) 1 (.entered (.terminate 2 0)) u = _ at hu
    rw [Function.update_apply] at hu
    split_ifs at hu
  · exact fun _ _ _ hphase => Phase.noConfusion hphase
  · exact fun _ _ _ hphase => Phase.noConfusion hphase

/-- A dead thread is ready again after `TmResumeThread`. -/
theorem run_not_deathFinal :
    ¬ ∀ (s : State) (es : List Event), Fresh s → DeathFinal s es := by
  intro h
  have hfinal := h twoThreads
    [.terminate 1 0x10002 0, .advance 1, .advance 1, .advance 1, .resume 1 0x10002] twoThreads_fresh
  have hdead := hfinal.dead
    [.terminate 1 0x10002 0, .advance 1, .advance 1, .advance 1] [.resume 1 0x10002] 2 rfl
    (by decide +kernel)
  exact absurd hdead (by decide +kernel)

end Sgos.ThreadDeath
