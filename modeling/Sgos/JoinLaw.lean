import Sgos.Join

/-!
# Joins return after the death

The law of `Join` is kept by every step that meets its condition. The invariant speaks of the
states of the threads, the wait queues of the join semaphores, the phases of the terminations and
the joins in progress, so that each lemma is about one change to them.
-/
namespace Sgos.Join
open GuardedRun LinkedChain Scheduler Thread ThreadDeath

/-! ## The invariant -/

/-- The joiners of the dead thread `closing` need not be about to be woken. -/
structure Sane (closing : Option Ptr) (st : Ptr → ThreadState) (queue : Ptr → List Ptr)
    (phase : Ptr → Phase) (joining : Ptr → Option Ptr) : Prop where
  returns : ∀ t thr, joining t = some thr → st t = .ready → st thr = .dead
  queued : ∀ t thr, joining t = some thr → st thr ≠ .dead ∨ st t = .sleep → t ∈ queue thr
  wakes : ∀ t thr, joining t = some thr → closing ≠ some thr → st thr = .dead → st t = .sleep →
    ∃ u, st u = .ready ∧ Ends phase u thr
  noTimer : ∀ t thr, joining t = some thr → st t ≠ .wait
  endings : ∀ u thr, Ends phase u thr → st thr = .dead

section Sane
variable {closing : Option Ptr} {st st' : Ptr → ThreadState} {queue : Ptr → List Ptr}
  {phase phase' : Ptr → Phase} {joining : Ptr → Option Ptr} {t thr w : Ptr}

/-- Some threads that slept or waited are ready; no joiner of a living thread is among them. -/
lemma Sane.wake (h : Sane closing st queue phase joining)
    (hst : ∀ t, st' t = st t ∨ (st t = .sleep ∨ st t = .wait) ∧ st' t = .ready)
    (hjoin : ∀ t thr, st t = .sleep → st' t = .ready → joining t = some thr → st thr = .dead) :
    Sane closing st' queue phase joining := by
  have hdead : ∀ t, st' t = .dead ↔ st t = .dead := by
    intro t
    rcases hst t with he | ⟨hs, he⟩
    · rw [he]
    · rw [he]
      rcases hs with hs | hs <;> simp [hs]
  have hsleep : ∀ t, st' t = .sleep → st t = .sleep := by
    intro t ht
    rcases hst t with he | ⟨-, he⟩
    · rw [← he, ht]
    · rw [ht] at he
      cases he
  have hready : ∀ t, st t = .ready → st' t = .ready := by
    intro t ht
    rcases hst t with he | ⟨-, he⟩
    · rw [he, ht]
    · exact he
  refine ⟨fun t thr hj ht => (hdead thr).mpr ?_, fun t thr hj ht => ?_, fun t thr hj hc hd hs => ?_,
    fun t thr hj ht => ?_, fun u thr hu => (hdead thr).mpr (h.endings u thr hu)⟩
  · rcases hst t with he | ⟨hs | hs, -⟩
    · exact h.returns t thr hj (he ▸ ht)
    · exact hjoin t thr hs ht hj
    · exact absurd hs (h.noTimer t thr hj)
  · exact h.queued t thr hj (ht.imp (fun hne hd => hne ((hdead thr).mpr hd)) (hsleep t))
  · obtain ⟨u, hu, hends⟩ := h.wakes t thr hj hc ((hdead thr).mp hd) (hsleep t hs)
    exact ⟨u, hready u hu, hends⟩
  · rcases hst t with he | ⟨-, he⟩
    · exact h.noTimer t thr hj (he ▸ ht)
    · rw [ht] at he
      cases he

/-- One thread gets another state. -/
lemma Sane.set (h : Sane closing st queue phase joining) {v : ThreadState} (hv : v ≠ .dead)
    (hready : v = .ready → ∀ thr, joining w = some thr → st thr = .dead)
    (hsleep : v = .sleep ∨ v = .wait → joining w = none)
    (hends : v = .ready ∨ ∀ thr, ¬Ends phase w thr)
    (hdead : st w = .dead → (∀ t, joining t ≠ some w) ∧ ∀ u, ¬Ends phase u w) :
    Sane closing (Function.update st w v) queue phase joining := by
  have hjoined : ∀ t thr, joining t = some thr → st thr = .dead →
      Function.update st w v thr = .dead := by
    intro t thr hj hd
    have hne : thr ≠ w := fun he => (hdead (he ▸ hd)).1 t (he ▸ hj)
    rw [Function.update_of_ne hne, hd]
  have hback : ∀ thr, Function.update st w v thr = .dead → st thr = .dead := by
    intro thr hd
    rw [Function.update_apply] at hd
    split_ifs at hd with he
    · exact absurd hd hv
    · exact hd
  refine ⟨fun t thr hj ht => hjoined t thr hj ?_, fun t thr hj ht => ?_,
    fun t thr hj hc hd hs => ?_, fun t thr hj ht => ?_, fun u thr hu => ?_⟩
  · rw [Function.update_apply] at ht
    split_ifs at ht with he
    · exact hready ht thr (he ▸ hj)
    · exact h.returns t thr hj ht
  · refine h.queued t thr hj (ht.imp (fun hne hd => hne (hjoined t thr hj hd)) fun hs => ?_)
    rw [Function.update_apply] at hs
    split_ifs at hs with he
    · rw [← he, hj] at hsleep
      cases hsleep (.inl hs)
    · exact hs
  · have hts : st t = .sleep := by
      rw [Function.update_apply] at hs
      split_ifs at hs with he
      · rw [← he, hj] at hsleep
        cases hsleep (.inl hs)
      · exact hs
    obtain ⟨u, hu, hue⟩ := h.wakes t thr hj hc (hback thr hd) hts
    refine ⟨u, ?_, hue⟩
    rw [Function.update_apply]
    split_ifs with he
    · exact hends.resolve_right fun hno => hno thr (he ▸ hue)
    · exact hu
  · rw [Function.update_apply] at ht
    split_ifs at ht with he
    · rw [← he, hj] at hsleep
      cases hsleep (.inr ht)
    · exact h.noTimer t thr hj ht
  · have hne : thr ≠ w := fun he => by
      subst he
      exact (hdead (h.endings u thr hu)).2 u hu
    rw [Function.update_of_ne hne, h.endings u thr hu]

/-- A thread dies that is not ending another one. -/
lemma Sane.die (h : Sane none st queue phase joining) (hends : ∀ x, ¬Ends phase thr x) :
    Sane (some thr) (Function.update st thr .dead) queue phase joining := by
  have hdead : ∀ x, st x = .dead → Function.update st thr .dead x = .dead := by
    intro x hx
    rw [Function.update_apply]
    split_ifs
    · rfl
    · exact hx
  have hlive : ∀ x v, v ≠ .dead → Function.update st thr .dead x = v → st x = v := by
    intro x v hv hx
    rw [Function.update_apply] at hx
    split_ifs at hx
    · exact absurd hx.symm hv
    · exact hx
  refine ⟨fun t x hj ht => hdead x (h.returns t x hj (hlive t _ (by decide) ht)),
    fun t x hj ht => h.queued t x hj (ht.imp (fun hne hd => hne (hdead x hd))
      (hlive t _ (by decide))), fun t x hj hc hd hs => ?_,
    fun t x hj ht => h.noTimer t x hj (hlive t _ (by decide) ht),
    fun u x hu => hdead x (h.endings u x hu)⟩
  have hne : x ≠ thr := fun he => hc (congrArg some he.symm)
  rw [Function.update_of_ne hne] at hd
  obtain ⟨u, hu, hue⟩ := h.wakes t x hj (by simp) hd (hlive t _ (by decide) hs)
  have hut : u ≠ thr := fun he => hends x (he ▸ hue)
  exact ⟨u, by rw [Function.update_of_ne hut, hu], hue⟩

lemma ends_update {p : Phase} {u x : Ptr} : Ends (Function.update phase t p) u x ↔
    u = t ∧ (p = .marked x ∨ p = .emptied x) ∨ u ≠ t ∧ Ends phase u x := by
  simp only [Ends, Function.update_apply]
  split_ifs with hu <;> simp [hu]

lemma Sane.congr (h : Sane closing st queue phase joining)
    (hends : ∀ u x, Ends phase' u x ↔ Ends phase u x) : Sane closing st queue phase' joining := by
  refine ⟨h.returns, h.queued, fun t x hj hc hd hs => ?_, h.noTimer, fun u x hu =>
    h.endings u x ((hends u x).mp hu)⟩
  obtain ⟨u, hu, hue⟩ := h.wakes t x hj hc hd hs
  exact ⟨u, hu, (hends u x).mpr hue⟩

/-- A thread goes on to a part of a call that ends nobody. -/
lemma Sane.setPhase (h : Sane closing st queue phase joining) {p : Phase}
    (hp : ∀ x, p ≠ .marked x ∧ p ≠ .emptied x) (ht : ∀ x, Ends phase t x → closing = some x) :
    Sane closing st queue (Function.update phase t p) joining := by
  have hends : ∀ u x, Ends (Function.update phase t p) u x ↔ u ≠ t ∧ Ends phase u x := by
    intro u x
    rw [ends_update]
    exact or_iff_right fun hx => hx.2.elim (hp x).1 (hp x).2
  refine ⟨h.returns, h.queued, fun v x hj hc hd hs => ?_, h.noTimer, fun u x hu =>
    h.endings u x ((hends u x).mp hu).2⟩
  obtain ⟨u, hu, hue⟩ := h.wakes v x hj hc hd hs
  exact ⟨u, hu, (hends u x).mpr ⟨fun he => hc (ht x (he ▸ hue)), hue⟩⟩

/-- The running thread `t` is to wake the joiners of the dead thread. -/
lemma Sane.mark (h : Sane (some thr) st queue phase joining) (ht : st t = .ready)
    (hdead : st thr = .dead) (hends : ∀ x, ¬Ends phase t x) :
    Sane none st queue (Function.update phase t (.marked thr)) joining := by
  refine ⟨h.returns, h.queued, fun v x hj _ hd hs => ?_, h.noTimer, fun u x hu => ?_⟩
  · by_cases hx : some thr = some x
    · cases hx
      exact ⟨t, ht, ends_update.mpr (.inl ⟨rfl, .inl rfl⟩)⟩
    · obtain ⟨u, hu, hue⟩ := h.wakes v x hj hx hd hs
      have hne : u ≠ t := fun he => hends x (he ▸ hue)
      exact ⟨u, hu, ends_update.mpr (.inr ⟨hne, hue⟩)⟩
  · rcases ends_update.mp hu with ⟨-, hx | hx⟩ | ⟨-, hx⟩
    · cases hx
      exact hdead
    · cases hx
    · exact h.endings u x hx

lemma Sane.weaken (h : Sane none st queue phase joining) (thr : Ptr) :
    Sane (some thr) st queue phase joining :=
  ⟨h.returns, h.queued, fun t x hj _ => h.wakes t x hj (by simp), h.noTimer, h.endings⟩

/-- The wait queue of a dead thread is empty when none of its joiners sleeps. -/
lemma Sane.close (h : Sane (some thr) st queue phase joining) (hdead : st thr = .dead)
    (hawake : ∀ t, joining t = some thr → st t ≠ .sleep) :
    Sane none st (Function.update queue thr []) phase joining := by
  refine ⟨h.returns, fun t x hj ht => ?_, fun t x hj _ hd hs => ?_, h.noTimer, h.endings⟩
  · have hne : x ≠ thr := by
      rintro rfl
      exact ht.elim (· hdead) (hawake t hj)
    rw [Function.update_of_ne hne]
    exact h.queued t x hj ht
  · refine h.wakes t x hj (fun he => ?_) hd hs
    cases he
    exact hawake t hj hs

/-- A thread joins: it sleeps in the queue, or the joined thread is dead. -/
lemma Sane.join (h : Sane none st queue phase joining) (hnone : joining t = none)
    (hst : st thr = .dead ∧ st t = .ready ∨ st thr ≠ .dead ∧ st t = .sleep ∧ t ∈ queue thr) :
    Sane none st queue phase (Function.update joining t (some thr)) := by
  have hcases : ∀ v x, Function.update joining t (some thr) v = some x →
      v = t ∧ x = thr ∨ joining v = some x := by
    intro v x hj
    rw [Function.update_apply] at hj
    split_ifs at hj with he
    · exact .inl ⟨he, (Option.some.inj hj).symm⟩
    · exact .inr hj
  refine ⟨fun v x hj hv => ?_, fun v x hj hv => ?_, fun v x hj hc hd hs => ?_,
    fun v x hj hv => ?_, h.endings⟩ <;> rcases hcases v x hj with ⟨rfl, rfl⟩ | hold
  · rcases hst with ⟨hd, -⟩ | ⟨-, hs, -⟩
    · exact hd
    · rw [hv] at hs
      cases hs
  · exact h.returns v x hold hv
  · rcases hst with ⟨hd, hr⟩ | ⟨-, -, hq⟩
    · rcases hv with hv | hv
      · exact absurd hd hv
      · rw [hr] at hv
        cases hv
    · exact hq
  · exact h.queued v x hold hv
  · rcases hst with ⟨-, hr⟩ | ⟨hl, -⟩
    · rw [hs] at hr
      cases hr
    · exact absurd hd hl
  · exact h.wakes v x hold hc hd hs
  · rcases hst with ⟨-, hr⟩ | ⟨-, hr, -⟩ <;> rw [hv] at hr <;> cases hr
  · exact h.noTimer v x hold hv

lemma Sane.leave (h : Sane none st queue phase joining) (t : Ptr) :
    Sane none st queue phase (Function.update joining t none) := by
  have hold : ∀ v x, Function.update joining t none v = some x → joining v = some x := by
    intro v x hj
    rw [Function.update_apply] at hj
    split_ifs at hj
    exact hj
  exact ⟨fun v x hj => h.returns v x (hold v x hj), fun v x hj => h.queued v x (hold v x hj),
    fun v x hj => h.wakes v x (hold v x hj), fun v x hj => h.noTimer v x (hold v x hj), h.endings⟩

lemma Sane.queue_mono (h : Sane none st queue phase joining) {queue' : Ptr → List Ptr}
    (hq : ∀ x, queue x ⊆ queue' x) : Sane none st queue' phase joining :=
  ⟨h.returns, fun t x hj ht => hq x (h.queued t x hj ht), h.wakes, h.noTimer, h.endings⟩

end Sane

/-! ## Calls -/

def queues (s : ThreadDeath.State) (thr : Ptr) : List Ptr := (s.joinSemaphore thr).waitQueue

structure Inv (s : State) : Prop where
  wellFormed : WellFormed s.death.sched
  sane : Sane none (stateOf s) (queues s.death) s.death.phase s.joining

section Calls
variable {s : State} {t thr : Ptr}

lemma wakeAll_stateOf (s : Scheduler.State) (ts : List Ptr) (t : Ptr) :
    (wakeAll s ts).stateOf t =
      if t ∈ ts ∧ (s.stateOf t = .sleep ∨ s.stateOf t = .wait) then .ready else s.stateOf t := by
  induction ts generalizing s with
  | nil => simp [wakeAll]
  | cons x ts ih =>
    change (wakeAll (tmWakeupThread s x).2 ts).stateOf t = _
    rw [ih]
    by_cases hx : t = x
    · subst hx
      rw [tmWakeupThread_stateOf]
      by_cases hs : s.stateOf t = .sleep ∨ s.stateOf t = .wait
      · simp [hs]
      · simp [hs]
    · rw [tmWakeupThread_stateOf_of_ne s hx]
      simp [hx]

lemma Sane.wakeAll {closing : Option Ptr} {sched : Scheduler.State} {queue : Ptr → List Ptr}
    {phase : Ptr → Phase} {joining : Ptr → Option Ptr} {ts : List Ptr}
    (h : Sane closing sched.stateOf queue phase joining)
    (hts : ∀ w ∈ ts, sched.stateOf w = .sleep → ∀ thr, joining w = some thr →
      sched.stateOf thr = .dead) :
    Sane closing (wakeAll sched ts).stateOf queue phase joining := by
  refine h.wake (fun t => ?_) fun t thr hs hr hj => ?_
  · rw [wakeAll_stateOf]
    split_ifs with ht
    · exact .inr ⟨ht.2, rfl⟩
    · exact .inl rfl
  · rw [wakeAll_stateOf] at hr
    split_ifs at hr with ht
    · exact hts t ht.1 hs thr hj
    · rw [hs] at hr
      cases hr

lemma not_ends {phase : Ptr → Phase} {p : Phase} (ht : phase t = p)
    (hp : ∀ x, p ≠ .marked x ∧ p ≠ .emptied x) (x : Ptr) : ¬Ends phase t x := by
  rw [Ends, ht]
  exact fun h => h.elim (hp x).1 (hp x).2

lemma inv_down (h : Inv s) (hrun : Runnable s.death t) (hidle : s.death.phase t = .idle)
    (hjoin : s.joining t = none) (thr : Ptr) (call : Call) :
    Inv { s with death := setPhase (down s.death t thr) t (.entered call) } := by
  have hends := not_ends hidle (by simp)
  have hdown : WellFormed (down s.death t thr).sched ∧ Sane none (down s.death t thr).sched.stateOf
      (queues s.death) s.death.phase s.joining := by
    rw [ThreadDeath.down]
    split_ifs
    · refine ⟨tmSleepThread_wellFormed h.wellFormed t t INFINITE, ?_⟩
      rw [tmSleepThread_stateOf]
      exact h.sane.set (by decide) (by simp) (fun _ => hjoin) (.inr hends)
        fun hd => absurd hd hrun.not_dead
    · exact ⟨h.wellFormed, h.sane⟩
  have hsame : queues (down s.death t thr) = queues s.death ∧
      (down s.death t thr).phase = s.death.phase := by
    rw [ThreadDeath.down]
    split_ifs <;> exact ⟨rfl, rfl⟩
  refine ⟨hdown.1, ?_⟩
  have hset := hdown.2.setPhase (t := t) (p := .entered call) (by simp)
    fun x hx => absurd hx (hends x)
  rw [← hsame.1, ← hsame.2] at hset
  exact hset

/-- A wake-up that meets no joiner of a living thread. -/
lemma inv_wakeup (h : Inv s) (hw : ¬Waits s thr) :
    Inv { s with death := { s.death with sched := (tmWakeupThread s.death.sched thr).2 } } := by
  refine ⟨(spares_tmWakeupThread _ thr).wellFormed h.wellFormed, ?_⟩
  have hts : ∀ w ∈ [thr], stateOf s w = .sleep → ∀ x, s.joining w = some x →
      stateOf s x = .dead := fun w hmem hs x hj => by
    rw [List.mem_singleton.mp hmem] at hs hj
    by_contra hd
    exact hw ⟨hs, x, hj, hd⟩
  exact h.sane.wakeAll hts

lemma inv_up (h : Inv s) (hw : ∀ w, (s.death.semaphore thr).waitQueue.head? = some w →
    ¬Waits s w) : Inv { s with death := up s.death thr } := by
  rw [ThreadDeath.up]
  split
  · exact ⟨h.wellFormed, h.sane⟩
  · rename_i w ws hq
    have hwake := inv_wakeup h (hw w (by rw [hq]; rfl))
    exact ⟨hwake.wellFormed, hwake.sane⟩

lemma inv_setPhase (h : Inv s) {p : Phase} (hp : ∀ x, p ≠ .marked x ∧ p ≠ .emptied x)
    (ht : ∀ x, ¬Ends s.death.phase t x) :
    Inv { s with death := setPhase s.death t p } :=
  ⟨h.wellFormed, h.sane.setPhase hp fun x hx => absurd hx (ht x)⟩

/-- The end of a termination: all joiners of the dead thread are awake. -/
lemma finish_inv (hwf : WellFormed s.death.sched)
    (h : Sane (some thr) (stateOf s) (queues s.death) s.death.phase s.joining)
    (hdead : stateOf s thr = .dead) (hends : ∀ x, Ends s.death.phase t x → x = thr)
    (hts : ∀ w ∈ (s.death.semaphore thr).waitQueue ++ (s.death.joinSemaphore thr).waitQueue,
      stateOf s w = .sleep → ∀ x, s.joining w = some x → stateOf s x = .dead) :
    Inv { s with death := finish s.death t thr } := by
  refine ⟨(finish_spares s.death t thr).wellFormed hwf, ?_⟩
  have hwake := h.wakeAll hts
  have hstill : stateOf { s with death := finish s.death t thr } = (ThreadDeath.wakeAll
      s.death.sched ((s.death.semaphore thr).waitQueue ++
        (s.death.joinSemaphore thr).waitQueue)).stateOf := tmSchedule_stateOf _ t
  have hqueue : queues (finish s.death t thr) = Function.update (queues s.death) thr [] := by
    funext x
    change (Function.update s.death.joinSemaphore thr ⟨0, []⟩ x).waitQueue = _
    rw [Function.update_apply, Function.update_apply]
    split_ifs <;> rfl
  have hphase := (hwake.setPhase (t := t) (p := .idle) (by simp)
    fun x hx => congrArg some (hends x hx).symm).close ?_ ?_
  · rw [hstill, hqueue]
    exact hphase
  · rw [wakeAll_stateOf, if_neg]
    · exact hdead
    · rw [show s.death.sched.stateOf thr = .dead from hdead]
      simp
  · intro w hj hs
    rw [wakeAll_stateOf] at hs
    split_ifs at hs with hmem
    exact hmem ⟨List.mem_append_right _ (h.queued w thr hj (.inr hs)), .inl hs⟩

lemma inv_markDead (h : Inv s) (hrun : Runnable s.death t) {code : UInt32}
    (hphase : s.death.phase t = .entered (.terminate thr code)) (hne : thr ≠ t)
    (hends : ∀ x, ¬Ends s.death.phase thr x) :
    Inv { s with death := setPhase (markDead s.death thr code) t (.marked thr) } := by
  have hst : stateOf { s with death := setPhase (markDead s.death thr code) t (.marked thr) } =
      Function.update (stateOf s) thr .dead := tmSetThreadState_stateOf _ thr .dead
  refine ⟨(calm_markDead s.death thr code).spares.wellFormed h.wellFormed, ?_⟩
  rw [hst]
  refine (h.sane.die hends).mark ?_ (Function.update_self _ _ _) (not_ends hphase (by simp))
  rw [Function.update_of_ne hne.symm]
  exact hrun

/-- A thread that ends itself does so in one step. -/
lemma inv_exit (h : Inv s) {code : UInt32} (hphase : s.death.phase t = .entered (.terminate t code))
    (hwakes : ∀ w, Disturbs s t w → ¬Waits s w) :
    Inv { s with
      death := finish (ipcDestroyThreadMessageQueue (markDead s.death t code) t) t t } := by
  have hends := not_ends hphase (by simp)
  have hst : stateOf { s with death := ipcDestroyThreadMessageQueue (markDead s.death t code) t } =
      Function.update (stateOf s) t .dead := tmSetThreadState_stateOf _ t .dead
  refine finish_inv (s := ⟨ipcDestroyThreadMessageQueue (markDead s.death t code) t, s.joining⟩)
    ((calm_markDead s.death t code).spares.wellFormed h.wellFormed) ?_ ?_
    (fun x hx => absurd hx (hends x)) fun w hmem hs x hj => ?_
  · rw [hst]
    exact h.sane.die hends
  · rw [hst, Function.update_self]
  · rw [hst] at hs ⊢
    have hw : w ≠ t := fun he => by
      rw [he, Function.update_self] at hs
      cases hs
    rw [Function.update_of_ne hw] at hs
    rw [Function.update_apply]
    split_ifs with hx
    · rfl
    · by_contra hd
      refine hwakes w ?_ ⟨hs, x, hj, hd⟩
      have hjoin : s.joining w ≠ some t := fun he => hx (Option.some.inj (hj.symm.trans he))
      rw [Disturbs, hphase]
      exact ⟨rfl, (List.mem_append.mp hmem).imp_right fun hm => ⟨hm, hjoin⟩⟩

lemma inv_advance (h : Inv s) (hrun : Runnable s.death t)
    (hwakes : ∀ w, Disturbs s t w → ¬Waits s w)
    (hends : ∀ w code, s.death.phase t = .entered (.terminate w code) →
      ∀ thr, ¬Ends s.death.phase w thr) :
    Inv { s with death := advance s.death t } := by
  rw [advance]
  split
  case h_1 => exact h
  case h_2 thr code hphase =>
    dsimp only
    split_ifs with hself
    · subst hself
      exact inv_exit h hphase hwakes
    · exact inv_markDead h hrun hphase hself (hends thr code hphase)
  case h_3 thr hphase =>
    refine ⟨h.wellFormed, h.sane.congr fun u x => ?_⟩
    refine ends_update.trans ?_
    by_cases hu : u = t
    · subst hu
      simp [Ends, hphase, eq_comm]
    · simp [hu, ipcDestroyThreadMessageQueue, setMessageQueue]
  case h_4 thr hphase =>
    have hends : ∀ x, Ends s.death.phase t x → x = thr := by
      intro x hx
      rw [Ends, hphase] at hx
      rcases hx with hx | hx
      · cases hx
      · exact (Phase.emptied.inj hx).symm
    refine finish_inv h.wellFormed (h.sane.weaken thr) (h.sane.endings t thr (.inr hphase)) hends
      fun w hmem hs x hj => ?_
    by_contra hd
    refine hwakes w ?_ ⟨hs, x, hj, hd⟩
    rw [Disturbs, hphase]
    exact hmem
  case h_5 dest kmsg hphase =>
    have hno := not_ends hphase (by simp)
    have hhead : ∀ w, (s.death.semaphore dest).waitQueue.head? = some w → ¬Waits s w := by
      intro w hw
      refine hwakes w ?_
      rw [Disturbs, hphase]
      exact hw
    have hup := inv_up h hhead
    have hupPhase : ∀ d : ThreadDeath.State, (up d dest).phase = d.phase := fun d =>
      (calm_up d dest).phase
    split_ifs
    · exact inv_setPhase hup (by simp) (by rw [hupPhase]; exact hno)
    · split
      · exact inv_setPhase hup (by simp) (by rw [hupPhase]; exact hno)
      · rename_i m
        have hpush : ∃ q, pushMessage s.death dest m = { s.death with messageQueue := q } := by
          rw [pushMessage]
          split_ifs <;> exact ⟨_, rfl⟩
        obtain ⟨q, hq⟩ := hpush
        have hinv : Inv { s with death := { s.death with messageQueue := q } } :=
          ⟨h.wellFormed, h.sane⟩
        rw [hq]
        exact inv_setPhase (inv_up hinv hhead) (by simp) (by rw [hupPhase]; exact hno)
  case h_6 dest hphase =>
    have hw : ¬Waits s dest := by
      refine hwakes dest ?_
      rw [Disturbs, hphase]
    exact inv_setPhase (inv_wakeup h hw) (by simp) (not_ends hphase (by simp))

lemma inv_set (h : Inv s) {sched : Scheduler.State} {w : Ptr} {v : ThreadState}
    (hwf : WellFormed sched) (hst : sched.stateOf = Function.update (stateOf s) w v)
    (hv : v ≠ .dead) (hready : v = .ready → ∀ thr, s.joining w = some thr → stateOf s thr = .dead)
    (hsleep : v = .sleep ∨ v = .wait → s.joining w = none)
    (hends : v = .ready ∨ ∀ thr, ¬Ends s.death.phase w thr)
    (hdead : stateOf s w = .dead → Unattended s w) :
    Inv { s with death := { s.death with sched } } := by
  refine ⟨hwf, ?_⟩
  change Sane none sched.stateOf _ _ _
  rw [hst]
  exact h.sane.set hv hready hsleep hends hdead

lemma inv_call (h : Inv s) (e : ThreadDeath.Event) (hjoin : ∀ t ∈ caller e, s.joining t = none)
    (hok : StepOk s (.call e)) : Inv { s with death := ThreadDeath.step s.death e } := by
  have hok := hok hjoin
  have honThread : ∀ (t : Ptr) (tid : UInt32) (f : Ptr → ThreadDeath.State),
      (Runnable s.death t → s.death.phase t = .idle → ∀ thr,
        tmGetThreadById s.death t tid = some thr → Inv { s with death := f thr }) →
      Inv { s with death := onThread s.death t tid f } := by
    intro t tid f hf
    rcases onThread_cases s.death t tid f with he | ⟨hrun, hidle, thr, hthr, he⟩ <;> rw [he]
    · exact h
    · exact hf hrun hidle thr hthr
  cases e with
  | terminate t tid code =>
    exact honThread t tid _ fun hrun hidle thr _ => inv_down h hrun hidle (hjoin t rfl) thr _
  | send t tid kmsg =>
    exact honThread t tid _ fun hrun hidle thr _ => inv_down h hrun hidle (hjoin t rfl) thr _
  | resume t tid =>
    refine honThread t tid _ fun hrun hidle thr hthr => ?_
    obtain ⟨hready, hdead⟩ := hok hrun hidle thr hthr
    exact inv_set h (tmSetThreadState_wellFormed h.wellFormed thr (by decide) (by decide))
      (tmResumeThread_stateOf _ thr) (by decide) (fun _ => hready) (by simp) (.inl rfl) hdead
  | suspend t tid =>
    refine honThread t tid _ fun hrun hidle thr hthr => ?_
    obtain ⟨hends, hdead⟩ := hok hrun hidle thr hthr
    exact inv_set h (tmSuspendThread_wellFormed h.wellFormed t thr)
      (tmSuspendThread_stateOf _ t thr) (by decide) (by simp) (by simp) (.inr hends) hdead
  | sleep t tid ms =>
    refine honThread t tid _ fun hrun hidle thr hthr => ?_
    obtain ⟨hnone, hends, hdead⟩ := hok hrun hidle thr hthr
    refine inv_set h (tmSleepThread_wellFormed h.wellFormed t thr ms)
      (tmSleepThread_stateOf _ t thr ms) ?_ (fun hr => ?_) (fun _ => hnone) (.inr hends) hdead
    · split_ifs <;> decide
    · split_ifs at hr
  | wakeup t tid =>
    exact honThread t tid _ fun hrun hidle thr hthr => inv_wakeup h (hok hrun hidle thr hthr)
  | reply t tid =>
    exact honThread t tid _ fun hrun hidle thr hthr => inv_wakeup h (hok hrun hidle thr hthr)
  | advance t =>
    rw [ThreadDeath.step]
    split_ifs with hrun
    · obtain ⟨hwakes, hends⟩ := hok hrun
      exact inv_advance h hrun hwakes hends
    · exact h
  | tick t canSchedule =>
    obtain ⟨hwf, hexpires⟩ := tmIncreaseTime_expires h.wellFormed t canSchedule
    refine ⟨hwf, h.sane.wake (fun x => (hexpires x).imp_right fun hx => ⟨.inr hx.1, hx.2⟩) ?_⟩
    intro x thr hs hr _
    change s.death.sched.stateOf x = .sleep at hs
    change (tmIncreaseTime s.death.sched t canSchedule).stateOf x = .ready at hr
    rcases hexpires x with he | ⟨hw, -⟩
    · rw [hr, hs] at he
      cases he
    · rw [hs] at hw
      cases hw

end Calls

/-! ## Joins -/

section Joins
variable {s : State} {t thr : Ptr} {stored : Bool}

lemma tmJoinThread_inv (h : Inv s) (hfree : Free s t) (hok : JoinOk s t thr stored) :
    Inv (tmJoinThread s t thr stored) := by
  obtain ⟨hrun, hidle, hnone⟩ := hfree
  by_cases hd : s.death.sched.stateOf thr = .dead
  · have hdeath : tmJoinThread s t thr stored =
        ⟨s.death, Function.update s.joining t (some thr)⟩ := by
      rw [tmJoinThread, if_neg (not_not.mpr hd), ite_self]
    rw [hdeath]
    exact ⟨h.wellFormed, h.sane.join hnone (.inl ⟨hd, hrun⟩)⟩
  · obtain ⟨hmem, rfl, hvalue⟩ := hok.resolve_left hd
    rw [tmJoinThread, if_pos hmem, if_pos hd, lockJoinSemaphore, if_pos hvalue]
    refine ⟨tmSleepThread_wellFormed h.wellFormed t t INFINITE, ?_⟩
    have hst : (tmSleepThread s.death.sched t t INFINITE).stateOf =
        Function.update (stateOf s) t .sleep := by simp [stateOf]
    have hset : Sane none (Function.update (stateOf s) t .sleep) (queues s.death) s.death.phase
        s.joining :=
      h.sane.set (by decide) (by simp) (fun _ => hnone) (.inr (not_ends hidle (by simp)))
        fun hdead => absurd hdead hrun.not_dead
    have hqueue : ∀ x, queues s.death x ⊆ queues (setJoinSemaphore s.death thr
        ⟨(s.death.joinSemaphore thr).value - 1,
          (s.death.joinSemaphore thr).waitQueue ++ [t]⟩) x := by
      intro x
      simp only [queues, setJoinSemaphore, Function.update_apply]
      split_ifs with hx
      · rw [hx]
        exact List.subset_append_left _ _
      · exact List.Subset.refl _
    change Sane none (tmSleepThread s.death.sched t t INFINITE).stateOf _ _ _
    rw [hst]
    refine (hset.queue_mono hqueue).join hnone (.inr ⟨?_, Function.update_self _ _ _, ?_⟩)
    · rw [Function.update_apply]
      split_ifs
      · decide
      · exact hd
    · simp [queues, setJoinSemaphore]

theorem step_inv (s : State) (e : Event) (h : Inv s) (hok : StepOk s e) : Inv (step s e) := by
  cases e with
  | join t thr stored =>
    rw [step]
    split_ifs with hfree
    · exact tmJoinThread_inv h hfree (hok hfree)
    · exact h
  | joinThread t tid stored =>
    rw [step]
    split_ifs with hfree
    · split
      · rename_i thr hthr
        exact tmJoinThread_inv h hfree (hok hfree thr hthr)
      · exact h
    · exact h
  | returns t =>
    rw [step]
    split_ifs
    · exact ⟨h.wellFormed, h.sane.leave t⟩
    · exact h
  | call e =>
    rw [step]
    split_ifs with hjoin
    · exact inv_call h e hjoin hok
    · exact h

/-! ### Steps that break the law -/

/-- `System_JoinThread` for a thread of another space than the system thread's is answered at
once. -/
theorem joinThread_not_good {tid : UInt32} (hfree : Free s t)
    (hthr : tmGetThreadById s.death t tid = some thr) (hlive : stateOf s thr ≠ .dead)
    (hspace : thr ∉ currentThreads s.death t) :
    ¬Good (step s (.joinThread t tid stored)) := by
  intro hgood
  rw [step, if_pos hfree, hthr] at hgood
  dsimp only at hgood
  rw [tmJoinThread, if_neg hspace] at hgood
  exact hlive (hgood.returns t thr (Function.update_self _ _ _) hfree.1)

/-- A joiner of a living thread returns when it is woken. -/
theorem wakeup_not_good {tid : UInt32} {w : Ptr} (hfree : Free s t)
    (hthr : tmGetThreadById s.death t tid = some w) (hw : Waits s w) :
    ¬Good (step s (.call (.wakeup t tid))) := by
  obtain ⟨hsleep, x, hj, hlive⟩ := hw
  intro hgood
  have hcaller : ∀ u ∈ caller (.wakeup t tid), s.joining u = none := by
    rintro u ⟨⟩
    exact hfree.2.2
  have hstep : step s (.call (.wakeup t tid)) =
      { s with death := { s.death with sched := (tmWakeupThread s.death.sched w).2 } } := by
    rw [step, if_pos hcaller, ThreadDeath.step, onThread, if_pos ⟨hfree.1, hfree.2.1⟩, hthr]
  have hst : stateOf (step s (.call (.wakeup t tid))) = Function.update (stateOf s) w .ready := by
    rw [hstep]
    exact (tmWakeupThread_stateOf _ w).trans (if_pos (.inl hsleep))
  have hdead := hgood.returns w x (by rw [hstep]; exact hj) (by rw [hst, Function.update_self])
  rw [hst, Function.update_apply] at hdead
  split_ifs at hdead
  exact hlive hdead

end Joins

/-! ## Whole runs -/

lemma Inv.good {s : State} (h : Inv s) : Good s :=
  ⟨h.sane.returns, fun t thr hj => h.sane.wakes t thr hj (by simp)⟩

lemma Fresh.inv {s : State} (h : Fresh s) : Inv s := by
  have hnone : ∀ {t thr}, s.joining t ≠ some thr := fun {t _} he => by
    rw [h.joining t] at he
    cases he
  refine ⟨h.death.wellFormed, fun _ _ hj => absurd hj hnone, fun _ _ hj => absurd hj hnone,
    fun _ _ hj => absurd hj hnone, fun _ _ hj => absurd hj hnone, fun u thr hu => ?_⟩
  exact absurd hu (not_ends (h.death.phase u) (by simp) thr)

/-- The law of joins holds in every state of a run whose steps all meet their conditions. -/
theorem join_run_good {s : State} (h : Fresh s) {es : List Event} (hok : Guarded step StepOk s es) :
    ∀ fs, fs <+: es → Good (run step s fs) := by
  rintro fs ⟨gs, rfl⟩
  have hfs := ((guarded_append s fs gs).mp hok).1
  exact (hfs.invariant Inv step_inv h.inv).good

/-- Thread 1 joins thread 2, which ends itself. -/
def joinedExit : List Event :=
  [.join 1 2 true, .call (.terminate 2 0x10002 0), .call (.advance 2), .returns 1]

/-- The threads of `twoThreads`, none of them in a join. -/
def start : State := ⟨twoThreads, fun _ => none⟩

lemma start_fresh : Fresh start := ⟨twoThreads_fresh, fun _ => rfl⟩

/-- The thread that is about to end disturbs nobody but its joiner. -/
lemma advanceOk_of_end {s : State} (hphase : s.death.phase 2 = .entered (.terminate 2 0))
    (hqueue : (s.death.semaphore 2).waitQueue = [])
    (hjoiners : (s.death.joinSemaphore 2).waitQueue = [1]) (hjoining : s.joining 1 = some 2) :
    StepOk s (.call (.advance 2)) := by
  intro _ _
  refine ⟨fun w hw => ?_, fun w code hend thr hends => ?_⟩
  · rw [Disturbs, hphase] at hw
    obtain ⟨-, hw | ⟨hw, hne⟩⟩ := hw
    · rw [hqueue] at hw
      exact absurd hw List.not_mem_nil
    · rw [hjoiners, List.mem_singleton] at hw
      rw [hw] at hne
      exact absurd hjoining hne
  · rw [hphase] at hend
    obtain ⟨rfl, -⟩ := Call.terminate.inj (Phase.entered.inj hend)
    exact not_ends hphase (by simp) thr hends

theorem join_run_good_joinedExit : Good (run step start joinedExit) := by
  have hend := advanceOk_of_end (s := step (step start (.join 1 2 true))
    (.call (.terminate 2 0x10002 0))) (by decide +kernel) (by decide +kernel) (by decide +kernel)
    (by decide +kernel)
  have hok : Guarded step StepOk start joinedExit :=
    ⟨fun _ => .inr (by decide +kernel), fun _ => trivial, hend, trivial, trivial⟩
  exact join_run_good start_fresh hok _ (List.prefix_refl _)

/-- A joiner that gets a wake-up returns from the join of a living thread. -/
theorem join_run_not_good : ¬ ∀ s es, Fresh s → ∀ fs, fs <+: es → Good (run step s fs) := by
  intro h
  have hgood := h start [.join 1 2 true, .call (.wakeup 2 0x10001)] start_fresh _
    (List.prefix_refl _)
  have hdead := hgood.returns 1 2 (by decide +kernel) (by decide +kernel)
  exact absurd hdead (by decide +kernel)

end Sgos.Join
