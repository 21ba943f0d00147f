import Sgos.Irq

/-!
# The interrupt flag of a thread

One byte stands for the whole stack of activations. As long as no activation that interrupted
another one clears it, the flag is set while an activation is in progress, the scheduler does not
switch inside of a handler, and a thread is switched away only when its interrupts have been
acknowledged.
-/
namespace Sgos.Irq
open GuardedRun LinkedChain Scheduler Thread

/-! ## What the scheduler does to the flags and to the running thread -/

/-- No thread has the state `TS_RUNNING`, which nothing sets. -/
def NotRunning (s : Scheduler.State) : Prop := ∀ t, s.stateOf t ≠ .running

/-- The flags stay as they are. -/
structure KeepsFlags (s s' : Scheduler.State) : Prop where
  flag : ∀ t, (s'.thread t).isInterrupted = (s.thread t).isInterrupted
  notRunning : NotRunning s → NotRunning s'

/-- Besides, the running thread stays. -/
structure Undisturbed (s s' : Scheduler.State) : Prop extends KeepsFlags s s' where
  running : s'.head .running = s.head .running

section Scheduler
variable {s s' s'' : Scheduler.State} {cur thr : Ptr}

lemma KeepsFlags.trans (h : KeepsFlags s s') (h' : KeepsFlags s' s'') : KeepsFlags s s'' :=
  ⟨fun t => (h'.flag t).trans (h.flag t), h'.notRunning ∘ h.notRunning⟩

lemma Undisturbed.refl (s : Scheduler.State) : Undisturbed s s := ⟨⟨fun _ => rfl, id⟩, rfl⟩

lemma Undisturbed.trans (h : Undisturbed s s') (h' : Undisturbed s' s'') : Undisturbed s s'' :=
  ⟨h.toKeepsFlags.trans h'.toKeepsFlags, h'.running.trans h.running⟩

/-- A change of one thread that leaves its flag alone. -/
lemma undisturbed_modify (s : Scheduler.State) (u : Ptr) {f : KThread → KThread}
    (hflag : ∀ k, (f k).isInterrupted = k.isInterrupted)
    (hstate : ∀ k, k.threadState ≠ .running → (f k).threadState ≠ .running) :
    Undisturbed s (s.modify u f) where
  flag t := by
    by_cases h : t = u
    · simp [State.modify, h, hflag]
    · simp [State.modify, h]
  notRunning hs t := by
    by_cases h : t = u
    · simpa [State.modify, State.stateOf, h] using hstate _ (hs u)
    · simpa [State.modify, State.stateOf, h] using hs t
  running := rfl

lemma undisturbed_setClock (s : Scheduler.State) (thr : Ptr) (c : Int32) :
    Undisturbed s (s.setClock thr c) :=
  undisturbed_modify s thr (fun _ => rfl) fun _ h => h

lemma undisturbed_setNext (s : Scheduler.State) (thr : Ptr) (v : Option Ptr) :
    Undisturbed s (s.setNext thr v) :=
  undisturbed_modify s thr (fun _ => rfl) fun _ h => h

lemma undisturbed_setPrev (s : Scheduler.State) (thr : Ptr) (v : Option Ptr) :
    Undisturbed s (s.setPrev thr v) :=
  undisturbed_modify s thr (fun _ => rfl) fun _ h => h

lemma undisturbed_setHead (s : Scheduler.State) {l : Link} (hl : l ≠ .running) (v : Option Ptr) :
    Undisturbed s (s.setHead l v) :=
  ⟨⟨fun _ => rfl, id⟩, by rw [State.setHead_head, Function.update_of_ne hl.symm]⟩

lemma undisturbed_removeFromLink (s : Scheduler.State) (thr : Ptr) {l : Link}
    (hl : l ≠ .running) : Undisturbed s (removeFromLink s thr (some l)) := by
  rw [removeFromLink]
  split
  · exact .refl s
  · dsimp only
    split
    · apply Undisturbed.trans _ (undisturbed_setNext _ _ _)
      split
      · exact undisturbed_setPrev s _ _
      · exact .refl s
    · apply Undisturbed.trans _ (undisturbed_setHead _ hl _)
      split
      · exact undisturbed_setPrev s _ _
      · exact .refl s

lemma undisturbed_putToLink (s : Scheduler.State) (thr : Ptr) {l : Link}
    (hl : l ≠ .running) : Undisturbed s (putToLink s thr (some l)) := by
  rw [putToLink]
  refine .trans ?_ (undisturbed_setHead _ hl _)
  split
  · exact (undisturbed_setNext s _ _).trans (undisturbed_setPrev _ _ _)
  · exact undisturbed_setNext s _ _

lemma undisturbed_tmSetThreadState (hs : NotRunning s) (thr : Ptr) (st : ThreadState)
    (hst : st ≠ .running) : Undisturbed s (tmSetThreadState s thr st) := by
  rw [tmSetThreadState]
  split_ifs with heq
  · exact .refl s
  have hremove : Undisturbed s (removeFromLink s thr (getThreadChain (s.stateOf thr))) := by
    cases hc : getThreadChain (s.stateOf thr) with
    | none => exact .refl s
    | some l => exact undisturbed_removeFromLink s thr (getThreadChain_ne_running (hs thr) hc)
  have hprev := hremove.trans (undisturbed_setPrev _ thr none)
  have hput : Undisturbed s (putToLink ((removeFromLink s thr
      (getThreadChain (s.stateOf thr))).setPrev thr none) thr (getThreadChain st)) := by
    cases hc : getThreadChain st with
    | none => exact hprev
    | some l =>
      exact hprev.trans (undisturbed_putToLink _ thr (getThreadChain_ne_running hst hc))
  exact hput.trans (undisturbed_modify _ thr (fun _ => rfl) fun _ _ => hst)

lemma keepsFlags_switchThread (s : Scheduler.State) (cur thr : Ptr) :
    KeepsFlags s (switchThread s cur thr) := by
  rw [switchThread]
  split_ifs <;> exact ⟨fun _ => rfl, id⟩

/-- A thread whose flag is set is not switched away. -/
lemma undisturbed_switchThread (hcur : (s.thread cur).isInterrupted = true) (thr : Ptr) :
    Undisturbed s (switchThread s cur thr) := by
  refine ⟨keepsFlags_switchThread s cur thr, ?_⟩
  rw [switchThread, if_pos hcur]
  split_ifs <;> rfl

lemma keepsFlags_tmSchedule (s : Scheduler.State) (cur : Ptr) :
    KeepsFlags s (tmSchedule s cur) := by
  simp only [tmSchedule]
  repeat' split
  all_goals first
    | exact (undisturbed_setClock s _ _).toKeepsFlags.trans (keepsFlags_switchThread _ _ _)
    | exact (Undisturbed.refl s).toKeepsFlags

lemma undisturbed_tmSchedule (hcur : (s.thread cur).isInterrupted = true) :
    Undisturbed s (tmSchedule s cur) := by
  have hclock : ∀ t c, Undisturbed s (switchThread (s.setClock t c) cur t) := fun t c =>
    (undisturbed_setClock s t c).trans
      (undisturbed_switchThread (((undisturbed_setClock s t c).flag cur).trans hcur) t)
  simp only [tmSchedule]
  repeat' split
  all_goals first
    | exact hclock _ _
    | exact .refl s

lemma undisturbed_expire (fuel : ℕ) (hs : NotRunning s) (p : Option Ptr) :
    Undisturbed s (expire fuel s p) := by
  induction fuel generalizing s p with
  | zero => exact .refl s
  | succ fuel ih =>
    cases p with
    | none => exact .refl s
    | some thr =>
      have hclock := undisturbed_setClock s thr (clockOf s thr - MS)
      have hset := hclock.trans (undisturbed_tmSetThreadState (hclock.notRunning hs) thr
        .ready (by decide))
      simp only [expire]
      split_ifs
      · split
        · exact hset.trans (ih (hset.notRunning hs) _)
        · split
          · exact hset.trans (ih (hset.notRunning hs) _)
          · exact hset
      · exact hclock.trans (ih (hclock.notRunning hs) _)

lemma undisturbed_tmIncreaseTime (hs : NotRunning s)
    (hcur : (s.thread cur).isInterrupted = true) (canSchedule : Int32) :
    Undisturbed s (tmIncreaseTime s cur canSchedule) := by
  have hexpire := undisturbed_expire addressSpace hs (s.head .wait)
  have hclock := hexpire.trans (undisturbed_setClock _ cur
    (clockOf (expire addressSpace s (s.head .wait)) cur - 1))
  rw [tmIncreaseTime]
  split_ifs
  · exact hclock.trans (undisturbed_tmSchedule ((hclock.flag cur).trans hcur))
  · exact hclock

lemma undisturbed_tmWakeupThread (hs : NotRunning s) (thr : Ptr) :
    Undisturbed s (tmWakeupThread s thr).2 := by
  rw [tmWakeupThread]
  split_ifs
  · exact undisturbed_tmSetThreadState hs thr _ (by decide)
  · exact .refl s

lemma keepsFlags_tmSleepThread (hs : NotRunning s) (cur thr : Ptr) (ms : UInt32) :
    KeepsFlags s (tmSleepThread s cur thr ms) := by
  have hset : Undisturbed s (if ms = INFINITE then tmSetThreadState s thr .sleep
      else tmSetThreadState (s.setClock thr ms.toInt32) thr .wait) := by
    have hclock := undisturbed_setClock s thr ms.toInt32
    split_ifs
    · exact undisturbed_tmSetThreadState hs thr _ (by decide)
    · exact hclock.trans (undisturbed_tmSetThreadState (hclock.notRunning hs) thr _ (by decide))
  simp only [tmSleepThread]
  generalize (if ms = INFINITE then tmSetThreadState s thr .sleep
    else tmSetThreadState (s.setClock thr ms.toInt32) thr .wait) = s1 at *
  split_ifs
  · exact hset.toKeepsFlags.trans (keepsFlags_tmSchedule s1 cur)
  · exact hset.toKeepsFlags

lemma keepsFlags_call (hs : NotRunning s) (cur : Ptr) (c : Call) : KeepsFlags s (c.run s cur) := by
  cases c with
  | schedule => exact keepsFlags_tmSchedule s cur
  | wakeup thr => exact (undisturbed_tmWakeupThread hs thr).toKeepsFlags
  | sleep thr ms => exact keepsFlags_tmSleepThread hs cur thr ms
  | suspend thr =>
    have hset := (undisturbed_tmSetThreadState hs thr .paused (by decide)).toKeepsFlags
    simp only [Call.run, tmSuspendThread]
    split_ifs
    · exact hset.trans (keepsFlags_tmSchedule _ cur)
    · exact hset
  | set thr st => exact (undisturbed_tmSetThreadState hs thr st.1 st.2.2).toKeepsFlags

/-- A handler that sleeps does not give the processor away. -/
lemma undisturbed_block (hs : NotRunning s) (hcur : (s.thread cur).isInterrupted = true) :
    Undisturbed s (tmSleepThread s cur cur INFINITE) := by
  have hset := undisturbed_tmSetThreadState hs cur .sleep (by decide)
  simp only [tmSleepThread, if_pos]
  exact hset.trans (undisturbed_tmSchedule ((hset.flag cur).trans hcur))

lemma keepsFlags_switchToNext (s : Scheduler.State) : KeepsFlags s (switchToNext s) := by
  rw [switchToNext]
  split <;> exact ⟨fun _ => rfl, id⟩

end Scheduler

/-! ## The invariant -/

/-- Below the innermost activation there are only timer routines that let interrupts in, and an
activation behind its handler is alone. -/
def Stacked : List Activation → Prop
  | [] => True
  | a :: as => (∀ b ∈ as, b.Enabled) ∧ (a.pc = .cleared ∨ a.Acknowledged → as = [])

/-- The flag is set while an activation of the current thread is in progress, and all interrupts of
the other threads have been acknowledged. -/
structure Good (s : State) : Prop where
  flag : ∀ t, s.current = some t → (∃ a ∈ s.stack t, a.InProgress) → s.flag t = true
  acknowledged : ∀ t, s.current ≠ some t → ∀ a ∈ s.stack t, a.Acknowledged

structure Inv (s : State) : Prop where
  notRunning : NotRunning s.sched
  stacked : ∀ t, Stacked (s.stack t)
  flag : ∀ t, s.current = some t → (∃ a ∈ s.stack t, a.InProgress) → s.flag t = true
  away : ∀ t, s.current ≠ some t → ∀ a ∈ s.stack t, a.pc = .leaving

section Invariant
variable {s : State} {cur : Ptr}

lemma Inv.good (h : Inv s) : Good s := ⟨h.flag, fun t ht a ha => .inr (h.away t ht a ha)⟩

lemma Inv.setMask (h : Inv s) (irq : Fin 16) (b : Bool) : Inv (s.setMask irq b) :=
  ⟨h.notRunning, h.stacked, h.flag, h.away⟩

/-- A new stack for the current thread. -/
lemma Inv.setStack (h : Inv s) (hcur : s.current = some cur) {as : List Activation}
    (hstack : Stacked as) (hflag : (∃ a ∈ as, a.InProgress) → s.flag cur = true) :
    Inv (s.setStack cur as) where
  notRunning := h.notRunning
  stacked t := by
    by_cases ht : t = cur
    · simpa [State.setStack, ht] using hstack
    · simpa [State.setStack, ht] using h.stacked t
  flag t ht hin := by
    obtain rfl : t = cur := Option.some.inj (ht.symm.trans hcur)
    exact hflag (by simpa [State.setStack] using hin)
  away t ht := by
    have hne : t ≠ cur := by
      rintro rfl
      exact ht hcur
    simpa [State.setStack, hne] using h.away t ht

lemma Inv.undisturbed (h : Inv s) {sched : Scheduler.State} (hs : Undisturbed s.sched sched) :
    Inv (s.setSched sched) where
  notRunning := hs.notRunning h.notRunning
  stacked := h.stacked
  flag t ht hin := (hs.flag t).trans (h.flag t (hs.running.symm.trans ht) hin)
  away t ht := h.away t fun hc => ht (hs.running.trans hc)

/-- With no handler under way, the processor may go to any thread. -/
lemma Inv.switch (h : Inv s) (hcur : s.current = some cur)
    (hleaving : ∀ a ∈ s.stack cur, a.pc = .leaving) {sched : Scheduler.State}
    (hs : KeepsFlags s.sched sched) : Inv (s.setSched sched) := by
  have hall : ∀ t, ∀ a ∈ s.stack t, a.pc = .leaving := by
    intro t
    by_cases ht : s.current = some t
    · obtain rfl : cur = t := Option.some.inj (hcur.symm.trans ht)
      exact hleaving
    · exact h.away t ht
  refine ⟨hs.notRunning h.notRunning, h.stacked, fun t _ hin => ?_, fun t _ => hall t⟩
  obtain ⟨a, ha, hin⟩ := hin
  have hpc := hall t a ha
  simp [Activation.InProgress, hpc] at hin

lemma Inv.setFlag (h : Inv s) (hcur : s.current = some cur) {b : Bool}
    (hb : b = false → ∀ a ∈ s.stack cur, ¬a.InProgress) : Inv (s.setFlag cur b) where
  notRunning t := by
    by_cases ht : t = cur
    · simpa [State.setFlag, State.modify, Scheduler.State.stateOf, ht] using h.notRunning cur
    · simpa [State.setFlag, State.modify, Scheduler.State.stateOf, ht] using h.notRunning t
  stacked := h.stacked
  flag t ht hin := by
    obtain rfl : cur = t := Option.some.inj (hcur.symm.trans ht)
    obtain ⟨a, ha, hin⟩ := hin
    cases b with
    | true => simp [State.flag, State.setFlag, State.modify]
    | false => exact absurd hin (hb rfl a ha)
  away := h.away

end Invariant

/-! ## Steps -/

/-- An activation that clears the flag has not interrupted another one in progress. -/
def Unnested (s : State) : Event → Prop
  | .advance _ => ∀ cur a as, s.current = some cur → s.stack cur = a :: as → a.pc = .messaging →
      ∀ b ∈ as, ¬b.InProgress
  | _ => True

section Steps
variable {s : State} {cur : Ptr}

lemma stacked_singleton (a : Activation) : Stacked [a] := ⟨by simp, fun _ => rfl⟩

lemma inProgress_of_enabled {a : Activation} (h : a.Enabled) : a.InProgress := by
  rcases h with h | h
  · exact .inr (.inl h)
  · exact .inr (.inr (.inl h))

lemma Inv.advance (h : Inv s) (hcur : s.current = some cur) (canSchedule : Int32)
    (hok : Unnested s (.advance canSchedule)) : Inv (advance s cur canSchedule) := by
  unfold Irq.advance
  cases hstack : s.stack cur with
  | nil => exact h
  | cons a as =>
    have hst : Stacked (a :: as) := hstack ▸ h.stacked cur
    have hbelow : ∀ b ∈ as, b.Enabled := hst.1
    have hflag : a.InProgress → s.flag cur = true := fun hin =>
      h.flag cur hcur ⟨a, by simp [hstack], hin⟩
    obtain ⟨irq, pc⟩ := a
    cases pc with
    | entered =>
      refine Inv.setStack (h.setFlag hcur (by simp)) hcur ⟨hbelow, ?_⟩ fun _ => ?_
      · simp [Activation.Acknowledged]
      · simp [State.flag, State.setFlag, State.modify]
    | handling =>
      have htrue := hflag (.inl rfl)
      dsimp only
      split_ifs
      · exact (h.setMask _ _).setStack hcur ⟨hbelow, by simp [Activation.Acknowledged]⟩
          fun _ => htrue
      · exact h.setStack hcur ⟨hbelow, by simp [Activation.Acknowledged]⟩ fun _ => htrue
    | ticking =>
      have htrue := hflag (.inr (.inl rfl))
      have hsched := undisturbed_tmIncreaseTime h.notRunning htrue canSchedule
      refine (h.undisturbed hsched).setStack (hsched.running.trans hcur)
        ⟨hbelow, by simp [Activation.Acknowledged]⟩ fun _ => (hsched.flag cur).trans htrue
    | ticked =>
      have htrue := hflag (.inr (.inr (.inl rfl)))
      exact (h.setMask _ _).setStack hcur ⟨hbelow, by simp [Activation.Acknowledged]⟩
        fun _ => htrue
    | messaging =>
      have hnil : as = [] := List.eq_nil_iff_forall_not_mem.mpr fun b hb =>
        hok cur _ as hcur hstack rfl b hb (inProgress_of_enabled (hbelow b hb))
      subst hnil
      refine Inv.setFlag (h.setStack hcur (stacked_singleton _) ?_) hcur fun _ => ?_
      · simp [Activation.InProgress]
      · simp [State.setStack, Activation.InProgress]
    | cleared =>
      obtain rfl := hst.2 (.inl rfl)
      exact h.setStack hcur (stacked_singleton _) (by simp [Activation.InProgress])
    | acknowledged =>
      obtain rfl := hst.2 (.inr (.inl rfl))
      have hleft : Inv (s.setStack cur [⟨irq, .leaving⟩]) :=
        h.setStack hcur (stacked_singleton _) (by simp [Activation.InProgress])
      exact hleft.switch hcur (by simp [State.setStack]) (keepsFlags_switchToNext s.sched)
    | leaving =>
      obtain rfl := hst.2 (.inr (.inr rfl))
      exact h.setStack hcur trivial (by simp)

lemma Inv.message (h : Inv s) (hcur : s.current = some cur) {c : Call}
    (hc : s.flag cur = true → Undisturbed s.sched (c.run s.sched cur)) :
    Inv (message s cur c) := by
  unfold Irq.message
  cases hstack : s.stack cur with
  | nil => exact h
  | cons a as =>
    dsimp only
    split_ifs with hpc
    · have htrue := h.flag cur hcur ⟨a, by simp [hstack], .inr (.inr (.inr hpc))⟩
      exact (h.setMask a.irq false).undisturbed (hc htrue)
    · exact h

lemma Inv.interrupt (h : Inv s) (hcur : s.current = some cur) (irq : Fin 16)
    (hin : Interruptible (s.stack cur)) :
    Inv (s.setStack cur (⟨irq, .entered⟩ :: s.stack cur)) := by
  refine h.setStack hcur ⟨?_, by simp [Activation.Acknowledged]⟩ ?_
  · cases hstack : s.stack cur with
    | nil => simp
    | cons a as =>
      rw [hstack] at hin
      have hst : Stacked (a :: as) := hstack ▸ h.stacked cur
      intro b hb
      rcases List.mem_cons.mp hb with rfl | hb
      · exact hin
      · exact hst.1 b hb
  · rintro ⟨a, ha, hprogress⟩
    rcases List.mem_cons.mp ha with rfl | ha
    · simp [Activation.InProgress] at hprogress
    · exact h.flag cur hcur ⟨a, ha, hprogress⟩

theorem inv_step (h : Inv s) (e : Event) (hok : Unnested s e) : Inv (step s e) := by
  unfold step
  cases hcur : s.current with
  | none => exact h
  | some cur =>
    cases e with
    | interrupt irq =>
      simp only [act]
      split_ifs with hin
      · exact h.interrupt hcur irq hin.1
      · exact h
    | advance canSchedule => exact h.advance hcur canSchedule hok
    | wake thr => exact h.message hcur fun _ => undisturbed_tmWakeupThread h.notRunning thr
    | block => exact h.message hcur fun htrue => undisturbed_block h.notRunning htrue
    | kernel c =>
      simp only [act]
      split_ifs with hnil
      · exact h.switch hcur (by simp [hnil]) (keepsFlags_call h.notRunning cur c)
      · exact h
    | enable irq b =>
      simp only [act]
      split_ifs
      · exact h.setMask irq b
      · exact h

/-- An activation that clears the flag of another one leaves a state that is not good. -/
lemma unnested_of_good {e : Event} (h : Good (step s e)) : Unnested s e := by
  cases e with
  | advance canSchedule =>
    intro cur a as hcur hstack hpc b hb hin
    have hstep : step s (.advance canSchedule) =
        (s.setFlag cur false).setStack cur (⟨a.irq, .cleared⟩ :: as) := by
      simp only [step, hcur, act, advance, hstack, hpc]
    rw [hstep] at h
    have hflag := h.flag cur hcur ⟨b, by simp [State.setStack, hb], hin⟩
    simp [State.flag, State.setFlag, State.setStack, State.modify] at hflag
  | _ => trivial

end Steps

/-! ## Runs -/

lemma inv_start (running : Option Ptr) : Inv (start running) where
  notRunning t := by simp [start, initial, Scheduler.State.stateOf, KThread.zero]
  stacked _ := trivial
  flag t _ hin := by simp [start] at hin
  away t _ a ha := by simp [start] at ha

/-- The flag law holds in all states of a run exactly if no activation that interrupted another one
reaches the end of its handler. -/
theorem run_good_iff (running : Option Ptr) (es : List Event) :
    (∀ fs, fs <+: es → Good (run step (start running) fs)) ↔
      Guarded step Unnested (start running) es :=
  forall_prefix_iff Inv Good (fun _ e h hok => inv_step h e hok)
    (fun _ e h => ⟨unnested_of_good, fun hok => (inv_step h e hok).good⟩)
    (inv_start running) (inv_start running).good es

/-- A keyboard interrupt on top of the timer routine clears the flag of the timer. -/
theorem not_run_good : ¬∀ fs, fs <+: [.interrupt 0, .advance 0, .advance 0, .interrupt 1,
    .advance 0, .advance 0, .advance 0] → Good (run step (start (some 1)) fs) := by
  intro h
  have hflag := (h _ (List.prefix_refl _)).flag 1 (by decide) ⟨⟨0, .ticking⟩, by decide, by decide⟩
  exact absurd hflag (by decide)

end Sgos.Irq
