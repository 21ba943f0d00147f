import Sgos.SemaphoreLaw

/-!
# Runs of the semaphore

Runs whose steps meet their conditions keep the semaphore law. A wake-up of a waiting thread, which
any message to it causes, breaks it.
-/
namespace Sgos.Semaphore
open GuardedRun LinkedChain PointCount Queue Scheduler Thread

/-- The invariant, with the waiting threads read off the queue. -/
def Inv (s : State) : Prop :=
  ∃ xs, Holds s.sem.waitQueue xs ∧
    Books s.sched.stateOf (xs.map s.sem.waitQueue.value) s.sem.value s.phase

section Steps
variable {s : State} {xs : List Ptr} {t : Ptr}

lemma inQueue_iff (h : Holds s.sem.waitQueue xs) :
    InQueue s t ↔ t ∈ xs.map s.sem.waitQueue.value := by
  simp only [InQueue, h.chain.reaches_iff, List.mem_map]

lemma owner_iff (h : Holds s.sem.waitQueue xs) :
    Owner s t ↔ Owns s.phase (xs.map s.sem.waitQueue.value) t := by
  rw [Owner, Owns, inQueue_iff h]

lemma Inv.lock (h : Inv s) {block : Option Ptr} (ht : s.phase t = .out)
    (hok : LockOk s t block) : Inv (ipcLockSemaphore s t block) := by
  obtain ⟨xs, hholds, hbooks⟩ := h
  obtain ⟨hloaded, howner, hpush⟩ := hok
  rw [ipcLockSemaphore]
  by_cases hvalue : s.sem.value = 1
  · rw [if_neg (by rw [hvalue]; decide)]
    exact ⟨xs, hholds, hbooks.lock ht hvalue⟩
  · have hne : s.sem.value - 1 ≠ 0 := fun he => hvalue (by
      rw [← UInt32.sub_add_cancel s.sem.value 1, he]
      rfl)
    rw [if_pos hne]
    have hpair : rtlPushFrontQueue s.sem.waitQueue block t =
        (0, (rtlPushFrontQueue s.sem.waitQueue block t).2) := Prod.ext (hpush hvalue) rfl
    obtain ⟨nod, hnew, -, hholds', hval⟩ := rtlPushFrontQueue_spec hholds hpair
    have hnod : ∀ x ∈ xs, x ≠ nod := fun x hx he => hnew (he ▸ hholds.live x hx)
    have hmap : (xs ++ [nod]).map (rtlPushFrontQueue s.sem.waitQueue block t).2.value =
        xs.map s.sem.waitQueue.value ++ [t] := by
      rw [List.map_append, hval, List.map_singleton, Function.update_self]
      refine congrArg (· ++ [t]) (List.map_congr_left fun x hx => ?_)
      exact Function.update_of_ne (hnod x hx) _ _
    refine ⟨xs ++ [nod], hholds', ?_⟩
    simp only [setPhase]
    rw [hmap]
    refine hbooks.enqueue ht hvalue hloaded (fun hu => ?_) fun u => ?_
    · obtain ⟨w, hw⟩ := howner hu
      exact ⟨w, (owner_iff hholds).mp hw⟩
    · rw [tmSleepThread_stateOf, if_pos rfl, Function.update_apply]

lemma Inv.unlock (h : Inv s) (ht : s.phase t = .holding) : Inv (unlockPop s t) := by
  obtain ⟨xs, hholds, hbooks⟩ := h
  rw [unlockPop]
  cases xs with
  | nil =>
    obtain ⟨hnone, hholds', -⟩ := rtlPopBackQueue_nil hholds
    refine ⟨[], hholds', ?_⟩
    simp only [setPhase, hnone]
    exact hbooks.pop ht rfl fun _ => rfl
  | cons nod xs =>
    obtain ⟨hsome, hholds', hval, -⟩ := rtlPopBackQueue_cons hholds
    refine ⟨xs, hholds', ?_⟩
    simp only [setPhase, hsome, hval]
    exact hbooks.pop ht rfl nofun

/-- A wake-up that misses the queue. -/
lemma Inv.wakeup (h : Inv s) {u : Ptr} (hu : ¬ InQueue s u) :
    Inv { s with sched := (tmWakeupThread s.sched u).2 } := by
  obtain ⟨xs, hholds, hbooks⟩ := h
  refine ⟨xs, hholds, hbooks.congr fun t ht => tmWakeupThread_stateOf_of_ne s.sched ?_⟩
  rintro rfl
  exact hu ((inQueue_iff hholds).mpr ht)

/-- The phase of a thread outside the queue changes between two that do not own the semaphore. -/
lemma Inv.progress (h : Inv s) {p : Phase}
    (hnot : s.phase t ≠ .holding ∧ s.phase t ≠ .waiting) (hp : p ≠ .holding ∧ p ≠ .waiting)
    (hcharged : Charged p ↔ Charged (s.phase t))
    (hfresh : ∀ thr v, p = .loaded thr v → v = s.sem.value) : Inv (setPhase s t p) := by
  obtain ⟨xs, hholds, hbooks⟩ := h
  refine ⟨xs, hholds, hbooks.progress (fun ho => ?_) (fun hm => ?_) hp hcharged hfresh⟩
  · exact ho.elim hnot.1 fun hw => hnot.2 hw.1
  · exact hnot.2 (hbooks.asleep t hm).1

lemma Inv.advance (h : Inv s) (hrun : s.phase t = .waiting → Runnable s t)
    (hok : AdvanceOk s t) : Inv (advance s t) := by
  rw [Semaphore.advance]
  rw [AdvanceOk] at hok
  split
  case h_1 | h_2 => exact h
  case h_3 ht =>
    obtain ⟨xs, hholds, hbooks⟩ := h
    refine ⟨xs, hholds, hbooks.acquired ht ?_⟩
    rw [show s.sched.stateOf t = .ready from hrun ht]
    decide
  case h_4 thr ht =>
    refine h.progress ?_ ⟨nofun, nofun⟩ ?_ fun _ _ he => (Phase.loaded.inj he).2.symm
    · rw [ht]
      exact ⟨nofun, nofun⟩
    · rw [ht]
      exact iff_of_true (charged_loaded _ _) (charged_popped _)
  case h_5 thr v ht =>
    rw [ht] at hok
    obtain ⟨xs, hholds, hbooks⟩ := h
    exact ⟨xs, hholds, hbooks.store ht hok⟩
  case h_6 ht =>
    refine h.progress ?_ ⟨nofun, nofun⟩ ?_ nofun
    · rw [ht]
      exact ⟨nofun, nofun⟩
    · rw [ht]
      exact iff_of_false not_charged_out (not_charged_stored _)
  case h_7 w ht =>
    rw [ht] at hok
    refine (h.wakeup hok).progress ?_ ⟨nofun, nofun⟩ ?_ nofun
    · change s.phase t ≠ .holding ∧ s.phase t ≠ .waiting
      rw [ht]
      exact ⟨nofun, nofun⟩
    · change Charged .out ↔ Charged (s.phase t)
      rw [ht]
      exact iff_of_false not_charged_out (not_charged_stored _)

lemma Inv.sleep (h : Inv s) (ht : s.phase t = .out ∨ s.phase t = .holding) (ms : UInt32) :
    Inv { s with sched := tmSleepThread s.sched t t ms } := by
  obtain ⟨xs, hholds, hbooks⟩ := h
  refine ⟨xs, hholds, hbooks.congr fun u hu => ?_⟩
  have hut : u ≠ t := by
    rintro rfl
    have hwait := (hbooks.asleep u hu).1
    rcases ht with ht | ht <;> cases hwait.symm.trans ht
  rw [tmSleepThread_stateOf, Function.update_of_ne hut]

lemma step_inv (s : State) (e : Event) (h : Inv s) (hok : StepOk s e) : Inv (step s e) := by
  cases e with
  | lock t block =>
    rw [step]
    split_ifs with hc
    · exact h.lock hc.2 (hok hc.1 hc.2)
    · exact h
  | unlock t =>
    rw [step]
    split_ifs with hc
    · exact h.unlock hc.2
    · exact h
  | advance t =>
    rw [step]
    split_ifs with hc
    · exact h.advance (fun _ => hc) (hok hc)
    · exact h
  | wakeup u => exact h.wakeup hok
  | sleep t ms =>
    rw [step]
    split_ifs with hc
    · exact h.sleep hc.2 ms
    · exact h

lemma Inv.law (h : Inv s) : SemaphoreLaw s := by
  obtain ⟨xs, hholds, hbooks⟩ := h
  refine ⟨fun t u ht hu => hbooks.unique t u (.inl ht) (.inl hu), fun hfree hcalls => ?_⟩
  cases xs with
  | nil => exact hholds.ends_eq_nil.1
  | cons nod xs =>
    obtain ⟨t, ht | ⟨ht, hnot⟩⟩ := hbooks.owned (List.cons_ne_nil _ _)
    · exact absurd ht (hfree t)
    · have hcall := hcalls t (by rw [ht]; nofun)
      exact absurd ((inQueue_iff hholds).mp hcall.2) hnot

end Steps

lemma start_inv (sched : Scheduler.State) (heap : Queue.State) : Inv (start sched heap) := by
  refine ⟨[], ⟨Chain.nil, rfl, nofun⟩, ⟨List.nodup_nil, nofun, ?_, fun h => absurd rfl h, ?_, nofun⟩⟩
  · rintro t u (ht | ⟨ht, -⟩) <;> cases ht
  · have hnone : count (fun t => Charged ((start sched heap).phase t)) = 0 :=
      count_none fun _ => not_charged_out
    rw [hnone]
    rfl

/-- With a new semaphore, whatever the threads do and in whatever order: if each step meets its
condition, at most one thread holds the semaphore and no wake-up is lost. -/
theorem run_semaphoreLaw (sched : Scheduler.State) (heap : Queue.State) {es : List Event}
    (hok : Guarded step StepOk (start sched heap) es) :
    SemaphoreLaw (run step (start sched heap) es) :=
  (hok.invariant Inv step_inv (start_inv sched heap)).law

/-- Every thread is ready. -/
def allReady : Scheduler.State :=
  ⟨⟨none, fun _ => none⟩, fun _ => { KThread.zero with threadState := .ready }⟩

def emptyHeap : Queue.State := ⟨fun _ => ⟨none, none, 0⟩, ⟨0, 0, none, none⟩, []⟩

/-- The semaphore is handed from a thread to one that waits for it. -/
def handOver : List Event :=
  [.lock 1 none, .lock 2 (some 0x100), .unlock 1, .advance 1, .advance 1, .advance 1, .advance 2]

theorem run_semaphoreLaw_handOver :
    SemaphoreLaw (run step (start allReady emptyHeap) handOver) := by
  have hout : ∀ u, ¬ IsLoaded ((fun _ => .out : Ptr → Phase) u) := fun _ => nofun
  have hupdate : ∀ {phase : Ptr → Phase} {t : Ptr} {p : Phase}, (∀ u, ¬ IsLoaded (phase u)) →
      ∀ u, u ≠ t ∨ ¬ IsLoaded p → ¬ IsLoaded (Function.update phase t p u) := by
    intro phase t p hphase u hu
    rw [Function.update_apply]
    split_ifs with hut
    · exact hu.resolve_left fun hne => hne hut
    · exact hphase u
  have hheld := hupdate (t := 1) (p := .holding) hout
  have hwait := hupdate (t := 2) (p := .waiting) fun u => hheld u (.inr nofun)
  have hpopped := hupdate (t := 1) (p := .popped (some 2)) fun u => hwait u (.inr nofun)
  refine run_semaphoreLaw allReady emptyHeap ⟨fun _ _ => ⟨hout, ?_, fun h => absurd rfl h⟩,
    fun _ _ => ⟨fun u => hheld u (.inr nofun), ?_, fun _ => by decide +kernel⟩, trivial,
    fun _ => trivial, fun _ u hu => ?_, fun _ => ?_, fun _ => trivial, trivial⟩
  · rintro ⟨u, ⟨_, hu⟩ | hu⟩
    · cases hu
    · exact absurd hu (hout u)
  · exact fun _ => ⟨1, .inl rfl⟩
  · exact hupdate (t := 1) (p := .loaded (some 2) _) (fun u => hpopped u (.inr nofun)) u (.inl hu)
  · rintro ⟨nod, hr, -⟩
    exact List.not_mem_nil ((@Chain.nil _ _ fun _ => none).reaches_iff.mp hr)

/-- A message wakes the thread that waits for the semaphore, while another one holds it. -/
theorem run_not_semaphoreLaw : ¬ ∀ (sched : Scheduler.State) (heap : Queue.State)
    (es : List Event), SemaphoreLaw (run step (start sched heap) es) := by
  intro h
  have hlaw := h allReady emptyHeap [.lock 1 none, .lock 2 (some 0x100), .wakeup 2, .advance 2]
  have htwo := hlaw.exclusion 1 2 (by decide +kernel) (by decide +kernel)
  cases htwo

end Sgos.Semaphore
