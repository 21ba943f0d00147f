import Sgos.ThreadDeathRuns

/-!
# Messages to dead threads

Runs of `ThreadDeath` with what `IpcReceive` and `TmJoinThread` do to semaphores and queues, and
with a record of the threads whose `TmTerminateThread` has returned and of the calls of `IpcSend`
that were made after that. `IpcQuickSend` and the `Reply` of the system thread are `IpcSend`.
-/
namespace Sgos.LateSend
open GuardedRun Scheduler Thread ThreadDeath

def ERR_WRONGARG : Int32 := 3
def ERR_NOMEM : Int32 := 1

/-- The parts of `IpcReceive` that lock and unlock the semaphore of the caller and take a message,
and `TmJoinThread`, beside the calls of `ThreadDeath`. -/
inductive Event
  | call (e : ThreadDeath.Event)
  | lock (t : Ptr)
  | unlock (t : Ptr)
  | take (t : Ptr)
  | join (t : Ptr) (tid : UInt32)

/-- `ended` are the threads whose termination is through; `late` is the target of a call of
`IpcSend` that began after that. -/
structure System where
  state : ThreadDeath.State
  ended : Ptr → Bool
  late : Ptr → Option Ptr

def takeMessage (s : ThreadDeath.State) (t : Ptr) : ThreadDeath.State :=
  let q := s.messageQueue t
  match q.messages with
  | [] => s
  | _ :: ms => setMessageQueue s t ⟨q.curNum - 1, q.maxNum, ms, q.destroyed⟩

/-- `IpcLockSemaphore( &thr->JoinSemaphore )`, up to its sleep or return. -/
def downJoin (s : ThreadDeath.State) (t thr : Ptr) : ThreadDeath.State :=
  let sem := s.joinSemaphore thr
  if sem.value - 1 ≠ 0 then
    { s with
      joinSemaphore := Function.update s.joinSemaphore thr ⟨sem.value - 1, sem.waitQueue ++ [t]⟩
      sched := tmSleepThread s.sched t t INFINITE }
  else
    { s with
      joinSemaphore := Function.update s.joinSemaphore thr ⟨sem.value - 1, sem.waitQueue⟩ }

def tmJoinThread (s : ThreadDeath.State) (t thr : Ptr) : ThreadDeath.State :=
  if thr ∈ s.spaceThreads (s.threadId t >>> 16) ∧ s.sched.stateOf thr ≠ .dead then downJoin s t thr
  else s

/-- A part of a call that a thread makes on itself. -/
def onSelf (s : ThreadDeath.State) (t : Ptr) (s' : ThreadDeath.State) : ThreadDeath.State :=
  if Runnable s t ∧ s.phase t = .idle then s' else s

def stepState (s : ThreadDeath.State) : Event → ThreadDeath.State
  | .call e => ThreadDeath.step s e
  | .lock t => onSelf s t (down s t t)
  | .unlock t => onSelf s t (up s t)
  | .take t => onSelf s t (takeMessage s t)
  | .join t tid => onThread s t tid fun thr => tmJoinThread s t thr

/-- The thread whose termination is through with the next part of the call of `t`. -/
def finishes (s : ThreadDeath.State) (t : Ptr) : Option Ptr :=
  match s.phase t with
  | .emptied thr => some thr
  | .entered (.terminate thr _) => if thr = t then some thr else none
  | _ => none

def stepEnded (y : System) : Event → Ptr → Bool
  | .call (.advance t) =>
      if Runnable y.state t then
        (finishes y.state t).elim y.ended fun thr => Function.update y.ended thr true
      else y.ended
  | _ => y.ended

def stepLate (y : System) : Event → Ptr → Option Ptr
  | .call (.send t tid _) =>
      if Runnable y.state t ∧ y.state.phase t = .idle then
        Function.update y.late t ((tmGetThreadById y.state t tid).filter fun thr => y.ended thr)
      else y.late
  | .call (.advance t) => if Runnable y.state t then Function.update y.late t none else y.late
  | _ => y.late

def step (y : System) (e : Event) : System := ⟨stepState y.state e, stepEnded y e, stepLate y e⟩

/-- What a call of `IpcSend` by `t` returns with a step of `t`, if it returns. -/
def answer (s : ThreadDeath.State) : Event → Option Int32
  | .call (.send t tid _) =>
      if tmGetThreadById s t tid = none then some (-ERR_WRONGARG) else none
  | .call (.advance t) =>
      match s.phase t with
      | .entered (.send dest kmsg) =>
          if s.sched.stateOf dest = .dead ∨ s.sched.stateOf dest = .init then some (-ERR_WRONGARG)
          else if kmsg = none then some (-ERR_NOMEM) else none
      | .sent _ => some 0
      | _ => none
  | _ => none

/-- Nobody's state and no queue differ. -/
structure Quiet (s s' : ThreadDeath.State) : Prop where
  sched : s'.sched = s.sched
  messages : s'.messageQueue = s.messageQueue
  waiting : ∀ thr, (s'.semaphore thr).waitQueue = (s.semaphore thr).waitQueue
  joining : s'.joinSemaphore = s.joinSemaphore

/-- A call of `IpcSend` to the id of a thread that has ended stays awake, fails with its next part
at the latest, and changes no state and no queue. -/
def Refuses (y : System) : Event → Prop
  | .call (.send t tid kmsg) => Runnable y.state t → y.state.phase t = .idle →
      ∀ thr, y.ended thr = true → y.state.threadId thr = tid →
        let e := Event.call (.send t tid kmsg)
        Quiet y.state (step y e).state ∧
          (answer y.state e = some (-ERR_WRONGARG) ∨
            (step y e).late t = some thr ∧ (step y e).state.phase t = .entered (.send thr kmsg))
  | .call (.advance t) => Runnable y.state t → ∀ thr, y.late t = some thr →
      let e := Event.call (.advance t)
      Quiet y.state (step y e).state ∧ answer y.state e = some (-ERR_WRONGARG) ∧
        (step y e).state.phase t = .idle
  | _ => True

/-- No state of a dead thread is changed; the id of a thread that has ended is that of no other
thread, and its semaphore has the value 1 when a message is sent to it; and nobody waits for the
semaphore when such a call gives it back. -/
def StepOk (y : System) : Event → Prop
  | .call (.resume t tid) | .call (.suspend t tid) | .call (.sleep t tid _) =>
      TargetOk y.state t tid
  | .call (.send t tid _) => Runnable y.state t → y.state.phase t = .idle →
      ∀ thr, y.ended thr = true → y.state.threadId thr = tid →
        ∀ dest, tmGetThreadById y.state t tid = some dest →
          dest = thr ∧ (y.state.semaphore thr).value = 1
  | .call (.advance t) => Runnable y.state t →
      ∀ thr, y.late t = some thr → (y.state.semaphore thr).waitQueue = []
  | _ => True

/-- Threads that are being ended, or have ended, are dead. A late call has not looked at the state
yet. -/
structure Inv (y : System) : Prop where
  wellFormed : WellFormed y.state.sched
  dying : ∀ t thr, y.state.phase t = .marked thr ∨ y.state.phase t = .emptied thr →
    y.state.sched.stateOf thr = .dead
  ended : ∀ thr, y.ended thr = true → y.state.sched.stateOf thr = .dead
  late : ∀ t thr, y.late t = some thr →
    y.ended thr = true ∧ ∃ kmsg, y.state.phase t = .entered (.send thr kmsg)

section Steps
variable {y : System} {s s' : ThreadDeath.State} {t thr : Ptr}

/-! ## Steps that end no thread -/

/-- The dead stay dead, and only the phase of `t` differs. -/
structure Kept (s s' : ThreadDeath.State) (t : Ptr) : Prop where
  wellFormed : WellFormed s.sched → WellFormed s'.sched
  dead : ∀ u, s.sched.stateOf u = .dead → s'.sched.stateOf u = .dead
  phase : ∀ u, u ≠ t → s'.phase u = s.phase u

lemma kept_spares (h : Spares s.sched s'.sched) (hp : s'.phase = s.phase) (t : Ptr) :
    Kept s s' t :=
  ⟨h.wellFormed, h.dead, fun u _ => congrFun hp u⟩

lemma kept_call (h : Runnable s t) (thr : Ptr) (call : Call) :
    Kept s (setPhase (down s t thr) t (.entered call)) t where
  wellFormed := (calm_down h.not_dead thr).spares.wellFormed
  dead := (calm_down h.not_dead thr).spares.dead
  phase u hu := by
    rw [setPhase_phase, Function.update_of_ne hu, (calm_down h.not_dead thr).phase]

lemma spares_tmJoinThread (h : Runnable s t) (thr : Ptr) :
    Spares s.sched (tmJoinThread s t thr).sched ∧ (tmJoinThread s t thr).phase = s.phase := by
  unfold tmJoinThread downJoin
  dsimp only
  split_ifs
  · exact ⟨spares_tmSleepThread h.not_dead INFINITE, rfl⟩
  · exact ⟨Spares.refl _, rfl⟩
  · exact ⟨Spares.refl _, rfl⟩

lemma spares_takeMessage (s : ThreadDeath.State) (t : Ptr) :
    Spares s.sched (takeMessage s t).sched ∧ (takeMessage s t).phase = s.phase := by
  unfold takeMessage
  dsimp only
  split <;> exact ⟨Spares.refl _, rfl⟩

/-- A part of a call on the own thread, and a call on another one that changes no phase. -/
lemma kept_onSelf (h : Runnable s t → Spares s.sched s'.sched ∧ s'.phase = s.phase) :
    Kept s (onSelf s t s') t := by
  unfold onSelf
  split_ifs with hrun
  · exact kept_spares (h hrun.1).1 (h hrun.1).2 t
  · exact kept_spares (Spares.refl _) rfl t

lemma kept_onThread {tid : UInt32} {f : Ptr → ThreadDeath.State}
    (h : Runnable s t → s.phase t = .idle → ∀ thr, tmGetThreadById s t tid = some thr →
      Kept s (f thr) t) : Kept s (onThread s t tid f) t := by
  rcases onThread_cases s t tid f with he | ⟨hrun, hidle, thr, hthr, he⟩
  · rw [he]
    exact kept_spares (Spares.refl _) rfl t
  · rw [he]
    exact h hrun hidle thr hthr

lemma advance_phase (s : ThreadDeath.State) (t : Ptr) {u : Ptr} (hu : u ≠ t) :
    (ThreadDeath.advance s t).phase u = s.phase u := by
  have hset : ∀ (s' : ThreadDeath.State) (p : Phase), s'.phase = s.phase →
      (setPhase s' t p).phase u = s.phase u := by
    intro s' p hs
    rw [setPhase_phase, Function.update_of_ne hu, hs]
  have hup : ∀ s' : ThreadDeath.State, ∀ dest, (up s' dest).phase = s'.phase := fun s' dest =>
    (calm_up s' dest).phase
  unfold ThreadDeath.advance
  split
  case h_1 => rfl
  case h_2 =>
    dsimp only
    split_ifs
    · exact hset _ _ rfl
    · exact hset _ _ rfl
  case h_3 => exact hset _ _ rfl
  case h_4 => exact hset _ _ rfl
  case h_5 dest kmsg _ =>
    split_ifs
    · exact hset _ _ (hup _ _)
    · split
      · exact hset _ _ (hup _ _)
      · exact hset _ _ ((hup _ _).trans (calm_pushMessage s dest _).phase)
  case h_6 => exact hset _ _ rfl

lemma kept_advance (s : ThreadDeath.State) (t : Ptr) : Kept s (ThreadDeath.advance s t) t :=
  ⟨(advance_spares s t).wellFormed, (advance_spares s t).dead, fun _ => advance_phase s t⟩

/-- The thread that makes a step. -/
def actor : Event → Ptr
  | .call (.terminate t _ _) | .call (.resume t _) | .call (.suspend t _) | .call (.sleep t _ _)
  | .call (.wakeup t _) | .call (.send t _ _) | .call (.reply t _) | .call (.advance t)
  | .call (.tick t _) | .lock t | .unlock t | .take t | .join t _ => t

/-- Where no dead thread is met, every step keeps the dead. -/
lemma kept_step (hwf : WellFormed y.state.sched) (e : Event) (hok : StepOk y e) :
    Kept y.state (stepState y.state e) (actor e) := by
  have hsched : ∀ {t : Ptr} {sched : Scheduler.State}, Spares y.state.sched sched →
      Kept y.state { y.state with sched } t := fun h =>
    ⟨h.wellFormed, h.dead, fun _ _ => rfl⟩
  cases e with
  | call e =>
    cases e with
    | terminate t tid code => exact kept_onThread fun hrun _ thr _ => kept_call hrun thr _
    | send t tid kmsg => exact kept_onThread fun hrun _ thr _ => kept_call hrun thr _
    | resume t tid =>
      exact kept_onThread fun hrun hidle thr hthr =>
        hsched (spares_set (by decide) (by decide) (.inl (hok hrun hidle thr hthr)))
    | suspend t tid =>
      exact kept_onThread fun hrun hidle thr hthr =>
        hsched (spares_tmSuspendThread (hok hrun hidle thr hthr))
    | sleep t tid ms =>
      exact kept_onThread fun hrun hidle thr hthr =>
        hsched (spares_tmSleepThread (hok hrun hidle thr hthr) ms)
    | wakeup t tid => exact kept_onThread fun _ _ thr _ => hsched (spares_tmWakeupThread _ thr)
    | reply t tid => exact kept_onThread fun _ _ thr _ => hsched (spares_tmWakeupThread _ thr)
    | advance t =>
      change Kept y.state (if Runnable y.state t then ThreadDeath.advance y.state t else y.state) t
      split_ifs
      · exact kept_advance y.state t
      · exact kept_spares (Spares.refl _) rfl t
    | tick t canSchedule =>
      obtain ⟨hwf', hexpires⟩ := tmIncreaseTime_expires hwf t canSchedule
      exact ⟨fun _ => hwf', fun _ => hexpires.dead, fun _ _ => rfl⟩
  | lock t =>
    exact kept_onSelf fun hrun =>
      ⟨(calm_down hrun.not_dead t).spares, (calm_down hrun.not_dead t).phase⟩
  | unlock t => exact kept_onSelf fun _ => ⟨(calm_up _ t).spares, (calm_up _ t).phase⟩
  | take t => exact kept_onSelf fun _ => spares_takeMessage _ t
  | join t tid =>
    exact kept_onThread fun hrun _ thr _ =>
      kept_spares (spares_tmJoinThread hrun thr).1 (spares_tmJoinThread hrun thr).2 t

/-! ## The phase of the thread that makes a step -/

lemma onThread_phase {tid : UInt32} {f : Ptr → ThreadDeath.State}
    (h : Runnable s t → ∀ thr, (f thr).phase = s.phase) :
    (onThread s t tid f).phase = s.phase := by
  rcases onThread_cases s t tid f with he | ⟨hrun, -, thr, -, he⟩
  · rw [he]
  · rw [he, h hrun thr]

lemma onSelf_phase (h : Runnable s t → s'.phase = s.phase) :
    (onSelf s t s').phase = s.phase := by
  unfold onSelf
  split_ifs with hrun
  · exact h hrun.1
  · rfl

/-- A call of `down` is entered from outside of all calls. -/
lemma onThread_entered (s : ThreadDeath.State) (t : Ptr) (tid : UInt32) (call : Ptr → Call) :
    let s' := onThread s t tid fun thr => setPhase (down s t thr) t (.entered (call thr))
    s'.phase t = s.phase t ∨ s.phase t = .idle ∧
      ∃ thr, tmGetThreadById s t tid = some thr ∧ s'.phase t = .entered (call thr) := by
  intro s'
  rcases onThread_cases s t tid _ with he | ⟨-, hidle, thr, hthr, he⟩
  · exact .inl (congrArg (fun s => s.phase t) he)
  · refine .inr ⟨hidle, thr, hthr, ?_⟩
    change (onThread s t tid _).phase t = _
    rw [he, setPhase_phase, Function.update_self]

/-- A step by `t` keeps its phase, or enters a call, or goes on with one. -/
lemma phase_cases (y : System) (e : Event) :
    (stepState y.state e).phase (actor e) = y.state.phase (actor e) ∨
      (y.state.phase (actor e) = .idle ∧
        ∃ call, (stepState y.state e).phase (actor e) = .entered call) ∨
      ∃ t, e = .call (.advance t) ∧ Runnable y.state t := by
  have hsched : ∀ (t : Ptr) (tid : UInt32) (sched : Ptr → Scheduler.State),
      (onThread y.state t tid fun thr => { y.state with sched := sched thr }).phase =
        y.state.phase := fun _ _ _ => onThread_phase fun _ _ => rfl
  cases e with
  | call e =>
    cases e with
    | terminate t tid code =>
      rcases onThread_entered y.state t tid fun thr => .terminate thr code with
        he | ⟨hidle, thr, -, he⟩
      · exact .inl he
      · exact .inr (.inl ⟨hidle, _, he⟩)
    | send t tid kmsg =>
      rcases onThread_entered y.state t tid fun thr => .send thr kmsg with
        he | ⟨hidle, thr, -, he⟩
      · exact .inl he
      · exact .inr (.inl ⟨hidle, _, he⟩)
    | resume t tid => exact .inl (congrFun (hsched t tid _) t)
    | suspend t tid => exact .inl (congrFun (hsched t tid _) t)
    | sleep t tid ms => exact .inl (congrFun (hsched t tid _) t)
    | wakeup t tid => exact .inl (congrFun (hsched t tid _) t)
    | reply t tid => exact .inl (congrFun (hsched t tid _) t)
    | advance t =>
      by_cases hrun : Runnable y.state t
      · exact .inr (.inr ⟨t, rfl, hrun⟩)
      · exact .inl (congrArg (fun s : ThreadDeath.State => s.phase t) (if_neg hrun))
    | tick t canSchedule => exact .inl rfl
  | lock t =>
    exact .inl (congrFun (onSelf_phase fun hrun => (calm_down hrun.not_dead t).phase) t)
  | unlock t => exact .inl (congrFun (onSelf_phase fun _ => (calm_up _ t).phase) t)
  | take t => exact .inl (congrFun (onSelf_phase fun _ => (spares_takeMessage _ t).2) t)
  | join t tid =>
    exact .inl (congrFun (onThread_phase fun hrun thr => (spares_tmJoinThread hrun thr).2) t)

lemma markDead_dead (s : ThreadDeath.State) (thr : Ptr) (code : UInt32) :
    (markDead s thr code).sched.stateOf thr = .dead := by
  unfold markDead
  simp

/-- A thread that goes on with the end of another one has marked it dead. -/
lemma advance_dying (h : ∀ thr, s.phase t = .marked thr ∨ s.phase t = .emptied thr →
    s.sched.stateOf thr = .dead)
    (hp : (ThreadDeath.advance s t).phase t = .marked thr ∨
      (ThreadDeath.advance s t).phase t = .emptied thr) :
    (ThreadDeath.advance s t).sched.stateOf thr = .dead := by
  have hset : ∀ (s' : ThreadDeath.State) (p : Phase), (setPhase s' t p).phase t = p := by
    intro s' p
    rw [setPhase_phase, Function.update_self]
  unfold ThreadDeath.advance at hp ⊢
  cases hphase : s.phase t with
  | idle =>
    rw [hphase] at hp
    simp [hphase] at hp
  | entered call =>
    rw [hphase] at hp
    cases call with
    | terminate x code =>
      dsimp only at hp ⊢
      split_ifs at hp ⊢ with hself
      · simp [finish, hset] at hp
      · rw [hset] at hp
        obtain ⟨rfl⟩ : x = thr := by simpa using hp
        exact markDead_dead s _ code
    | send dest kmsg =>
      dsimp only at hp
      split_ifs at hp
      · simp [hset] at hp
      · cases kmsg <;> simp [hset] at hp
  | marked x =>
    rw [hphase] at hp
    obtain rfl : x = thr := by simpa [hset] using hp
    exact h x (.inl hphase)
  | emptied x =>
    rw [hphase] at hp
    simp [finish, hset] at hp
  | sent dest =>
    rw [hphase] at hp
    simp [hset] at hp

/-- A thread whose termination is through is dead. -/
lemma finishes_dead (h : ∀ thr, s.phase t = .marked thr ∨ s.phase t = .emptied thr →
    s.sched.stateOf thr = .dead) (hf : finishes s t = some thr) :
    (ThreadDeath.advance s t).sched.stateOf thr = .dead := by
  unfold finishes at hf
  unfold ThreadDeath.advance
  split at hf
  · rename_i x hphase
    obtain rfl : x = thr := Option.some.inj hf
    rw [hphase]
    exact (finish_spares s t x).dead x (h x (.inr hphase))
  · rename_i x code hphase
    split_ifs at hf with hself
    obtain rfl : x = thr := Option.some.inj hf
    rw [hphase]
    dsimp only
    rw [if_pos hself]
    exact (finish_spares _ t x).dead x (markDead_dead s x code)
  · cases hf

/-! ## The invariant -/

lemma stepEnded_cases (y : System) (e : Event) {thr : Ptr} (h : stepEnded y e thr = true) :
    y.ended thr = true ∨
      ∃ t, e = .call (.advance t) ∧ Runnable y.state t ∧ finishes y.state t = some thr := by
  unfold stepEnded at h
  split at h
  · rename_i t
    split_ifs at h with hrun
    · cases hf : finishes y.state t with
      | none =>
        rw [hf] at h
        exact .inl h
      | some x =>
        rw [hf, Option.elim_some, Function.update_apply] at h
        split_ifs at h with hx
        · exact .inr ⟨t, rfl, hrun, by rw [hx]; exact hf⟩
        · exact .inl h
    · exact .inl h
  · exact .inl h

lemma stepEnded_of_ended (y : System) (e : Event) {thr : Ptr} (h : y.ended thr = true) :
    stepEnded y e thr = true := by
  unfold stepEnded
  split
  · split_ifs
    · rename_i t _
      cases finishes y.state t with
      | none => exact h
      | some x =>
        rw [Option.elim_some, Function.update_apply]
        split_ifs
        · rfl
        · exact h
    · exact h
  · exact h

/-- A late call was late before the step and does not go on, or begins with it. -/
lemma stepLate_cases (y : System) (e : Event) {u thr : Ptr} (h : stepLate y e u = some thr) :
    (y.late u = some thr ∧ ¬(e = .call (.advance u) ∧ Runnable y.state u)) ∨
      ∃ tid kmsg, e = .call (.send u tid kmsg) ∧ Runnable y.state u ∧ y.state.phase u = .idle ∧
        tmGetThreadById y.state u tid = some thr ∧ y.ended thr = true := by
  unfold stepLate at h
  split at h
  · rename_i t tid kmsg
    split_ifs at h with hrun
    · rw [Function.update_apply] at h
      split_ifs at h with hu
      · subst hu
        rw [Option.filter_eq_some_iff] at h
        exact .inr ⟨tid, kmsg, rfl, hrun.1, hrun.2, h.1, h.2⟩
      · exact .inl ⟨h, by simp⟩
    · exact .inl ⟨h, by simp⟩
  · rename_i t
    split_ifs at h with hrun
    · rw [Function.update_apply] at h
      split_ifs at h with hu
      refine .inl ⟨h, ?_⟩
      rintro ⟨he, -⟩
      cases he
      exact hu rfl
    · refine .inl ⟨h, ?_⟩
      rintro ⟨he, hrun'⟩
      cases he
      exact hrun hrun'
  · rename_i hsend hadvance
    exact .inl ⟨h, fun he => hadvance u he.1⟩

/-- A message to a thread that is found: the phase behind `down`. -/
lemma step_send_found {tid : UInt32} {kmsg : Option Ptr} (hrun : Runnable s t)
    (hidle : s.phase t = .idle) (hthr : tmGetThreadById s t tid = some thr) :
    stepState s (.call (.send t tid kmsg)) =
      setPhase (down s t thr) t (.entered (.send thr kmsg)) := by
  change onThread s t tid (fun dest => setPhase (down s t dest) t (.entered (.send dest kmsg))) = _
  unfold onThread
  rw [if_pos ⟨hrun, hidle⟩, hthr]

lemma step_inv (y : System) (e : Event) (h : Inv y) (hok : StepOk y e) : Inv (step y e) := by
  have hkept := kept_step h.wellFormed e hok
  have hadvance : ∀ {t}, Runnable y.state t → stepState y.state (.call (.advance t)) =
      ThreadDeath.advance y.state t := fun hrun => if_pos hrun
  refine ⟨hkept.wellFormed h.wellFormed, fun u thr hu => ?_, fun thr hended => ?_,
    fun u thr hlate => ?_⟩
  · change (stepState y.state e).phase u = _ ∨ (stepState y.state e).phase u = _ at hu
    by_cases hactor : u = actor e
    · subst hactor
      rcases phase_cases y e with hsame | ⟨-, call, hentered⟩ | ⟨t, rfl, hrun⟩
      · rw [hsame] at hu
        exact hkept.dead thr (h.dying _ thr hu)
      · rw [hentered] at hu
        simp at hu
      · change (stepState y.state _).sched.stateOf thr = .dead
        rw [hadvance hrun] at hu ⊢
        exact advance_dying (h.dying t) hu
    · rw [hkept.phase u hactor] at hu
      exact hkept.dead thr (h.dying u thr hu)
  · rcases stepEnded_cases y e hended with hold | ⟨t, rfl, hrun, hf⟩
    · exact hkept.dead thr (h.ended thr hold)
    · change (stepState y.state _).sched.stateOf thr = .dead
      rw [hadvance hrun]
      exact finishes_dead (h.dying t) hf
  · rcases stepLate_cases y e hlate with ⟨hold, hnot⟩ | ⟨tid, kmsg, rfl, hrun, hidle, hthr, hended⟩
    · obtain ⟨hended, kmsg, hphase⟩ := h.late u thr hold
      refine ⟨stepEnded_of_ended y e hended, kmsg, ?_⟩
      change (stepState y.state e).phase u = _
      by_cases hactor : u = actor e
      · subst hactor
        rcases phase_cases y e with hsame | ⟨hidle, -⟩ | ⟨t, rfl, hrun⟩
        · rw [hsame, hphase]
        · rw [hidle] at hphase
          cases hphase
        · exact absurd ⟨rfl, hrun⟩ hnot
      · rw [hkept.phase u hactor, hphase]
    · refine ⟨stepEnded_of_ended y (.call (.send u tid kmsg)) hended, kmsg, ?_⟩
      change (stepState y.state (.call (.send u tid kmsg))).phase u = _
      rw [step_send_found hrun hidle hthr, setPhase_phase, Function.update_self]

/-! ## The calls fail -/

lemma Quiet.refl (s : ThreadDeath.State) : Quiet s s := ⟨rfl, rfl, fun _ => rfl, rfl⟩

/-- A change of a counter only. -/
lemma quiet_setSemaphore {sem : KSemaphore} (h : sem.waitQueue = (s.semaphore thr).waitQueue)
    (t : Ptr) (p : Phase) : Quiet s (setPhase (setSemaphore s thr sem) t p) := by
  refine ⟨rfl, rfl, fun x => ?_, rfl⟩
  change (Function.update s.semaphore thr sem x).waitQueue = _
  rw [Function.update_apply]
  split_ifs with hx
  · rw [hx, h]
  · rfl

/-- A call gets past the semaphore if it is free. -/
lemma quiet_down (h : (s.semaphore thr).value = 1) (p : Phase) :
    Quiet s (setPhase (down s t thr) t p) := by
  have hdown : down s t thr = setSemaphore s thr ⟨0, (s.semaphore thr).waitQueue⟩ := by
    unfold down
    dsimp only
    rw [h]
    exact if_neg (by decide)
  rw [hdown]
  exact @quiet_setSemaphore s thr ⟨0, _⟩ rfl t p

lemma quiet_up (h : (s.semaphore thr).waitQueue = []) (p : Phase) :
    Quiet s (setPhase (up s thr) t p) := by
  have hup : up s thr = setSemaphore s thr ⟨(s.semaphore thr).value + 1, []⟩ := by
    unfold up
    dsimp only
    rw [h]
  rw [hup]
  exact quiet_setSemaphore h.symm t p

lemma step_refuses (y : System) (e : Event) (h : Inv y) (hok : StepOk y e) : Refuses y e := by
  unfold Refuses
  split
  · rename_i t tid kmsg
    intro hrun hidle thr hended htid e
    change Quiet y.state (stepState y.state e) ∧ (answer y.state e = _ ∨
      stepLate y e t = some thr ∧ (stepState y.state e).phase t = _)
    cases hthr : tmGetThreadById y.state t tid with
    | none =>
      have hstay : stepState y.state e = y.state := by
        change onThread y.state t tid _ = _
        unfold onThread
        rw [if_pos ⟨hrun, hidle⟩, hthr]
      rw [hstay]
      exact ⟨Quiet.refl _, .inl (if_pos hthr)⟩
    | some dest =>
      obtain ⟨rfl, hfree⟩ := hok hrun hidle thr hended htid dest hthr
      rw [step_send_found hrun hidle hthr]
      refine ⟨quiet_down hfree _, .inr ⟨?_, ?_⟩⟩
      · change stepLate y (.call (.send t tid kmsg)) t = _
        unfold stepLate
        dsimp only
        rw [if_pos ⟨hrun, hidle⟩, Function.update_self, hthr, Option.filter_eq_some_iff]
        exact ⟨rfl, hended⟩
      · rw [setPhase_phase, Function.update_self]
  · rename_i t
    intro hrun thr hlate e
    obtain ⟨hended, kmsg, hphase⟩ := h.late t thr hlate
    have hdead := h.ended thr hended
    have hstep : stepState y.state e = setPhase (up y.state thr) t .idle := by
      change (if Runnable y.state t then ThreadDeath.advance y.state t else y.state) = _
      unfold ThreadDeath.advance
      rw [if_pos hrun, hphase]
      exact if_pos (.inl hdead)
    change Quiet y.state (stepState y.state e) ∧ _ ∧ (stepState y.state e).phase t = _
    rw [hstep]
    refine ⟨quiet_up (hok hrun thr hlate) _, ?_, by rw [setPhase_phase, Function.update_self]⟩
    change answer y.state (.call (.advance t)) = _
    unfold answer
    dsimp only
    rw [hphase]
    exact if_pos (.inl hdead)
  · trivial

end Steps

/-! ## Whole runs -/

/-- No thread is known to have ended. -/
def start (s : ThreadDeath.State) : System := ⟨s, fun _ => false, fun _ => none⟩

/-- When every step of a run meets its condition, all calls to threads that have ended fail at
once. -/
theorem run_refuses {s : ThreadDeath.State} (hwf : WellFormed s.sched)
    (hidle : ∀ t, s.phase t = .idle) {es : List Event} (hok : Guarded step StepOk (start s) es) :
    Guarded step Refuses (start s) es := by
  refine hok.law Inv (fun y e h hse => ⟨step_refuses y e h hse, step_inv y e h hse⟩)
    ⟨hwf, fun t thr h => ?_, fun thr h => ?_, fun t thr h => ?_⟩
  · change s.phase t = _ ∨ s.phase t = _ at h
    rw [hidle t] at h
    simp at h
  · cases h
  · cases h

lemma ready_target : ThreadState.ready ≠ .init ∧ ThreadState.ready ≠ .running := by decide

/-- Three ready threads, 1, 2 and 3, with the ids 0x10001, 0x10002 and 0x10003. -/
def threeThreads : ThreadDeath.State :=
  { twoThreads with
    sched := run Scheduler.step (initial (some 1))
      [(1, ⟨.ready, ready_target⟩), (2, ⟨.ready, ready_target⟩), (3, ⟨.ready, ready_target⟩)]
    spaceThreads := fun _ => [1, 2, 3] }

/-- While thread 1 ends thread 2, thread 3 waits to send it a message; when both are through,
another message is sent. -/
def oneWaits : List Event :=
  [.call (.terminate 1 0x10002 0), .call (.send 3 0x10002 none), .call (.advance 1),
    .call (.advance 1), .call (.advance 1), .call (.advance 3), .call (.send 1 0x10002 (some 64)),
    .call (.advance 1)]

lemma not_late {o : Option Ptr} {thr : Ptr} {p : Prop} (h : o = none)
    (hlate : o = some thr) : p := by
  rw [h] at hlate
  cases hlate

theorem run_refuses_oneWaits : Guarded step Refuses (start threeThreads) oneWaits := by
  refine run_refuses (run_wellFormed _ _) (fun _ => rfl) ⟨trivial, fun _ _ thr hended => ?_,
    fun _ thr => ?_, fun _ thr => ?_, fun _ thr => ?_, fun _ thr => ?_,
    fun _ _ thr hended htid dest hdest => ?_, fun _ thr hlate => ?_, trivial⟩
  · cases hended
  · exact not_late (by decide +kernel)
  · exact not_late (by decide +kernel)
  · exact not_late (by decide +kernel)
  · exact not_late (by decide +kernel)
  · change Function.update (fun _ => false) 2 true thr = true at hended
    rw [Function.update_apply] at hended
    split_ifs at hended with hthr
    subst hthr
    refine ⟨Option.some.inj (hdest.symm.trans (by decide +kernel)), by decide +kernel⟩
  · have htwo : (run step (start threeThreads) (oneWaits.take 7)).late 1 = some 2 := by
      decide +kernel
    obtain rfl : 2 = thr := Option.some.inj (htwo.symm.trans hlate)
    decide +kernel

/-- A message to a thread that was ended puts its sender to sleep. -/
theorem run_not_refuses : ¬∀ (s : ThreadDeath.State) (es : List Event), WellFormed s.sched →
    (∀ t, s.phase t = .idle) → Guarded step Refuses (start s) es := by
  intro h
  have hall := h twoThreads ([.call (.terminate 1 0x10002 0), .call (.advance 1),
    .call (.advance 1), .call (.advance 1)] ++ [.call (.send 1 0x10002 (some 64))])
    twoThreads_fresh.wellFormed twoThreads_fresh.phase
  obtain ⟨-, hlast, -⟩ := (guarded_append _ _ _).mp hall
  obtain ⟨hquiet, -⟩ := hlast (by decide +kernel) (by decide +kernel) 2 (by decide +kernel) rfl
  have hsleeps := congrArg (fun sched : Scheduler.State => sched.stateOf 1) hquiet.sched
  revert hsleeps
  decide +kernel

end Sgos.LateSend
