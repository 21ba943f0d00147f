import Sgos.ThreadClocks

/-!
# The clock tick

The loop of `TmIncreaseTime` takes the threads whose time is over out of the chain it goes along.
It visits every waiting thread, but for the second one when the first one leaves: then it goes on
behind the new head.
-/
namespace Sgos.TimerTick
open LinkedChain Scheduler Thread ThreadClocks

variable {s s' : State} {lists : Link → List Ptr} {kept rest : List Ptr} {x : Ptr}

/-- The time of a waiting thread is over with this tick. -/
def expires (s : State) (t : Ptr) : Bool := clockOf s t - MS ≤ 0

/-- The state behind the loop, before the running thread is charged. -/
def countDown (s : State) : State := expire addressSpace s (s.head .wait)

/-! ## The loop -/

/-- The chains after a waiting thread has become ready. -/
def woken (lists : Link → List Ptr) (waiting ready : List Ptr) : Link → List Ptr :=
  Function.update (Function.update lists .wait waiting) .ready ready

lemma woken_woken (lists : Link → List Ptr) (as bs cs ds : List Ptr) :
    woken (woken lists as bs) cs ds = woken lists cs ds := by
  funext l
  unfold woken
  cases l <;> simp

lemma chainsOf_wake (h : ChainsOf s lists) (hw : lists .wait = kept ++ x :: rest) :
    ChainsOf (tmSetThreadState s x .ready) (woken lists (kept ++ rest) (x :: lists .ready)) := by
  have hx : x ∈ lists .wait := by simp [hw]
  have hnodup := (h.chain .wait (by decide)).nodup
  have hwait : s.stateOf x = .wait :=
    getThreadChain_injective ((h.mem .wait (by decide) x).mp hx) rfl
  have hother (l : Link) (hl : l ≠ .running) (hne : l ≠ .wait) : (lists l).erase x = lists l :=
    List.erase_of_not_mem (h.disjoint hl (by decide) (Ne.symm hne) hx)
  obtain ⟨hd, hst⟩ := h.removed x
  have hready : getThreadChain .ready = some .ready := rfl
  have hput := (hd.setPrev none).put (fun t => by
    rw [State.setPrev_stateOf, hst]
    exact h.notRunning t) (by simp) (by decide) hready
  have hset : tmSetThreadState s x .ready = (putToLink ((removeFromLink s x
      (getThreadChain (s.stateOf x))).setPrev x none) x (some .ready)).setState x .ready := by
    unfold tmSetThreadState
    rw [if_neg (by rw [hwait]; decide)]
    rfl
  have hlists (l : Link) (hl : l ≠ .running) : Function.update (fun l => (lists l).erase x) .ready
      (x :: (lists .ready).erase x) l = woken lists (kept ++ rest) (x :: lists .ready) l := by
    have herase : (kept ++ x :: rest).erase x = kept ++ rest := by
      rw [hw, List.nodup_middle, List.nodup_cons] at hnodup
      rw [List.erase_append_right _ fun hm => hnodup.1 (List.mem_append_left _ hm),
        List.erase_cons_head]
    unfold woken
    by_cases hr : l = .ready
    · simp [hr, hother .ready (by decide) (by decide)]
    · by_cases hlw : l = .wait
      · simp [hlw, hw, herase]
      · simp [hr, hlw, hother l hl hlw]
  rw [hset]
  constructor
  · intro l hl
    rw [← hlists l hl]
    exact hput.chain l hl
  · intro l hl t
    rw [← hlists l hl]
    exact hput.mem l hl t
  · exact hput.notRunning

/-- A stretch of the loop: the waiting threads `rest` are behind it, the threads `kept` in front of
them still wait. -/
structure Swept (s s' : State) (lists : Link → List Ptr) (kept rest : List Ptr) : Prop where
  chains : ChainsOf s' (woken lists (kept ++ rest.filter fun t => !expires s t)
    ((rest.filter (expires s)).reverse ++ lists .ready))
  clock : ∀ t, clockOf s' t = if t ∈ rest then clockOf s t - MS else clockOf s t

/-- The loop visits all threads, unless the first one of the chain leaves. -/
lemma expire_swept {fuel : ℕ} (h : ChainsOf s lists) (hw : lists .wait = kept ++ rest)
    (hne : kept = [] → ∀ x ∈ rest.head?, expires s x = false) (hfuel : rest.length ≤ fuel) :
    Swept s (expire fuel s rest.head?) lists kept rest := by
  induction rest generalizing s lists kept fuel with
  | nil =>
    have hdone : expire fuel s none = s := by cases fuel <;> rfl
    refine ⟨?_, fun t => ?_⟩
    · have hsame : woken lists (kept ++ []) ([] ++ lists .ready) = lists := by
        unfold woken
        rw [← hw]
        simp
      rw [List.head?_nil, hdone, List.filter_nil, List.filter_nil, List.reverse_nil, hsame]
      exact h
    · rw [List.head?_nil, hdone]
      simp
  | cons x rest ih =>
    obtain ⟨fuel, rfl⟩ := Nat.exists_eq_add_of_le' (Nat.lt_of_lt_of_le rest.length.succ_pos hfuel)
    rw [List.length_cons, Nat.add_le_add_iff_right] at hfuel
    have hchain := h.chain .wait (by decide)
    rw [hw] at hchain
    have hfresh := (List.nodup_cons.mp (List.nodup_middle.mp hchain.nodup)).1
    have hrest : ∀ t ∈ rest, t ≠ x := fun t ht he => hfresh (by simp [← he, ht])
    have hclock := clockOf_setClock s x (c := clockOf s x - MS)
    have hset := chainsOf_setClock h x (clockOf s x - MS)
    have hown : clockOf (s.setClock x (clockOf s x - MS)) x = clockOf s x - MS := by simp [hclock]
    -- the threads behind this one are judged as before
    have hsame : ∀ t ∈ rest, expires (s.setClock x (clockOf s x - MS)) t = expires s t := by
      intro t ht
      unfold expires
      rw [hclock, if_neg (hrest t ht)]
    have hcharge : ∀ t, (if t ∈ rest then clockOf (s.setClock x (clockOf s x - MS)) t - MS
        else clockOf (s.setClock x (clockOf s x - MS)) t) =
          if t ∈ x :: rest then clockOf s t - MS else clockOf s t := by
      intro t
      by_cases ht : t = x
      · have hnot : x ∉ rest := fun hx => hrest x hx rfl
        simp [ht, hnot, hclock]
      · simp [ht, hclock]
    rw [List.head?_cons, expire]
    dsimp only
    rw [hown]
    by_cases hover : clockOf s x - MS ≤ 0
    · have hwake := chainsOf_wake hset hw
      have hx : expires s x = true := by simp [expires, hover]
      have hbehind : kept ≠ [] := fun hnil => by
        rw [hne hnil x rfl] at hx
        cases hx
      obtain ⟨pre, p, rfl⟩ : ∃ pre p, kept = pre ++ [p] :=
        ⟨kept.dropLast, kept.getLast hbehind, (List.dropLast_append_getLast hbehind).symm⟩
      have hprev : (s.setClock x (clockOf s x - MS)).prev x = some p := by
        rw [State.setClock_prev, hchain.prev_eq, List.getLast?_append_cons]
        rfl
      have hlink := hwake.chain .wait (by decide)
      have hnext : (tmSetThreadState (s.setClock x (clockOf s x - MS)) x .ready).next p =
          rest.head? := by
        have hwait : woken lists (pre ++ [p] ++ rest) (x :: lists .ready) .wait =
            pre ++ p :: rest := by simp [woken]
        rw [hwait] at hlink
        exact hlink.next_eq
      rw [if_pos hover, hprev]
      dsimp only
      rw [hnext]
      obtain ⟨hc, hk⟩ := ih hwake (by simp [woken]) (fun hnil => absurd hnil hbehind) hfuel
      refine ⟨?_, fun t => ?_⟩
      · have hjudge : ∀ t ∈ rest,
            expires (tmSetThreadState (s.setClock x (clockOf s x - MS)) x .ready) t =
              expires s t := by
          intro t ht
          rw [← hsame t ht, expires, expires, clockOf_tmSetThreadState]
        have hstay := List.filter_congr fun t ht => congrArg (!·) (hjudge t ht)
        have hready : woken lists (pre ++ [p] ++ rest) (x :: lists .ready) .ready =
            x :: lists .ready := by simp [woken]
        rw [List.filter_congr hjudge, hstay, woken_woken, hready] at hc
        simpa [hx] using hc
      · rw [hk, clockOf_tmSetThreadState, hcharge]
    · rw [if_neg hover, State.setClock_next, hchain.next_eq]
      have hw' : lists .wait = kept ++ [x] ++ rest := by simpa using hw
      obtain ⟨hc, hk⟩ := ih hset hw' (fun hnil => absurd hnil (by simp)) hfuel
      refine ⟨?_, fun t => ?_⟩
      · have hx : expires s x = false := by simp [expires, hover]
        have hstay := List.filter_congr fun t ht => congrArg (!·) (hsame t ht)
        rw [List.filter_congr hsame, hstay] at hc
        simpa [hx] using hc
      · rw [hk, hcharge]

/-! ## A tick -/

/-- The thread that the loop does not visit. -/
def passed (s : State) : List Ptr → Option Ptr
  | x :: y :: _ => if expires s x then some y else none
  | _ => none

/-- A thread that the loop leaves in the chain. -/
def stays (s : State) (ws : List Ptr) (t : Ptr) : Bool := !expires s t || passed s ws = some t

/-- The whole loop over the waiting threads `ws`. -/
structure Counted (s s' : State) (lists : Link → List Ptr) (ws : List Ptr) : Prop where
  chains : ChainsOf s' (woken lists (ws.filter (stays s ws))
    ((ws.filter fun t => !stays s ws t).reverse ++ lists .ready))
  clock : ∀ t, clockOf s' t =
    if t ∈ ws ∧ passed s ws ≠ some t then clockOf s t - MS else clockOf s t

/-- When the first thread leaves, the loop goes on behind the second one. -/
lemma expire_first (h : ChainsOf s lists) {ws : List Ptr} (hws : lists .wait = x :: ws)
    (hexp : expires s x = true) : ∃ s₁, ChainsOf s₁ (woken lists ws (x :: lists .ready)) ∧
      (∀ t, clockOf s₁ t = if t = x then clockOf s x - MS else clockOf s t) ∧
      ∀ k, expire (k + 1) s (some x) = expire k s₁ ws.tail.head? := by
  have hclock := clockOf_setClock s x (c := clockOf s x - MS)
  have hover : clockOf s x - MS ≤ 0 := by simpa [expires] using hexp
  have hown : clockOf (s.setClock x (clockOf s x - MS)) x = clockOf s x - MS := by simp [hclock]
  have hw : lists .wait = [] ++ x :: ws := hws
  have hwake := chainsOf_wake (chainsOf_setClock h x (clockOf s x - MS)) hw
  have hprev : (s.setClock x (clockOf s x - MS)).prev x = none := by
    have hchain := h.chain .wait (by decide)
    rw [hw] at hchain
    rw [State.setClock_prev, hchain.prev_eq]
    rfl
  have hlink := hwake.chain .wait (by decide)
  have hwait : woken lists ([] ++ ws) (x :: lists .ready) .wait = ws := by simp [woken]
  rw [hwait] at hlink
  refine ⟨_, hwake, fun t => by rw [clockOf_tmSetThreadState, hclock], fun k => ?_⟩
  rw [expire]
  dsimp only
  rw [hown, if_pos hover, hprev]
  dsimp only
  rw [hlink.head_eq]
  cases ws with
  | nil => cases k <;> rfl
  | cons y rest =>
    have hnext := (show Chain _ _ _ ([] ++ y :: rest) from hlink).next_eq
    rw [List.head?_cons]
    dsimp only
    rw [hnext]
    rfl

lemma countDown_counted (h : ChainsOf s lists) : Counted s (countDown s) lists (lists .wait) := by
  have hchain := h.chain .wait (by decide)
  have hfuel := nodup_length_le hchain.nodup
  have hnodup := hchain.nodup
  unfold countDown
  rw [hchain.head_eq]
  by_cases hfirst : ∀ x ∈ (lists .wait).head?, expires s x = false
  · -- the first thread stays, so none is passed over
    obtain ⟨hc, hk⟩ := expire_swept h (List.nil_append _).symm (fun _ => hfirst) hfuel
    have hnone : passed s (lists .wait) = none := by
      unfold passed
      split
      next x y rest heq => rw [if_neg (by simp [hfirst x (by simp [heq])])]
      next => rfl
    have hstays : stays s (lists .wait) = fun t => !expires s t := by
      funext t
      simp [stays, hnone]
    refine ⟨?_, fun t => ?_⟩
    · rw [hstays]
      simpa using hc
    · rw [hk, hnone]
      simp
  · obtain ⟨x, ws, hws, hexp⟩ : ∃ x ws, lists .wait = x :: ws ∧ expires s x = true := by
      cases hws : lists .wait with
      | nil => simp [hws] at hfirst
      | cons x ws => exact ⟨x, ws, rfl, by simpa [hws] using hfirst⟩
    obtain ⟨k, hk⟩ : ∃ k, addressSpace = k + 1 := ⟨4294967295, rfl⟩
    obtain ⟨s₁, hwake, hclock, hloop⟩ := expire_first h hws hexp
    rw [hws, List.length_cons, hk, Nat.add_le_add_iff_right] at hfuel
    rw [hws] at hnodup
    rw [hws, List.head?_cons, hk, hloop]
    cases ws with
    | nil =>
      have hdone : expire k s₁ ([] : List Ptr).tail.head? = s₁ := by cases k <;> rfl
      have hstays : stays s [x] x = false := by simp [stays, passed, hexp]
      rw [hdone]
      refine ⟨by simpa [hstays] using hwake, fun t => ?_⟩
      rw [hclock]
      by_cases ht : t = x
      · simp [ht, passed]
      · simp [ht]
    | cons y rest =>
      have hpassed : passed s (x :: y :: rest) = some y := by simp [passed, hexp]
      have hkept : woken lists (y :: rest) (x :: lists .ready) .wait = [y] ++ rest := by
        simp [woken]
      have hready : woken lists (y :: rest) (x :: lists .ready) .ready = x :: lists .ready := by
        simp [woken]
      obtain ⟨hc, hcl⟩ := expire_swept hwake hkept (by simp) ((Nat.le_succ _).trans hfuel)
      rw [List.nodup_cons, List.nodup_cons] at hnodup
      have hyx : y ≠ x := fun he => hnodup.1 (by simp [he])
      have hother : ∀ t ∈ rest, t ≠ x ∧ t ≠ y := fun t ht =>
        ⟨fun he => hnodup.1 (by simp [← he, ht]), fun he => hnodup.2.1 (by simp [← he, ht])⟩
      have hjudge : ∀ t ∈ rest, expires s₁ t = expires s t := by
        intro t ht
        rw [expires, expires, hclock, if_neg (hother t ht).1]
      have hstay : ∀ t ∈ rest, stays s (x :: y :: rest) t = !expires s t := by
        intro t ht
        simp [stays, hpassed, (hother t ht).2.symm]
      have hleave : ∀ t ∈ rest, (!stays s (x :: y :: rest) t) = expires s t := fun t ht => by
        rw [hstay t ht, Bool.not_not]
      have hx : stays s (x :: y :: rest) x = false := by simp [stays, hpassed, hexp, hyx]
      have hy : stays s (x :: y :: rest) y = true := by simp [stays, hpassed]
      refine ⟨?_, fun t => ?_⟩
      · rw [List.filter_congr hjudge, List.filter_congr fun t ht => congrArg (!·) (hjudge t ht),
          woken_woken, hready] at hc
        simpa [hx, hy, List.filter_congr hstay, List.filter_congr hleave] using hc
      · have hloop : clockOf (expire k s₁ rest.head?) t = _ := hcl t
        rw [List.tail_cons, hloop, hclock, hpassed]
        by_cases htx : t = x
        · have hnot : x ∉ rest := fun hm => (hother x hm).1 rfl
          simp [htx, hnot, hyx]
        · by_cases hty : t = y
          · simp [hty, hnodup.2.1, hyx]
          · simp [htx, hty, Ne.symm hty]

/-- What a tick should do to the waiting threads `ws`. The loop takes a tick off the clock of each;
the threads whose time is over are ready, and the others wait on, with that clock, in their order. -/
structure Ticks (s : State) (cur : Ptr) (canSchedule : Int32) (ws : List Ptr) : Prop where
  clock : ∀ t ∈ ws, t ≠ cur → clockOf (countDown s) t = clockOf s t - MS
  state : ∀ t ∈ ws, (tmIncreaseTime s cur canSchedule).stateOf t =
    if expires s t then .ready else .wait
  chain : Chain (tmIncreaseTime s cur canSchedule).next (tmIncreaseTime s cur canSchedule).prev
    ((tmIncreaseTime s cur canSchedule).head .wait) (ws.filter fun t => !expires s t)
  kept : ∀ t ∈ ws, t ≠ cur → expires s t = false →
    clockOf (tmIncreaseTime s cur canSchedule) t = clockOf s t - MS

/-- The running thread is charged, and asks for the next one when its time is up. -/
lemma tmIncreaseTime_chains (h : ChainsOf (countDown s) lists) (cur : Ptr) (canSchedule : Int32) :
    ChainsOf (tmIncreaseTime s cur canSchedule) lists ∧
      (tmIncreaseTime s cur canSchedule).stateOf = (countDown s).stateOf ∧
      ∀ t, t ≠ cur → (countDown s).stateOf t = .wait →
        clockOf (tmIncreaseTime s cur canSchedule) t = clockOf (countDown s) t := by
  have hcharge := chainsOf_setClock h cur (clockOf (countDown s) cur - 1)
  have hclock (t : Ptr) (ht : t ≠ cur) : clockOf ((countDown s).setClock cur
      (clockOf (countDown s) cur - 1)) t = clockOf (countDown s) t := by
    rw [clockOf_setClock, if_neg ht]
  unfold tmIncreaseTime
  dsimp only
  rw [← countDown]
  split_ifs
  · refine ⟨chainsOf_tmSchedule hcharge cur, by simp, fun t ht hwait => ?_⟩
    rw [clockOf_tmSchedule hcharge cur (by simp [hwait]) (by simp [hwait]), hclock t ht]
  · exact ⟨hcharge, by simp, fun t ht _ => hclock t ht⟩

/-- The states that the loop leaves the waiting threads in. -/
lemma stateOf_countDown (h : ChainsOf s lists) {t : Ptr} (ht : t ∈ lists .wait) :
    (countDown s).stateOf t = if stays s (lists .wait) t then .wait else .ready := by
  have hc := (countDown_counted h).chains
  split_ifs with hstays
  · have hmem : t ∈ woken lists ((lists .wait).filter (stays s (lists .wait)))
        (((lists .wait).filter fun t => !stays s (lists .wait) t).reverse ++ lists .ready) .wait := by
      simp [woken, ht, hstays]
    exact getThreadChain_injective ((hc.mem .wait (by decide) t).mp hmem) rfl
  · have hmem : t ∈ woken lists ((lists .wait).filter (stays s (lists .wait)))
        (((lists .wait).filter fun t => !stays s (lists .wait) t).reverse ++ lists .ready) .ready := by
      simp [woken, ht, hstays]
    exact getThreadChain_injective ((hc.mem .ready (by decide) t).mp hmem) rfl

/-- The tick is right exactly if the first waiting thread stays or is the only one, or the second
one is the running thread and its time is not over. -/
theorem ticks_iff (h : ChainsOf s lists) (cur : Ptr) (canSchedule : Int32) :
    Ticks s cur canSchedule (lists .wait) ↔
      ∀ x y rest, lists .wait = x :: y :: rest → expires s x = true →
        y = cur ∧ expires s y = false := by
  obtain ⟨hc, hclock⟩ := countDown_counted h
  obtain ⟨hchains, hstate, hkept⟩ := tmIncreaseTime_chains hc cur canSchedule
  constructor
  · intro ht x y rest hws hx
    have hpassed : passed s (lists .wait) = some y := by simp [passed, hws, hx]
    have hy : y ∈ lists .wait := by simp [hws]
    constructor
    · by_contra hne
      have hsame := ht.clock y hy hne
      rw [hclock, if_neg (by simp [hpassed])] at hsame
      have hzero : MS = 0 := by grind
      exact absurd hzero (by decide)
    · have hwait := ht.state y hy
      rw [hstate, stateOf_countDown h hy, if_pos (by simp [stays, hpassed])] at hwait
      by_contra hexp
      rw [if_pos (by simpa using hexp)] at hwait
      cases hwait
  · intro hcond
    have hstays : ∀ t ∈ lists .wait, stays s (lists .wait) t = !expires s t := by
      intro t ht
      by_cases hp : passed s (lists .wait) = some t
      · obtain ⟨x, rest, hws, hx⟩ : ∃ x rest, lists .wait = x :: t :: rest ∧
            expires s x = true := by
          unfold passed at hp
          split at hp
          next x y rest heq =>
            split_ifs at hp with hx
            exact ⟨x, rest, by rw [heq, Option.some.inj hp], hx⟩
          next => cases hp
        simp [stays, (hcond x t rest hws hx).2]
      · simp [stays, hp]
    have hvisited : ∀ t ∈ lists .wait, t ≠ cur →
        clockOf (countDown s) t = clockOf s t - MS := by
      intro t ht hne
      have hnot : passed s (lists .wait) ≠ some t := by
        intro hp
        unfold passed at hp
        split at hp
        next x y rest heq =>
          split_ifs at hp with hx
          exact hne (Option.some.inj hp ▸ (hcond x y rest heq hx).1)
        next => cases hp
      rw [hclock, if_pos ⟨ht, hnot⟩]
    refine ⟨hvisited, fun t ht => ?_, ?_, fun t ht hne hexp => ?_⟩
    · rw [hstate, stateOf_countDown h ht, hstays t ht]
      cases expires s t <;> rfl
    · have hlink := hchains.chain .wait (by decide)
      simpa [woken, List.filter_congr hstays] using hlink
    · have hwait : (countDown s).stateOf t = .wait := by
        rw [stateOf_countDown h ht, hstays t ht, hexp]
        rfl
      rw [hkept t hne hwait, hvisited t ht hne]

/-! ## Two waiting threads -/

/-- Thread 2 waits in front of thread 3. -/
def sleepers (c₂ c₃ : Int32) : State :=
  ((tmSetThreadState (tmSetThreadState (initial (some 1)) 3 .wait) 2 .wait).setClock 2 c₂).setClock
    3 c₃

lemma sleepers_chains (c₂ c₃ : Int32) : ∃ lists, ChainsOf (sleepers c₂ c₃) lists := by
  have hinit : ThreadState.wait ≠ .init := by decide
  have hrun : ThreadState.wait ≠ .running := by decide
  obtain ⟨lists, h⟩ := tmSetThreadState_wellFormed (tmSetThreadState_wellFormed
    (initial_wellFormed (some 1)) 3 hinit hrun) 2 hinit hrun
  exact ⟨lists, chainsOf_setClock (chainsOf_setClock h 2 c₂) 3 c₃⟩

theorem ticks_iff_sleepers : ∃ lists, ChainsOf (sleepers 10 5) lists ∧
    Ticks (sleepers 10 5) 1 0 (lists .wait) := by
  obtain ⟨lists, h⟩ := sleepers_chains 10 5
  refine ⟨lists, h, (ticks_iff h 1 0).mpr fun x y rest hws hx => ?_⟩
  have hhead : (sleepers 10 5).head .wait = some 2 := by decide +kernel
  rw [(h.chain .wait (by decide)).head_eq, hws] at hhead
  obtain rfl : x = 2 := Option.some.inj hhead
  have hstays : expires (sleepers 10 5) 2 = false := by decide +kernel
  rw [hstays] at hx
  cases hx

/-- When thread 2 leaves, the clock of thread 3 stands still. -/
theorem not_ticks : ¬∀ s lists cur canSchedule, ChainsOf s lists →
    Ticks s cur canSchedule (lists .wait) := by
  intro hall
  obtain ⟨lists, h⟩ := sleepers_chains 5 10
  have hwait : getThreadChain ((sleepers 5 10).stateOf 3) = some .wait := by decide +kernel
  have hclock := (hall _ lists 1 0 h).clock 3 ((h.mem .wait (by decide) 3).mpr hwait) (by decide)
  have hstill : clockOf (countDown (sleepers 5 10)) 3 = 10 ∧ clockOf (sleepers 5 10) 3 = 10 := by
    decide +kernel
  rw [hstill.1, hstill.2] at hclock
  exact absurd hclock (by decide)

end Sgos.TimerTick
