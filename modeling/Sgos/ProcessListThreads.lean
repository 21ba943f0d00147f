import Sgos.ChainFamily
import Sgos.ProcessList

/-!
# The threads of the process service

The thread lists of all processes are a family of chains: a constructor that gets what it asks for
adds its thread at the end, a disposal takes one out. A constructor that gives up has no value.
-/
namespace Sgos.ProcessList
open GuardedRun LinkedChain

/-! ## Views of the objects -/

namespace State
variable (s : State)

def tnext (t : Ptr) : Option Ptr := (s.thread t).bind (·.next)
def tprev (t : Ptr) : Option Ptr := (s.thread t).bind (·.prev)
def pnext (p : Ptr) : Option Ptr := (s.process p).bind (·.next)
def pprev (p : Ptr) : Option Ptr := (s.process p).bind (·.prev)
def main (p : Ptr) : Option Ptr := (s.process p).bind (·.mainThread)

/-- A thread without its links. -/
def tcore (t : Ptr) : Option Thread :=
  (s.thread t).map fun th => { th with next := none, prev := none }

/-- A process without its threads. -/
def pcore (p : Ptr) : Option Process :=
  (s.process p).map fun v => { v with mainThread := none }

end State

/-- The two states have the same processes, apart from their threads. -/
structure SameProcesses (s s' : State) : Prop where
  pcore : s'.pcore = s.pcore
  first : s'.firstProcess = s.firstProcess

lemma SameProcesses.trans {s t u : State} (h : SameProcesses s t) (h' : SameProcesses t u) :
    SameProcesses s u :=
  ⟨h'.pcore.trans h.pcore, h'.first.trans h.first⟩

section Views
variable {s : State} {t p : Ptr}

lemma thread_of_tcore (h : s.tcore t ≠ none) : ∃ th, s.thread t = some th :=
  Option.ne_none_iff_exists'.mp fun hn => h (by simp [State.tcore, hn])

lemma process_of_pcore (h : s.pcore p ≠ none) : ∃ v, s.process p = some v :=
  Option.ne_none_iff_exists'.mp fun hn => h (by simp [State.pcore, hn])

lemma putThread_self (th : Thread) : (s.putThread t (some th)).thread t = some th := by
  simp [State.putThread]

lemma setThread_eq {th : Thread} (h : s.thread t = some th) (f : Thread → Thread) :
    s.setThread t f = some (s.putThread t (some (f th))) := by
  rw [State.setThread, h, Option.map_some]

lemma setProcess_eq {v : Process} (h : s.process p = some v) (f : Process → Process) :
    s.setProcess p f = some (s.putProcess p (some (f v))) := by
  rw [State.setProcess, h, Option.map_some]

lemma setThread_next (h : s.tcore t ≠ none) (x : Option Ptr) :
    ∃ s', s.setThread t (fun v => { v with next := x }) = some s' ∧
      s'.tnext = Function.update s.tnext t x ∧ s'.tprev = s.tprev ∧ s'.tcore = s.tcore ∧
      s'.process = s.process ∧ s'.firstProcess = s.firstProcess := by
  obtain ⟨th, hth⟩ := thread_of_tcore h
  refine ⟨_, setThread_eq hth _, ?_, ?_, ?_, rfl, rfl⟩
  all_goals
    funext q
    by_cases hq : q = t
    · subst hq
      simp [State.putThread, State.tnext, State.tprev, State.tcore, hth]
    · simp [State.putThread, State.tnext, State.tprev, State.tcore, hq]

lemma setThread_prev (h : s.tcore t ≠ none) (x : Option Ptr) :
    ∃ s', s.setThread t (fun v => { v with prev := x }) = some s' ∧
      s'.tnext = s.tnext ∧ s'.tprev = Function.update s.tprev t x ∧ s'.tcore = s.tcore ∧
      s'.process = s.process ∧ s'.firstProcess = s.firstProcess := by
  obtain ⟨th, hth⟩ := thread_of_tcore h
  refine ⟨_, setThread_eq hth _, ?_, ?_, ?_, rfl, rfl⟩
  all_goals
    funext q
    by_cases hq : q = t
    · subst hq
      simp [State.putThread, State.tnext, State.tprev, State.tcore, hth]
    · simp [State.putThread, State.tnext, State.tprev, State.tcore, hq]

lemma setThread_links (h : s.tcore t ≠ none) (x y : Option Ptr) :
    ∃ s', s.setThread t (fun v => { v with next := x, prev := y }) = some s' ∧
      s'.tnext = Function.update s.tnext t x ∧ s'.tprev = Function.update s.tprev t y ∧
      s'.tcore = s.tcore ∧ s'.process = s.process ∧ s'.firstProcess = s.firstProcess := by
  obtain ⟨th, hth⟩ := thread_of_tcore h
  refine ⟨_, setThread_eq hth _, ?_, ?_, ?_, rfl, rfl⟩
  all_goals
    funext q
    by_cases hq : q = t
    · subst hq
      simp [State.putThread, State.tnext, State.tprev, State.tcore, hth]
    · simp [State.putThread, State.tnext, State.tprev, State.tcore, hq]

lemma setProcess_main (h : s.pcore p ≠ none) (x : Option Ptr) :
    ∃ s', s.setProcess p (fun v => { v with mainThread := x }) = some s' ∧
      s'.main = Function.update s.main p x ∧ SameProcesses s s' ∧ s'.thread = s.thread := by
  obtain ⟨v, hv⟩ := process_of_pcore h
  refine ⟨_, setProcess_eq hv _, ?_, ⟨?_, rfl⟩, rfl⟩
  all_goals
    funext q
    by_cases hq : q = p
    · subst hq
      simp [State.putProcess, State.main, State.pcore, hv]
    · simp [State.putProcess, State.main, State.pcore, hq]

end Views

/-! ## Threads -/

/-- The threads on the lists are those in use, and each knows its process. -/
structure Threads (s : State) (own : Ptr → List Ptr) : Prop where
  family : Family s.tnext s.tprev s.main own
  owned : ∀ p, ∀ t ∈ own p, ∃ ti, s.tcore t = some ⟨none, none, false, some ti, some p⟩
  loose : ∀ t th, s.tcore t = some th → (∀ p, t ∉ own p) → th.disposed = true

section ThreadLists
variable {s : State} {own : Ptr → List Ptr} {t p : Ptr}

lemma Threads.process (h : Threads s own) (ht : t ∈ own p) : s.pcore p ≠ none := by
  have hhead := (h.family.chain p).head_eq
  intro hnone
  have hprocess : s.process p = none := by simpa [State.pcore] using hnone
  rw [State.main, hprocess, Option.bind_none] at hhead
  rw [List.head?_eq_none_iff.mp hhead.symm] at ht
  cases ht

/-- A thread on a list is taken out of it. -/
lemma Threads.unlink {own : Ptr → List Ptr} (h : Family s.tnext s.tprev s.main own)
    (hcore : ∀ x ∈ own p, s.tcore x ≠ none) (hp : s.pcore p ≠ none) (ht : t ∈ own p)
    (hprocess : ∀ th, s.thread t = some th → th.process = some p) :
    ∃ s', unlinkThread s t = some s' ∧
      Family s'.tnext s'.tprev s'.main (Function.update own p ((own p).erase t)) ∧
      s'.tcore = s.tcore ∧ SameProcesses s s' := by
  obtain ⟨th, hth⟩ := thread_of_tcore (hcore t ht)
  have hfamily := h.unlink ht
  have hnext : th.next = s.tnext t := by rw [State.tnext, hth, Option.bind_some]
  have hprev : th.prev = s.tprev t := by rw [State.tprev, hth, Option.bind_some]
  obtain ⟨pre, post, hown⟩ := List.append_of_mem ht
  have hchain := h.chain p
  rw [hown] at hchain
  have hpn := hchain.next_eq
  have hpp := hchain.prev_eq
  simp only [unlinkThread, hth, Option.bind_eq_bind, Option.bind_some, hnext, hprev]
  -- the first write goes to the thread before it or to the process
  have hfirst : ∃ s1, bypassThread s th = some s1 ∧
      s1.tnext = unlinkNext s.tnext s.tprev t ∧ s1.tprev = s.tprev ∧
      s1.main = Function.update s.main p (unlinkEnd s.tprev s.tnext t (s.main p)) ∧
      s1.tcore = s.tcore ∧ SameProcesses s s1 := by
    simp only [bypassThread, hnext, hprev]
    cases hq : s.tprev t with
    | none =>
      obtain ⟨s1, hset, hmain, hsame, hthread⟩ := setProcess_main hp (s.tnext t)
      refine ⟨s1, ?_, ?_, ?_, ?_, ?_, hsame⟩
      · rw [hprocess th hth]
        exact hset
      · simp [State.tnext, hthread, unlinkNext, hq, funext_iff]
      · simp [State.tprev, hthread, funext_iff]
      · rw [hmain, unlinkEnd, hq]
      · simp [State.tcore, hthread, funext_iff]
    | some q =>
      have hmem : q ∈ own p := by
        rw [hown]
        rw [hpp] at hq
        exact List.mem_append_left _ (List.mem_of_getLast? hq)
      obtain ⟨s1, hset, hn, hpr, hc, hproc, hf⟩ := setThread_next (hcore q hmem) (s.tnext t)
      refine ⟨s1, hset, ?_, hpr, ?_, hc, ⟨?_, hf⟩⟩
      · rw [hn, unlinkNext, hq]
      · rw [unlinkEnd, hq, Function.update_eq_self]
        simp [State.main, hproc, funext_iff]
      · simp [State.pcore, hproc, funext_iff]
  obtain ⟨s1, hset, hn1, hp1, hm1, hc1, hs1⟩ := hfirst
  rw [hset, Option.bind_some]
  cases hq : s.tnext t with
  | none =>
    refine ⟨s1, rfl, ?_, hc1, hs1⟩
    rw [hn1, hp1, hm1]
    have hpv : unlinkPrev s.tnext s.tprev t = s.tprev := by rw [unlinkPrev, hq]
    rwa [hpv] at hfamily
  | some q =>
    have hmem : q ∈ own p := by
      rw [hown]
      rw [hpn] at hq
      exact List.mem_append_right _ (List.mem_cons_of_mem _ (List.mem_of_head? hq))
    obtain ⟨s2, hset2, hn2, hp2, hc2, hproc2, hf2⟩ :=
      setThread_prev (s := s1) (t := q) (by rw [hc1]; exact hcore q hmem) (s.tprev t)
    refine ⟨s2, hset2, ?_, hc2.trans hc1, hs1.trans ⟨?_, hf2⟩⟩
    · have hpv : unlinkPrev s.tnext s.tprev t = Function.update s.tprev q (s.tprev t) := by
        rw [unlinkPrev, hq]
      have hm2 : s2.main = s1.main := by simp [State.main, hproc2, funext_iff]
      rw [hn2, hp2, hm2, hn1, hp1, hm1, ← hpv]
      exact hfamily
    · simp [State.pcore, hproc2, funext_iff]

lemma putThread_core (s : State) (t : Ptr) (v : Option Thread) :
    (s.putThread t v).tcore = Function.update s.tcore t
      (v.map fun th => { th with next := none, prev := none }) := by
  funext q
  by_cases hq : q = t <;> simp [State.putThread, State.tcore, hq]

/-- A thread on a list is disposed of. -/
lemma Threads.dispose (h : Threads s own) (ht : t ∈ own p) :
    ∃ s', threadDispose s t = some s' ∧
      Threads s' (Function.update own p ((own p).erase t)) ∧ SameProcesses s s' := by
  obtain ⟨ti, hti⟩ := h.owned p t ht
  obtain ⟨th, hth⟩ := thread_of_tcore (by rw [hti]; simp)
  have hcore : ({ th with next := none, prev := none } : Thread) =
      ⟨none, none, false, some ti, some p⟩ := by
    simpa [State.tcore, hth] using hti
  obtain ⟨hdisposed, htid, hprocess⟩ : th.disposed = false ∧ th.ti = some ti ∧
      th.process = some p := by simpa using hcore
  obtain ⟨s0, hs0⟩ : ∃ s0, s0 = s.putThread t (some { th with disposed := true }) := ⟨_, rfl⟩
  have hfamily : Family s0.tnext s0.tprev s0.main own := by
    have hn : s0.tnext = s.tnext := by
      funext q
      by_cases hq : q = t <;> simp [hs0, State.putThread, State.tnext, hq, hth]
    have hp : s0.tprev = s.tprev := by
      funext q
      by_cases hq : q = t <;> simp [hs0, State.putThread, State.tprev, hq, hth]
    rw [hn, hp, hs0]
    exact h.family
  have hcores : s0.tcore = Function.update s.tcore t
      (some ⟨none, none, true, some ti, some p⟩) := by
    rw [hs0, putThread_core]
    simp [htid, hprocess]
  have hlive : ∀ x ∈ own p, s0.tcore x ≠ none := by
    intro x hx
    rw [hcores]
    by_cases hxt : x = t
    · simp [hxt]
    · obtain ⟨ti', hx'⟩ := h.owned p x hx
      simp [hxt, hx']
  have hown : ∀ v, s0.thread t = some v → v.process = some p := by
    intro v hv
    rw [hs0] at hv
    simp only [State.putThread, Function.update_self, Option.some.injEq] at hv
    rw [← hv]
    exact hprocess
  have hprocess0 : s0.pcore p ≠ none := by
    rw [hs0]
    exact h.process ht
  obtain ⟨s', hunlink, hfamily', hcore', hsame⟩ := Threads.unlink hfamily hlive hprocess0 ht hown
  refine ⟨s', ?_, ⟨hfamily', fun q x hx => ?_, fun x v hv hout => ?_⟩, ?_⟩
  · rw [threadDispose, hth]
    simp only [Option.bind_eq_bind, Option.bind_some, ← hs0]
    rw [if_neg (by simp [hdisposed]), htid, Option.bind_some]
    exact hunlink
  · obtain ⟨hxt, hx⟩ := (h.family.mem_unlink ht q x).mp hx
    rw [hcore', hcores, Function.update_of_ne hxt]
    exact h.owned q x hx
  · rw [hcore', hcores] at hv
    by_cases hxt : x = t
    · rw [hxt, Function.update_self] at hv
      rw [← Option.some.inj hv]
    · rw [Function.update_of_ne hxt] at hv
      exact h.loose x v hv fun q hq => hout q ((h.family.mem_unlink ht q x).mpr ⟨hxt, hq⟩)
  · refine SameProcesses.trans ⟨?_, ?_⟩ hsame <;> rw [hs0] <;> rfl

/-- A thread that is on no list is deleted from memory. -/
lemma Threads.free (h : Threads s own) (ht : ∀ p, t ∉ own p) : Threads (s.putThread t none) own := by
  have hne : ∀ p, ∀ x ∈ own p, x ≠ t := by
    rintro p x hx rfl
    exact ht p hx
  refine ⟨h.family.congr (fun p x hx => ?_) fun p x hx => ?_, fun p x hx => ?_, fun x v hv hout => ?_⟩
  · simp [State.putThread, State.tnext, hne p x hx]
  · simp [State.putThread, State.tprev, hne p x hx]
  · rw [putThread_core, Function.update_of_ne (hne p x hx)]
    exact h.owned p x hx
  · rw [putThread_core] at hv
    by_cases hxt : x = t
    · simp [hxt] at hv
    · rw [Function.update_of_ne hxt] at hv
      exact h.loose x v hv hout

lemma Threads.delete (h : Threads s own) (ht : t ∈ own p) :
    ∃ s', deleteThread s t = some s' ∧
      Threads s' (Function.update own p ((own p).erase t)) ∧ SameProcesses s s' := by
  obtain ⟨s', hdispose, hthreads, hsame⟩ := h.dispose ht
  refine ⟨s'.putThread t none, by rw [deleteThread, hdispose, Option.map_some],
    hthreads.free fun q hq => ((h.family.mem_unlink ht q t).mp hq).1 rfl,
    hsame.trans ⟨rfl, rfl⟩⟩

/-- A thread that is on no list was disposed of before. -/
lemma Threads.disposed (h : Threads s own) (ht : ∀ p, t ∉ own p) (hlive : s.thread t ≠ none) :
    threadDispose s t = some s := by
  obtain ⟨th, hth⟩ := Option.ne_none_iff_exists'.mp hlive
  have hdisposed : th.disposed = true :=
    h.loose t { th with next := none, prev := none } (by simp [State.tcore, hth]) ht
  simp [threadDispose, hth, hdisposed]

/-- The loop of `Process::Dispose` deletes all threads of the process. -/
lemma Threads.deleteAll (fuel : ℕ) :
    ∀ (s : State) (own : Ptr → List Ptr), Threads s own → (own p).length ≤ fuel →
      ∃ s', deleteThreads fuel s (own p).head? = some s' ∧
        Threads s' (Function.update own p []) ∧ SameProcesses s s' := by
  induction fuel with
  | zero =>
    intro s own h hlen
    have hnil := List.length_eq_zero_iff.mp (Nat.le_zero.mp hlen)
    rw [hnil, ← hnil, Function.update_eq_self, hnil]
    exact ⟨s, by simp [deleteThreads], h, ⟨rfl, rfl⟩⟩
  | succ fuel ih =>
    intro s own h hlen
    cases hown : own p with
    | nil =>
      rw [← hown, Function.update_eq_self, hown]
      exact ⟨s, by simp [deleteThreads], h, ⟨rfl, rfl⟩⟩
    | cons d rest =>
      have hd : d ∈ own p := by simp [hown]
      obtain ⟨ti, hti⟩ := h.owned p d hd
      obtain ⟨th, hth⟩ := thread_of_tcore (t := d) (by rw [hti]; simp)
      have hnext : th.next = rest.head? := by
        have hchain := h.family.chain p
        rw [hown] at hchain
        have hdn := Chain.next_eq (show Chain _ _ _ ([] ++ d :: rest) from hchain)
        simpa [State.tnext, hth] using hdn
      obtain ⟨s1, hdelete, hthreads, hsame⟩ := h.delete hd
      rw [hown, List.erase_cons_head] at hthreads
      obtain ⟨s2, hrest, hthreads2, hsame2⟩ := ih s1 (Function.update own p rest) hthreads (by
        rw [Function.update_self]
        rw [hown] at hlen
        simpa using hlen)
      rw [Function.update_self] at hrest
      rw [Function.update_idem] at hthreads2
      refine ⟨s2, ?_, hthreads2, hsame.trans hsame2⟩
      simp [deleteThreads, hth, hdelete, hnext, hrest]

/-- Threads do not depend on the other members of the processes. -/
lemma Threads.congr {s' : State} (h : Threads s own) (ht : s'.thread = s.thread)
    (hm : s'.main = s.main) : Threads s' own where
  family := by
    have hn : s'.tnext = s.tnext := by simp [State.tnext, ht, funext_iff]
    have hp : s'.tprev = s.tprev := by simp [State.tprev, ht, funext_iff]
    rw [hn, hp, hm]
    exact h.family
  owned q x hx := by
    rw [State.tcore, ht]
    exact h.owned q x hx
  loose x v hv := by
    rw [State.tcore, ht] at hv
    exact h.loose x v hv

/-! ## Construction of a thread -/

/-- The search for the last object, from any object of a list. -/
lemma lastOf_eq {next prev : Ptr → Option Ptr} {link : Ptr → Option (Option Ptr)}
    (rest : List Ptr) : ∀ (before : Option Ptr) (t : Ptr) (fuel : ℕ),
      Linked next prev before (t :: rest) none → (∀ x ∈ t :: rest, link x = some (next x)) →
      rest.length < fuel → lastOf link fuel t = (t :: rest).getLast? := by
  induction rest with
  | nil =>
    intro before t fuel hlinked hlink hfuel
    obtain ⟨fuel, rfl⟩ := Nat.exists_eq_succ_of_ne_zero (by omega : fuel ≠ 0)
    have hnext : next t = none := by simpa using hlinked.2.1
    simp [lastOf, hlink t (by simp), hnext]
  | cons x rest ih =>
    intro before t fuel hlinked hlink hfuel
    obtain ⟨fuel, rfl⟩ := Nat.exists_eq_succ_of_ne_zero (by omega : fuel ≠ 0)
    have hnext : next t = some x := by simpa using hlinked.2.1
    have hrest := ih (some t) x fuel hlinked.2.2 (fun y hy => hlink y (by simp [hy]))
      (by simpa using hfuel)
    simpa [lastOf, hlink t (by simp), hnext] using hrest

lemma Threads.thread (h : Threads s own) (ht : t ∈ own p) : s.tcore t ≠ none := by
  obtain ⟨ti, hti⟩ := h.owned p t ht
  simp [hti]

/-- The writes that put a thread behind the threads of a process. -/
lemma linkThread_eq (h : Family s.tnext s.tprev s.main own) (hlive : ∀ x ∈ own p, s.tcore x ≠ none)
    (hp : s.pcore p ≠ none) (hout : t ∉ own p) {th : Thread} (hth : s.thread t = some th) :
    ∃ s', linkThread s p t = some s' ∧
      s'.tnext = linkNext s.tnext (own p).getLast? t none ∧
      s'.tprev = linkPrev s.tprev (own p).getLast? t none ∧
      s'.main = Function.update s.main p (linkEnd (own p).getLast? t (s.main p)) ∧
      s'.tcore = Function.update s.tcore t
        (some { th with next := none, prev := none, process := some p }) ∧
      SameProcesses s s' := by
  have hchain := h.chain p
  obtain ⟨v, hv⟩ := process_of_pcore hp
  obtain ⟨s1, hs1⟩ : ∃ s1, s1 = s.putThread t (some { th with process := some p }) := ⟨_, rfl⟩
  have hset1 : s.setThread t (fun v => { v with process := some p }) = some s1 := by
    rw [setThread_eq hth _, hs1]
  have hn1 : s1.tnext = s.tnext := by
    funext q
    by_cases hq : q = t <;> simp [hs1, State.putThread, State.tnext, hq, hth]
  have hp1 : s1.tprev = s.tprev := by
    funext q
    by_cases hq : q = t <;> simp [hs1, State.putThread, State.tprev, hq, hth]
  have hc1 : s1.tcore = Function.update s.tcore t
      (some { th with next := none, prev := none, process := some p }) := by
    rw [hs1, putThread_core]
    simp
  have hproc1 : s1.process = s.process := by rw [hs1]; rfl
  have hf1 : s1.firstProcess = s.firstProcess := by rw [hs1]; rfl
  have hct : s1.tcore t ≠ none := by simp [hc1]
  have hlive1 : ∀ x ∈ own p, s1.tcore x ≠ none := by
    intro x hx
    have hxt : x ≠ t := fun he => hout (he ▸ hx)
    rw [hc1, Function.update_of_ne hxt]
    exact hlive x hx
  have hmain : v.mainThread = (own p).head? := by
    rw [← hchain.head_eq, State.main, hv, Option.bind_some]
  simp only [linkThread, hset1, hproc1, hv, Option.bind_eq_bind, Option.bind_some, hmain]
  cases hown : own p with
  | nil =>
    obtain ⟨s2, hset2, hn2, hp2, hc2, hproc2, hf2⟩ := setThread_links hct none none
    have hcore2 : s2.pcore p ≠ none := by rwa [State.pcore, hproc2, hproc1]
    obtain ⟨s3, hset3, hm3, hsame3, hthread3⟩ := setProcess_main hcore2 (some t)
    refine ⟨s3, ?_, ?_, ?_, ?_, ?_, SameProcesses.trans ⟨?_, hf2.trans hf1⟩ hsame3⟩
    · simp only [List.head?_nil, hset2, Option.bind_some]
      exact hset3
    · have hn3 : s3.tnext = s2.tnext := by simp [State.tnext, hthread3, funext_iff]
      rw [hn3, hn2, hn1]
      rfl
    · have hp3 : s3.tprev = s2.tprev := by simp [State.tprev, hthread3, funext_iff]
      rw [hp3, hp2, hp1]
      rfl
    · have hm2 : s2.main = s.main := by simp [State.main, hproc2, hproc1, funext_iff]
      rw [hm3, hm2]
      rfl
    · have hc3 : s3.tcore = s2.tcore := by simp [State.tcore, hthread3, funext_iff]
      rw [hc3, hc2, hc1]
    · simp [State.pcore, hproc2, hproc1, funext_iff]
  | cons m rest =>
    obtain ⟨l, hl⟩ : ∃ l, (m :: rest).getLast? = some l :=
      ⟨(m :: rest).getLast (by simp), List.getLast?_eq_some_getLast (by simp)⟩
    have hmem : l ∈ own p := by
      rw [hown]
      exact List.mem_of_getLast? hl
    have hlt : l ≠ t := fun he => hout (he ▸ hmem)
    have hlast : lastThread s1 m = some l := by
      have hlinked := hchain.linked
      have hlen := nodup_length_le hchain.nodup
      rw [hown] at hlinked hlen
      rw [← hl]
      refine lastOf_eq rest none m addressSpace hlinked (fun x hx => ?_) (Nat.lt_of_succ_le hlen)
      obtain ⟨w, hw⟩ := thread_of_tcore (hlive1 x (by rwa [hown]))
      rw [← hn1, State.tnext, hw, Option.map_some, Option.bind_some]
    obtain ⟨s2, hset2, hn2, hp2, hc2, hproc2, hf2⟩ := setThread_next (hlive1 l hmem) (some t)
    obtain ⟨s3, hset3, hn3, hp3, hc3, hproc3, hf3⟩ :=
      setThread_links (by rwa [hc2] : s2.tcore t ≠ none) none (some l)
    refine ⟨s3, ?_, ?_, ?_, ?_, ?_, ⟨?_, hf3.trans (hf2.trans hf1)⟩⟩
    · simp only [List.head?_cons, hlast, hset2, Option.bind_some]
      exact hset3
    · rw [hn3, hn2, hn1, hl, linkNext, Function.update_comm hlt]
    · rw [hp3, hp2, hp1, hl, linkPrev]
    · have hm3 : s3.main = s.main := by simp [State.main, hproc3, hproc2, hproc1, funext_iff]
      rw [hm3, hl, linkEnd, Function.update_eq_self]
    · rw [hc3, hc2, hc1]
    · simp [State.pcore, hproc3, hproc2, hproc1, funext_iff]

/-- A thread in a new block is on no list. -/
lemma Threads.fresh (h : Threads s own) (ht : s.thread t = none) (q : Ptr) : t ∉ own q := by
  intro hq
  obtain ⟨th, hth⟩ := thread_of_tcore (h.thread hq)
  rw [ht] at hth
  cases hth

/-- A thread in a new block becomes the last of a process. -/
lemma Threads.link (h : Threads s own) (hp : s.pcore p ≠ none) (ht : s.thread t = none)
    (th : Thread) (hdisposed : th.disposed = false) {ti : Ptr} (hti : th.ti = some ti) :
    ∃ s', linkThread (s.putThread t (some th)) p t = some s' ∧
      Threads s' (Function.update own p (own p ++ [t])) ∧ SameProcesses s s' := by
  have hout := h.fresh ht
  have hne : ∀ q, ∀ x ∈ own q, x ≠ t := by
    rintro q x hx rfl
    exact hout q hx
  obtain ⟨s0, hs0⟩ : ∃ s0, s0 = s.putThread t (some th) := ⟨_, rfl⟩
  have hcores : ∀ x, x ≠ t → s0.tcore x = s.tcore x := by
    intro x hx
    rw [hs0, putThread_core, Function.update_of_ne hx]
  have hfamily : Family s0.tnext s0.tprev s0.main own := by
    rw [hs0]
    refine h.family.congr (fun q x hx => ?_) fun q x hx => ?_
    · simp [State.putThread, State.tnext, hne q x hx]
    · simp [State.putThread, State.tprev, hne q x hx]
  have hlive : ∀ x ∈ own p, s0.tcore x ≠ none := by
    intro x hx
    rw [hcores x (hne p x hx)]
    exact h.thread hx
  have hsame0 : SameProcesses s s0 := by
    rw [hs0]
    exact ⟨rfl, rfl⟩
  obtain ⟨s', hlink, hn, hpr, hm, hc, hsame⟩ :=
    linkThread_eq hfamily hlive (by rwa [hsame0.pcore]) (hout p)
      (show s0.thread t = some th by simp [hs0, State.putThread])
  refine ⟨s', hs0 ▸ hlink, ⟨?_, fun q x hx => ?_, fun x v hv hx => ?_⟩, hsame0.trans hsame⟩
  · rw [hn, hpr, hm]
    exact hfamily.link (show own p = own p ++ [] from (List.append_nil _).symm) hout
  · by_cases hxt : x = t
    · have hq : q = p := by
        by_contra hq
        rw [Function.update_of_ne hq, hxt] at hx
        exact hout q hx
      rw [hxt, hq, hc, Function.update_self, hdisposed, hti]
      exact ⟨ti, rfl⟩
    · rw [hc, Function.update_of_ne hxt, hcores x hxt]
      apply h.owned q x
      by_cases hq : q = p
      · simpa [hq, hxt] using hx
      · rwa [Function.update_of_ne hq] at hx
  · have hxt : x ≠ t := by
      rintro rfl
      exact hx p (by simp)
    rw [hc, Function.update_of_ne hxt, hcores x hxt] at hv
    refine h.loose x v hv fun q hq => hx q ?_
    by_cases hqp : q = p
    · rw [hqp, Function.update_self, List.mem_append]
      exact .inl (hqp ▸ hq)
    · rwa [Function.update_of_ne hqp]

/-- Without `ti` the disposal of a new thread has no value. -/
lemma threadDispose_of_ti {th : Thread} (hth : s.thread t = some th) (hd : th.disposed = false)
    (hti : th.ti = none) : threadDispose s t = none := by
  simp [threadDispose, hth, hd, hti]

/-- Without `process` the disposal of a new thread has no value. -/
lemma threadDispose_of_process {th : Thread} (hth : s.thread t = some th)
    (hd : th.disposed = false) (hprev : th.prev = none) (hprocess : th.process = none) :
    threadDispose s t = none := by
  cases hti : th.ti <;>
    simp [threadDispose, unlinkThread, bypassThread, State.putThread, hth, hd, hti, hprev, hprocess]

/-- The constructor has a value exactly if all its calls succeed, and then adds the thread. -/
lemma Threads.create (h : Threads s own) {v : Process} (hp : s.process p = some v)
    (hpi : v.pi ≠ none) (ht : s.thread t = none) (r : ThreadReplies) (hr : r.ok = true) :
    ∃ s', newThread s t p r = some s' ∧
      Threads s' (Function.update own p (own p ++ [t])) ∧ SameProcesses s s' := by
  obtain ⟨pi, hpi⟩ := Option.ne_none_iff_exists'.mp hpi
  simp only [ThreadReplies.ok, Bool.and_eq_true, decide_eq_true_eq] at hr
  obtain ⟨⟨hremote, hmap⟩, htid⟩ := hr
  have hremote' : r.remoteAddr ≠ none := Option.isSome_iff_ne_none.mp hremote
  cases hti : mapAddress r.ti with
  | error e => simp [hti, Except.isOk, Except.toBool] at hmap
  | ok ti =>
    have hcore : s.pcore p ≠ none := by simp [State.pcore, hp]
    obtain ⟨s', hlink, hthreads, hsame⟩ :=
      h.link hcore ht ⟨none, none, false, some ti, none⟩ rfl rfl
    refine ⟨s', ?_, hthreads, hsame⟩
    have hset := setThread_eq (putThread_self (s := s) (t := t) ⟨none, none, false, none, none⟩)
      fun v => { v with ti := some ti }
    simp only [newThread, hp, Option.bind_eq_bind, Option.bind_some, if_neg hremote', hti, hset, hpi,
      if_neg (Int32.not_lt.mpr htid)]
    simpa [State.putThread] using hlink

lemma newThread_none {v : Process} (hp : s.process p = some v) (r : ThreadReplies)
    (hr : ¬r.ok = true) : newThread s t p r = none := by
  have hbed : threadDispose (s.putThread t (some ⟨none, none, false, none, none⟩)) t = none :=
    threadDispose_of_ti (putThread_self ⟨none, none, false, none, none⟩) rfl rfl
  simp only [newThread, hp, Option.bind_eq_bind, Option.bind_some]
  by_cases hremote : r.remoteAddr = none
  · rw [if_pos hremote, hbed]
  rw [if_neg hremote]
  cases hti : mapAddress r.ti with
  | error e => exact hbed
  | ok ti =>
    have hset := setThread_eq (putThread_self (s := s) (t := t) ⟨none, none, false, none, none⟩)
      fun v => { v with ti := some ti }
    have htid : r.tid < 0 := by
      by_contra htid
      have hsome := Option.isSome_iff_ne_none.mpr hremote
      exact hr (by simp [ThreadReplies.ok, hti, Except.isOk, Except.toBool, hsome, Int32.not_lt.mp htid])
    simp only [hset, Option.bind_some, if_pos htid]
    cases v.pi with
    | none => rfl
    | some pi =>
      exact threadDispose_of_process (putThread_self ⟨none, none, false, some ti, none⟩) rfl rfl rfl

end ThreadLists

end Sgos.ProcessList
