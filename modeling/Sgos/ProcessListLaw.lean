import Mathlib.Data.List.Find
import Sgos.ProcessListThreads

/-!
# The lists of the process service

The processes are linked in the order in which they were initialised; the `prev` of the first is not
maintained, and not read. The lists hold what was constructed and not disposed of in the runs in
which no thread constructor gives up.
-/
namespace Sgos.ProcessList
open GuardedRun LinkedChain

/-! ## Views of the processes -/

namespace State
variable (s : State)

/-- A process without its links and its threads. -/
def pbody (p : Ptr) : Option Process :=
  (s.process p).map fun v => { v with next := none, prev := none, mainThread := none }

end State

/-- The processes are linked in this order. -/
structure Listed (s : State) (ps : List Ptr) : Prop where
  linked : ∃ before, Linked s.pnext s.pprev before ps none
  first : s.firstProcess = ps.head?
  nodup : ps.Nodup
  live : ∀ p ∈ ps, s.process p ≠ none

/-- The two states differ in the links of the processes only. -/
structure SameMembers (s s' : State) : Prop where
  body : s'.pbody = s.pbody
  main : s'.main = s.main
  thread : s'.thread = s.thread

section Links
variable {s s' : State} {p : Ptr} {ps : List Ptr}

lemma SameMembers.trans {u : State} (h : SameMembers s s') (h' : SameMembers s' u) :
    SameMembers s u :=
  ⟨h'.body.trans h.body, h'.main.trans h.main, h'.thread.trans h.thread⟩

lemma pbody_ne : s.pbody p ≠ none ↔ s.process p ≠ none := by simp [State.pbody]

lemma SameMembers.live (h : SameMembers s s') (hp : s.process p ≠ none) : s'.process p ≠ none := by
  rwa [← pbody_ne, h.body, pbody_ne]

/-- A write to the links of a process. -/
lemma putProcess_links {v w : Process} (hv : s.process p = some v)
    (hw : { w with next := none, prev := none } = { v with next := none, prev := none }) :
    (s.putProcess p (some w)).pnext = Function.update s.pnext p w.next ∧
      (s.putProcess p (some w)).pprev = Function.update s.pprev p w.prev ∧
      SameMembers s (s.putProcess p (some w)) := by
  simp only [Process.mk.injEq] at hw
  refine ⟨?_, ?_, ?_, ?_, rfl⟩
  all_goals
    funext q
    by_cases hq : q = p
    · subst hq
      simp [State.putProcess, State.pnext, State.pprev, State.pbody, State.main, hv, hw]
    · simp [State.putProcess, State.pnext, State.pprev, State.pbody, State.main, hq]

/-- A write to another member. -/
lemma putProcess_body {v w : Process} (hv : s.process p = some v) (hn : w.next = v.next)
    (hp : w.prev = v.prev) (hm : w.mainThread = v.mainThread) :
    (s.putProcess p (some w)).pnext = s.pnext ∧ (s.putProcess p (some w)).pprev = s.pprev ∧
      (s.putProcess p (some w)).main = s.main ∧ (s.putProcess p (some w)).pbody =
        Function.update s.pbody p
          (some { w with next := none, prev := none, mainThread := none }) := by
  refine ⟨?_, ?_, ?_, ?_⟩
  all_goals
    funext q
    by_cases hq : q = p
    · subst hq
      simp [State.putProcess, State.pnext, State.pprev, State.pbody, State.main, hv, hn, hp, hm]
    · simp [State.putProcess, State.pnext, State.pprev, State.pbody, State.main, hq]

lemma setProcess_next (hp : s.process p ≠ none) (x : Option Ptr) :
    ∃ s', s.setProcess p (fun v => { v with next := x }) = some s' ∧
      s'.pnext = Function.update s.pnext p x ∧ s'.pprev = s.pprev ∧
      s'.firstProcess = s.firstProcess ∧ SameMembers s s' := by
  obtain ⟨v, hv⟩ := Option.ne_none_iff_exists'.mp hp
  obtain ⟨hn, hpr, hsame⟩ := putProcess_links (w := { v with next := x }) hv rfl
  refine ⟨_, setProcess_eq hv _, hn, ?_, rfl, hsame⟩
  rw [hpr, Function.update_eq_self_iff, State.pprev, hv, Option.bind_some]

lemma setProcess_prev (hp : s.process p ≠ none) (x : Option Ptr) :
    ∃ s', s.setProcess p (fun v => { v with prev := x }) = some s' ∧
      s'.pnext = s.pnext ∧ s'.pprev = Function.update s.pprev p x ∧
      s'.firstProcess = s.firstProcess ∧ SameMembers s s' := by
  obtain ⟨v, hv⟩ := Option.ne_none_iff_exists'.mp hp
  obtain ⟨hn, hpr, hsame⟩ := putProcess_links (w := { v with prev := x }) hv rfl
  refine ⟨_, setProcess_eq hv _, ?_, hpr, rfl, hsame⟩
  rw [hn, Function.update_eq_self_iff, State.pnext, hv, Option.bind_some]

/-- A process on the list is taken out of it. -/
lemma Listed.unlink (h : Listed s ps) (hp : p ∈ ps) :
    ∃ s', unlinkProcess s p = some s' ∧ Listed s' (ps.erase p) ∧ SameMembers s s' := by
  obtain ⟨before, hlinked⟩ := h.linked
  obtain ⟨v, hv⟩ := Option.ne_none_iff_exists'.mp (h.live p hp)
  have hnext : v.next = s.pnext p := by rw [State.pnext, hv, Option.bind_some]
  have hprev : v.prev = s.pprev p := by rw [State.pprev, hv, Option.bind_some]
  have hlive := h.live
  have hnodup := h.nodup
  have hhead := h.first
  obtain ⟨pre, post, rfl⟩ := List.append_of_mem hp
  have hpn := hlinked.next_eq
  have hpp := hlinked.prev_eq
  rw [Option.or_none] at hpn
  have hout : p ∉ pre := fun hm => (List.nodup_append'.mp hnodup).2.2 hm List.mem_cons_self
  have hsub : (pre ++ post).Nodup := hnodup.sublist ((List.sublist_cons_self p post).append_left pre)
  rw [List.erase_append_right _ hout, List.erase_cons_head]
  cases pre with
  | nil =>
    -- the process behind it becomes the first and keeps its `prev`
    refine ⟨{ s with firstProcess := v.next }, ?_, ⟨⟨some p, hlinked.2.2⟩, ?_, hsub, ?_⟩,
      rfl, rfl, rfl⟩
    · simp [unlinkProcess, hv, hhead]
    · rw [hnext, hpn]
      rfl
    · exact fun q hq => hlive q (by simp at hq ⊢; exact .inr hq)
  | cons f pre =>
    obtain ⟨q, hq⟩ : ∃ q, (f :: pre).getLast? = some q :=
      ⟨(f :: pre).getLast (by simp), List.getLast?_eq_some_getLast (by simp)⟩
    have hqmem : q ∈ f :: pre := List.mem_of_getLast? hq
    rw [hq, Option.some_or] at hpp
    have hfp : f ≠ p := fun he => hout (by simp [he])
    have hfirst : s.firstProcess ≠ some p := by
      rw [hhead]
      simpa using hfp
    obtain ⟨s1, hset1, hn1, hp1, hf1, hsame1⟩ :=
      setProcess_next (hlive q (List.mem_append_left _ hqmem)) (s.pnext p)
    have hlive1 : ∀ x ∈ f :: pre ++ post, s1.process x ≠ none := by
      intro x hx
      apply hsame1.live (hlive x _)
      simp only [List.mem_append, List.mem_cons] at hx ⊢
      tauto
    have hbypass : bypassProcess s v = some s1 := by
      rw [bypassProcess, hprev, hpp, hnext]
      exact hset1
    have hbefore : v.parent ≠ none ∨ v.prev ≠ none := by simp [hprev, hpp]
    have hvprev : v.prev = some q := hprev.trans hpp
    have hvnext : v.next = post.head? := hnext.trans hpn
    cases hn : post.head? with
    | none =>
      have hpost := List.head?_eq_none_iff.mp hn
      subst hpost
      refine ⟨s1, ?_, ⟨⟨before, ?_⟩, ?_, hsub, hlive1⟩, hsame1⟩
      · simp [unlinkProcess, hv, hfirst, hbefore, hbypass, hvnext]
      · refine hlinked.erase hnodup ?_ ?_ ?_ ?_
        · intro y hy
          obtain rfl := Option.some.inj (hq.symm.trans hy)
          rw [hn1, Function.update_self, hpn]
          rfl
        · simp
        · intro y _ hne
          rw [hn1, Function.update_of_ne]
          rintro rfl
          exact hne hq
        · intro y _ _
          rw [hp1]
      · rw [hf1, hhead]
        simp
    | some n =>
      have hnmem : n ∈ post := List.mem_of_head? hn
      obtain ⟨s2, hset2, hn2, hp2, hf2, hsame2⟩ :=
        setProcess_prev (hlive1 n (List.mem_append_right _ hnmem)) (some q)
      refine ⟨s2, ?_, ⟨⟨before, ?_⟩, ?_, hsub, fun x hx => hsame2.live (hlive1 x hx)⟩,
        hsame1.trans hsame2⟩
      · simp [unlinkProcess, hv, hfirst, hbypass, hvnext, hn, hvprev, hset2]
      · refine hlinked.erase hnodup ?_ ?_ ?_ ?_
        · intro y hy
          obtain rfl := Option.some.inj (hq.symm.trans hy)
          rw [hn2, hn1, Function.update_self, hpn, Option.or_none]
        · intro y hy
          obtain rfl := Option.some.inj (hn.symm.trans hy)
          rw [hp2, Function.update_self, hq, Option.some_or]
        · intro y _ hne
          rw [hn2, hn1, Function.update_of_ne]
          rintro rfl
          exact hne hq
        · intro y _ hne
          rw [hp2, hp1, Function.update_of_ne]
          rintro rfl
          exact hne hn
      · rw [hf2, hf1, hhead]
        simp

/-- The list depends on the links only. -/
lemma Listed.congr (h : Listed s ps) (hn : s'.pnext = s.pnext) (hp : s'.pprev = s.pprev)
    (hf : s'.firstProcess = s.firstProcess) (hlive : ∀ p ∈ ps, s'.process p ≠ none) :
    Listed s' ps := by
  obtain ⟨before, hlinked⟩ := h.linked
  refine ⟨⟨before, ?_⟩, hf.trans h.first, h.nodup, hlive⟩
  rw [hn, hp]
  exact hlinked

/-- The search through the list, from any point of it. -/
lemma enumProcessTree_eq (id : UInt32) (xs : List Ptr) :
    ∀ (before : Option Ptr) (fuel : ℕ), Linked s.pnext s.pprev before xs none →
      (∀ x ∈ xs, ∃ v, s.pbody x = some v ∧ v.child = none) → xs.length ≤ fuel →
      enumProcessTree s id fuel xs.head? =
        xs.find? fun x => decide ((s.pbody x).map (·.spaceId) = some id) := by
  induction xs with
  | nil =>
    intro before fuel _ _ _
    simp [enumProcessTree]
  | cons x xs ih =>
    intro before fuel hlinked hbody hfuel
    obtain ⟨fuel, rfl⟩ := Nat.exists_eq_succ_of_ne_zero (n := fuel) (by
      rintro rfl
      simp at hfuel)
    obtain ⟨w, hw, hchild⟩ := hbody x (by simp)
    have hrest := ih (some x) fuel hlinked.2.2 (fun y hy => hbody y (by simp [hy]))
      (by simpa using hfuel)
    cases hv : s.process x with
    | none => simp [State.pbody, hv] at hw
    | some v =>
      simp only [State.pbody, hv, Option.map_some, Option.some.injEq] at hw
      subst hw
      have hnext : v.next = xs.head? := by simpa [State.pnext, hv] using hlinked.2.1
      have hc : v.child = none := hchild
      by_cases hid : v.spaceId = id
      · simp [enumProcessTree, State.pbody, hv, hid]
      · simp [enumProcessTree, State.pbody, hv, hid, hc, hnext]
        simpa [State.pbody] using hrest

/-- A process that is not on the list is put at its end. -/
lemma Listed.link {this : Ptr} {sid : UInt32} {d : Bool} {pi t : Option Ptr} (h : Listed s ps)
    (hbody : ∀ x ∈ ps, ∃ v, s.pbody x = some v ∧ v.child = none ∧ v.parent = none)
    (hthis : s.process this = some ⟨sid, d, pi, none, none, none, none, t⟩) (hout : this ∉ ps)
    (pid : UInt32) : ∃ s', linkProcess s pid this = some s' ∧ Listed s' (ps ++ [this]) ∧ SameMembers s s' := by
  obtain ⟨before, hlinked⟩ := h.linked
  have hlen := nodup_length_le h.nodup
  have hsearch : getProcessById s pid = ps.find? fun x =>
      decide ((s.pbody x).map (·.spaceId) = some pid) := by
    rw [getProcessById, h.first]
    refine enumProcessTree_eq pid ps before addressSpace hlinked (fun x hx => ?_) hlen
    obtain ⟨w, hw, hc, -⟩ := hbody x hx
    exact ⟨w, hw, hc⟩
  have hnodup : (ps ++ [this]).Nodup := by
    rw [← List.concat_eq_append]
    exact h.nodup.concat hout
  cases hps : ps.getLast? with
  | none =>
    obtain rfl := List.getLast?_eq_none_iff.mp hps
    have hp : (if pid ≠ 0 then getProcessById s pid else none).or s.firstProcess = none := by
      simp [hsearch, h.first]
    obtain ⟨s1, hs1⟩ : ∃ s1, s1 = { s with firstProcess := some this } := ⟨_, rfl⟩
    have hthis1 : s1.process this = some ⟨sid, d, pi, none, none, none, none, t⟩ := by
      rw [hs1]
      exact hthis
    obtain ⟨hn, hpr, hsame⟩ := putProcess_links
      (w := ⟨sid, d, pi, none, none, none, none, t⟩) hthis1 rfl
    have hsame1 : SameMembers s s1 := by
      rw [hs1]
      exact ⟨rfl, rfl, rfl⟩
    refine ⟨_, ?_, ⟨⟨none, ?_⟩, ?_, hnodup, ?_⟩, hsame1.trans hsame⟩
    · simp only [linkProcess, hp, ← hs1]
      exact setProcess_eq hthis1 _
    · refine ⟨?_, ?_, trivial⟩
      · rw [hpr, Function.update_self]
      · rw [hn, Function.update_self]
        rfl
    · rw [hs1]
      rfl
    · simp [State.putProcess]
  | some l =>
    have hlmem : l ∈ ps := List.mem_of_getLast? hps
    have hlthis : this ≠ l := fun he => hout (he ▸ hlmem)
    obtain ⟨p, hp, hpmem⟩ : ∃ p, (if pid ≠ 0 then getProcessById s pid else none).or
        s.firstProcess = some p ∧ p ∈ ps := by
      cases hq : (if pid ≠ 0 then getProcessById s pid else none) with
      | none =>
        rw [Option.none_or, h.first]
        cases ps with
        | nil => cases hlmem
        | cons x xs => exact ⟨x, rfl, by simp⟩
      | some q =>
        refine ⟨q, rfl, ?_⟩
        split_ifs at hq
        rw [hsearch] at hq
        exact List.mem_of_find?_eq_some hq
    have hlast : lastProcess s p = some l := by
      obtain ⟨pre, rest, rfl⟩ := List.append_of_mem hpmem
      have hrest := ((linked_append pre (p :: rest)).mp hlinked).2
      rw [List.length_append, List.length_cons] at hlen
      rw [← hps, List.getLast?_append_of_ne_nil _ (List.cons_ne_nil p rest)]
      refine lastOf_eq rest _ p addressSpace hrest (fun x hx => ?_) (by omega)
      obtain ⟨w, hw⟩ := Option.ne_none_iff_exists'.mp (h.live x (List.mem_append_right _ hx))
      rw [State.pnext, hw, Option.map_some, Option.bind_some]
    obtain ⟨wl, hwl⟩ := Option.ne_none_iff_exists'.mp (h.live l hlmem)
    obtain ⟨bl, hbl, -, hparentl⟩ := hbody l hlmem
    have hwparent : wl.parent = none := by
      simp only [State.pbody, hwl, Option.map_some, Option.some.injEq] at hbl
      rw [← hbl] at hparentl
      exact hparentl
    obtain ⟨hn1, hp1, hsame1⟩ := putProcess_links (w := { wl with next := some this }) hwl rfl
    obtain ⟨s1, hs1⟩ : ∃ s1, s1 = s.putProcess l (some { wl with next := some this }) := ⟨_, rfl⟩
    rw [← hs1] at hn1 hp1 hsame1
    have hthis1 : s1.process this = some ⟨sid, d, pi, none, none, none, none, t⟩ := by
      rw [hs1, State.putProcess]
      exact (Function.update_of_ne hlthis _ _).trans hthis
    have hl1 : s1.process l = some { wl with next := some this } := by
      rw [hs1, State.putProcess]
      exact Function.update_self _ _ _
    obtain ⟨hn2, hp2, hsame2⟩ := putProcess_links
      (w := ⟨sid, d, pi, some l, none, none, none, t⟩) hthis1 rfl
    have hsame := hsame1.trans hsame2
    refine ⟨_, ?_, ⟨⟨before, ?_⟩, ?_, hnodup, fun x hx => ?_⟩, hsame⟩
    · have hset : s.setProcess l (fun v => { v with next := some this }) = some s1 := by
        rw [setProcess_eq hwl, hs1]
      simp only [linkProcess, hp, hlast, Option.bind_eq_bind, Option.bind_some, hset, hl1, hwparent]
      exact setProcess_eq hthis1 _
    · rw [hn2, hp2, hn1, hp1]
      have hlinked' : Linked s.pnext s.pprev before (ps ++ []) none := by rwa [List.append_nil]
      have hnodup' : (ps ++ []).Nodup := by
        rw [List.append_nil]
        exact h.nodup
      have hne : ∀ y ∈ ps ++ [], y ≠ this := by
        rintro y hy rfl
        rw [List.append_nil] at hy
        exact hout hy
      refine hlinked'.insert ps [] hnodup' ?_ ?_ ?_ ?_ ?_ ?_
      · rw [Function.update_self]
        rfl
      · rw [Function.update_self, hps, Option.some_or]
      · intro y hy
        obtain rfl := Option.some.inj (hps.symm.trans hy)
        rw [Function.update_of_ne hlthis.symm, Function.update_self]
      · simp
      · intro y hy hyl
        rw [Function.update_of_ne (hne y hy), Function.update_of_ne]
        rintro rfl
        exact hyl hps
      · intro y hy _
        rw [Function.update_of_ne (hne y hy), Function.update_eq_self_iff.mpr]
        rw [State.pprev, hwl, Option.bind_some]
    · have hhead : s1.firstProcess = s.firstProcess := by rw [hs1]; rfl
      refine hhead.trans (h.first.trans ?_)
      cases ps with
      | nil => cases hlmem
      | cons x xs => rfl
    · rcases List.mem_append.mp hx with hx | hx
      · exact hsame.live (h.live x hx)
      · rw [List.mem_singleton.mp hx]
        simp [State.putProcess]

end Links

/-! ## Disposal of a process -/

/-- The processes on the list are those that were initialised, with their ids. -/
structure Processes (s : State) (ini : List (Ptr × UInt32)) : Prop where
  listed : Listed s (ini.map Prod.fst)
  member : ∀ e ∈ ini, ∃ pi,
    s.pbody e.1 = some ⟨e.2, false, some pi, none, none, none, none, none⟩
  loose : ∀ p v, s.pbody p = some v → p ∉ ini.map Prod.fst → v.disposed = true

section Disposal
variable {s s' : State} {own : Ptr → List Ptr} {ini : List (Ptr × UInt32)} {p : Ptr}

lemma SameProcesses.links (h : SameProcesses s s') :
    s'.pnext = s.pnext ∧ s'.pprev = s.pprev ∧ s'.pbody = s.pbody := by
  refine ⟨?_, ?_, ?_⟩
  all_goals
    funext q
    have hq := congrFun h.pcore q
    cases hs : s.process q <;> cases hs' : s'.process q <;>
      simp_all [State.pcore, State.pnext, State.pprev, State.pbody]

lemma Processes.congr (h : Processes s ini) (hsame : SameProcesses s s') : Processes s' ini := by
  obtain ⟨hn, hp, hb⟩ := hsame.links
  refine ⟨h.listed.congr hn hp hsame.first fun q hq => ?_, ?_, ?_⟩
  · rw [← pbody_ne, hb, pbody_ne]
    exact h.listed.live q hq
  · rw [hb]
    exact h.member
  · rw [hb]
    exact h.loose

lemma killProcessChildren_none (f : State → Ptr → Option State) (fuel : ℕ) (s : State) :
    killProcessChildren f fuel s none = some s := by
  cases fuel <;> rfl

/-- `Process::Dispose` up to the removal from the list. -/
lemma dispose_threads (h : Threads s own) {v : Process} (hv : s.process p = some v)
    (hd : v.disposed = false) (hchild : v.child = none) :
    ∃ s2, Threads s2 (Function.update own p []) ∧ s2.pnext = s.pnext ∧ s2.pprev = s.pprev ∧
      s2.firstProcess = s.firstProcess ∧
      s2.pbody = Function.update s.pbody p
        (some ⟨0, true, v.pi, none, none, v.parent, none, none⟩) ∧
      ∀ s3, unlinkProcess s2 p = some s3 → s3.pbody = s2.pbody → dispose s p = some s3 := by
  have hhead : v.mainThread = (own p).head? := by
    rw [← (h.family.chain p).head_eq, State.main, hv, Option.bind_some]
  obtain ⟨s0, hs0⟩ : ∃ s0, s0 = s.putProcess p (some { v with disposed := true }) := ⟨_, rfl⟩
  obtain ⟨hn0, hp0, hm0, hb0⟩ :=
    putProcess_body (w := { v with disposed := true }) hv rfl rfl rfl
  rw [← hs0] at hn0 hp0 hm0 hb0
  have ht0 : s0.thread = s.thread := by rw [hs0]; rfl
  have hf0 : s0.firstProcess = s.firstProcess := by rw [hs0]; rfl
  obtain ⟨s1, hdelete, hthreads1, hsame1⟩ := Threads.deleteAll (p := p) addressSpace s0 own
    (h.congr ht0 hm0) (nodup_length_le (h.family.chain p).nodup)
  obtain ⟨hn1, hp1, hb1⟩ := hsame1.links
  have hbody1 : s1.pbody p = some ⟨v.spaceId, true, v.pi, none, none, v.parent, none, none⟩ := by
    rw [hb1, hb0, Function.update_self, hchild]
  cases hv1 : s1.process p with
  | none => simp [State.pbody, hv1] at hbody1
  | some w =>
    simp only [State.pbody, hv1, Option.map_some, Option.some.injEq, Process.mk.injEq] at hbody1
    obtain ⟨-, hwd, hwpi, -, -, hwparent, hwchild, -⟩ := hbody1
    obtain ⟨hn2, hp2, hm2, hb2⟩ := putProcess_body (w := { w with spaceId := 0 }) hv1 rfl rfl rfl
    obtain ⟨s2, hs2⟩ : ∃ s2, s2 = s1.putProcess p (some { w with spaceId := 0 }) := ⟨_, rfl⟩
    rw [← hs2] at hn2 hp2 hm2 hb2
    have hbody2 : s2.pbody = Function.update s.pbody p
        (some ⟨0, true, v.pi, none, none, v.parent, none, none⟩) := by
      rw [hb2, hb1, hb0, Function.update_idem, hwd, hwpi, hwparent, hwchild]
    refine ⟨s2, hthreads1.congr (by rw [hs2]; rfl) hm2, by rw [hn2, hn1, hn0],
      by rw [hp2, hp1, hp0], ?_, hbody2, fun s3 hunlink hb3 => ?_⟩
    · rw [← hf0, ← hsame1.first, hs2]
      rfl
    · have hbody3 : s3.pbody p = some ⟨0, true, v.pi, none, none, v.parent, none, none⟩ := by
        rw [hb3, hbody2, Function.update_self]
      cases hv3 : s3.process p with
      | none => simp [State.pbody, hv3] at hbody3
      | some u =>
        simp only [State.pbody, hv3, Option.map_some, Option.some.injEq, Process.mk.injEq] at hbody3
        obtain ⟨-, -, -, -, -, -, huchild, -⟩ := hbody3
        have hfuel : addressSpace = 4294967295 + 1 := rfl
        have hdelete' : deleteThreads addressSpace s0 v.mainThread = some s1 := by
          rw [hhead]
          exact hdelete
        have hset : s1.setProcess p (fun v => { v with spaceId := 0 }) = some s2 := by
          rw [setProcess_eq hv1, hs2]
        have hmark : s.putProcess p (some { v with disposed := true }) = s0 := hs0.symm
        rw [dispose, hfuel, processDispose]
        simp only [hv, Option.bind_eq_bind, Option.bind_some, hd, Bool.false_eq_true, if_false, hmark,
          hdelete', hset, hunlink, hv3, huchild, killProcessChildren_none]

/-- A process on the list is disposed of. -/
lemma Processes.remove (h : Processes s ini) (ht : Threads s own) (hp : p ∈ ini.map Prod.fst) :
    ∃ s', dispose s p = some s' ∧ Processes s' (ini.filter (·.1 ≠ p)) ∧
      Threads s' (Function.update own p []) := by
  obtain ⟨e, he, rfl⟩ := List.mem_map.mp hp
  obtain ⟨pi, hbody⟩ := h.member e he
  cases hv : s.process e.1 with
  | none => simp [State.pbody, hv] at hbody
  | some v =>
    simp only [State.pbody, hv, Option.map_some, Option.some.injEq, Process.mk.injEq] at hbody
    obtain ⟨-, hd, -, -, -, -, hchild, -⟩ := hbody
    obtain ⟨s2, hthreads, hn, hpr, hf, hb, hdispose⟩ := dispose_threads ht hv hd hchild
    have hlive : ∀ q ∈ ini.map Prod.fst, s2.process q ≠ none := by
      intro q hq
      rw [← pbody_ne, hb]
      by_cases hqe : q = e.1
      · simp [hqe]
      · rw [Function.update_of_ne hqe, pbody_ne]
        exact h.listed.live q hq
    obtain ⟨s3, hunlink, hlisted, hsame⟩ :=
      (h.listed.congr hn hpr hf hlive).unlink hp
    have hfst : (ini.filter (·.1 ≠ e.1)).map Prod.fst = (ini.map Prod.fst).erase e.1 := by
      rw [h.listed.nodup.erase_eq_filter, List.filter_map]
      congr 1
      exact List.filter_congr fun f _ => by simp [bne, beq_eq_decide]
    refine ⟨s3, hdispose s3 hunlink hsame.body, ⟨?_, ?_, ?_⟩, hthreads.congr hsame.thread hsame.main⟩
    · rw [hfst]
      exact hlisted
    · intro f hf'
      obtain ⟨hf', hne⟩ := List.mem_filter.mp hf'
      rw [hsame.body, hb, Function.update_of_ne (by simpa using hne)]
      exact h.member f hf'
    · intro q w hw hout
      rw [hsame.body, hb] at hw
      by_cases hq : q = e.1
      · rw [hq, Function.update_self] at hw
        rw [← Option.some.inj hw]
      · rw [Function.update_of_ne hq] at hw
        refine h.loose q w hw fun hmem => hout ?_
        rw [hfst]
        exact (List.mem_erase_of_ne hq).mpr hmem

/-- A process that is on no list was disposed of before. -/
lemma Processes.disposed (h : Processes s ini) (hp : p ∉ ini.map Prod.fst)
    (hlive : s.process p ≠ none) : ProcessList.dispose s p = some s := by
  obtain ⟨v, hv⟩ := Option.ne_none_iff_exists'.mp hlive
  have hd : v.disposed = true :=
    h.loose p { v with next := none, prev := none, mainThread := none } (by simp [State.pbody, hv]) hp
  have hfuel : addressSpace = 4294967295 + 1 := rfl
  rw [ProcessList.dispose, hfuel, processDispose]
  simp only [hv, Option.bind_eq_bind, Option.bind_some, hd, if_pos]

/-- A process that is on no list is deleted from memory. -/
lemma Processes.free (h : Processes s ini) (hp : p ∉ ini.map Prod.fst) :
    Processes (s.putProcess p none) ini := by
  have hne : ∀ q ∈ ini.map Prod.fst, q ≠ p := by
    rintro q hq rfl
    exact hp hq
  have hb : ∀ q, q ≠ p → (s.putProcess p none).pbody q = s.pbody q := by
    intro q hq
    simp [State.pbody, State.putProcess, hq]
  obtain ⟨before, hlinked⟩ := h.listed.linked
  refine ⟨⟨⟨before, hlinked.congr (fun q hq => ?_) fun q hq => ?_⟩, h.listed.first, h.listed.nodup,
    fun q hq => ?_⟩, fun e he => ?_, fun q v hv hout => ?_⟩
  · simp [State.pnext, State.putProcess, hne q hq]
  · simp [State.pprev, State.putProcess, hne q hq]
  · rw [← pbody_ne, hb q (hne q hq), pbody_ne]
    exact h.listed.live q hq
  · rw [hb e.1 (hne e.1 (List.mem_map_of_mem he))]
    exact h.member e he
  · by_cases hq : q = p
    · simp [State.pbody, State.putProcess, hq] at hv
    · rw [hb q hq] at hv
      exact h.loose q v hv hout

lemma Threads.freeProcess (h : Threads s own) (hp : own p = []) :
    Threads (s.putProcess p none) own := by
  refine h.congr rfl (funext fun q => ?_)
  by_cases hq : q = p
  · have hhead := (h.family.chain p).head_eq
    rw [hp] at hhead
    rw [hq, hhead]
    simp [State.main, State.putProcess]
  · simp [State.main, State.putProcess, hq]

end Disposal

/-! ## Construction of a process -/

section Construction
variable {s : State} {own : Ptr → List Ptr} {ini : List (Ptr × UInt32)} {this t : Ptr}

/-- The block of a new process is filled in. -/
lemma putProcess_new {w : Process} (hthis : s.process this = none) (hn : w.next = none)
    (hp : w.prev = none) (hm : w.mainThread = none) :
    (s.putProcess this (some w)).pnext = s.pnext ∧ (s.putProcess this (some w)).pprev = s.pprev ∧
      (s.putProcess this (some w)).main = s.main ∧
      (s.putProcess this (some w)).pbody = Function.update s.pbody this (some w) := by
  have hw : { w with next := none, prev := none, mainThread := none } = w := by
    cases w
    simp_all
  refine ⟨?_, ?_, ?_, ?_⟩
  all_goals
    funext q
    by_cases hq : q = this
    · subst hq
      simp [State.putProcess, State.pnext, State.pprev, State.main, State.pbody, hthis, hn, hp, hm, hw]
    · simp [State.putProcess, State.pnext, State.pprev, State.main, State.pbody, hq]

/-- A process whose construction fails before it has a thread is disposed of. -/
lemma Processes.abandon (h : Processes s ini) (ht : Threads s own)
    (hthis : s.process this = none) (sid : UInt32) (pi : Option Ptr) :
    ∃ s', ProcessList.dispose
        (s.putProcess this (some ⟨sid, false, pi, none, none, none, none, none⟩)) this = some s' ∧
      Processes s' ini ∧ Threads s' own ∧ s'.process this ≠ none := by
  obtain ⟨s1, hs1⟩ : ∃ s1, s1 =
    s.putProcess this (some ⟨sid, false, pi, none, none, none, none, none⟩) := ⟨_, rfl⟩
  obtain ⟨hn1, hp1, hm1, hb1⟩ :=
    putProcess_new (w := ⟨sid, false, pi, none, none, none, none, none⟩) hthis rfl rfl rfl
  rw [← hs1] at hn1 hp1 hm1 hb1 ⊢
  have hout : this ∉ ini.map Prod.fst := fun hmem => h.listed.live this hmem hthis
  have hown : own this = [] := by
    rw [← List.head?_eq_none_iff, ← (ht.family.chain this).head_eq, State.main, hthis]
    rfl
  have ht1 : Threads s1 own := ht.congr (by rw [hs1]; rfl) hm1
  have hv1 : s1.process this = some ⟨sid, false, pi, none, none, none, none, none⟩ := by
    rw [hs1]
    exact Function.update_self _ _ _
  obtain ⟨s2, hthreads, hn2, hp2, hf2, hb2, hdispose⟩ := dispose_threads ht1 hv1 rfl rfl
  rw [← hown, Function.update_eq_self] at hthreads
  rw [hb1, Function.update_idem] at hb2
  have hlive2 : s2.process this ≠ none := by
    rw [← pbody_ne, hb2]
    simp
  have hfirst : s2.firstProcess = s.firstProcess := by
    rw [hf2, hs1]
    rfl
  have hlisted : Listed s2 (ini.map Prod.fst) := by
    refine h.listed.congr (hn2.trans hn1) (hp2.trans hp1) hfirst fun q hq => ?_
    have hqt : q ≠ this := fun he => hout (he ▸ hq)
    rw [← pbody_ne, hb2, Function.update_of_ne hqt, pbody_ne]
    exact h.listed.live q hq
  refine ⟨s2, hdispose s2 ?_ rfl, ⟨hlisted, fun e he => ?_, fun q v hv hq => ?_⟩, hthreads, hlive2⟩
  · obtain ⟨u, hu⟩ := Option.ne_none_iff_exists'.mp hlive2
    have hbody : s2.pbody this = some ⟨0, true, pi, none, none, none, none, none⟩ := by
      rw [hb2, Function.update_self]
    have hprev : s2.pprev this = none := by
      rw [hp2, hp1, State.pprev, hthis]
      rfl
    simp only [State.pbody, hu, Option.map_some, Option.some.injEq, Process.mk.injEq] at hbody
    simp only [State.pprev, hu, Option.bind_some] at hprev
    have hne : s2.firstProcess ≠ some this := by
      rw [hlisted.first]
      exact fun he => hout (List.mem_of_head? he)
    simp [unlinkProcess, hu, hne, hbody, hprev]
  · have het : e.1 ≠ this := fun he' => hout (he' ▸ List.mem_map_of_mem he)
    rw [hb2, Function.update_of_ne het]
    exact h.member e he
  · rw [hb2] at hv
    by_cases hqt : q = this
    · rw [hqt, Function.update_self] at hv
      rw [← Option.some.inj hv]
    · rw [Function.update_of_ne hqt] at hv
      exact h.loose q v hv hq

/-- A process gets its main thread and is put on the list. -/
lemma Processes.create (h : Processes s ini) (ht : Threads s own) (hthis : s.process this = none)
    (hthread : s.thread t = none) (sid pi : UInt32) (pid : UInt32) (r : ThreadReplies)
    (hr : r.ok = true) :
    ∃ s2 s3, newThread (s.putProcess this (some ⟨sid, false, some pi, none, none, none, none, none⟩))
        t this r = some s2 ∧
      (∃ v, s2.process this = some v ∧ v.mainThread ≠ none) ∧ linkProcess s2 pid this = some s3 ∧
      Processes s3 (ini ++ [(this, sid)]) ∧ Threads s3 (Function.update own this [t]) := by
  obtain ⟨s1, hs1⟩ : ∃ s1, s1 =
    s.putProcess this (some ⟨sid, false, some pi, none, none, none, none, none⟩) := ⟨_, rfl⟩
  obtain ⟨hn1, hp1, hm1, hb1⟩ :=
    putProcess_new (w := ⟨sid, false, some pi, none, none, none, none, none⟩) hthis rfl rfl rfl
  rw [← hs1] at hn1 hp1 hm1 hb1 ⊢
  have hout : this ∉ ini.map Prod.fst := fun hmem => h.listed.live this hmem hthis
  have hown : own this = [] := by
    rw [← List.head?_eq_none_iff, ← (ht.family.chain this).head_eq, State.main, hthis]
    rfl
  have ht1 : Threads s1 own := ht.congr (by rw [hs1]; rfl) hm1
  have hv1 : s1.process this = some ⟨sid, false, some pi, none, none, none, none, none⟩ := by
    rw [hs1]
    exact Function.update_self _ _ _
  have hthread1 : s1.thread t = none := by
    rw [hs1]
    exact hthread
  obtain ⟨s2, hnew, hthreads2, hsame2⟩ := ht1.create hv1 (by simp) hthread1 r hr
  rw [hown, List.nil_append] at hthreads2
  obtain ⟨hn2, hp2, hb2⟩ := hsame2.links
  have hmain2 : s2.main this = some t := by
    rw [(hthreads2.family.chain this).head_eq, Function.update_self]
    rfl
  have hv2 : s2.process this = some ⟨sid, false, some pi, none, none, none, none, some t⟩ := by
    have hcore := congrFun hsame2.pcore this
    cases hv : s2.process this with
    | none => simp [State.main, hv] at hmain2
    | some w =>
      simp only [State.pcore, hv, hv1, Option.map_some, Option.some.injEq, Process.mk.injEq] at hcore
      simp only [State.main, hv, Option.bind_some] at hmain2
      cases w
      simp_all
  have hbody2 : s2.pbody = Function.update s.pbody this
      (some ⟨sid, false, some pi, none, none, none, none, none⟩) := hb2.trans hb1
  have hne : ∀ q ∈ ini.map Prod.fst, q ≠ this := by
    rintro q hq rfl
    exact hout hq
  have hfirst : s2.firstProcess = s.firstProcess := by
    rw [hsame2.first, hs1]
    rfl
  have hlisted2 : Listed s2 (ini.map Prod.fst) := by
    refine h.listed.congr (hn2.trans hn1) (hp2.trans hp1) hfirst fun q hq => ?_
    rw [← pbody_ne, hbody2, Function.update_of_ne (hne q hq), pbody_ne]
    exact h.listed.live q hq
  have hbodies : ∀ q ∈ ini.map Prod.fst, ∃ v, s2.pbody q = some v ∧ v.child = none ∧
      v.parent = none := by
    intro q hq
    obtain ⟨e, he, rfl⟩ := List.mem_map.mp hq
    obtain ⟨pi, hpi⟩ := h.member e he
    exact ⟨_, by rw [hbody2, Function.update_of_ne (hne e.1 hq), hpi], rfl, rfl⟩
  obtain ⟨s3, hlink, hlisted3, hsame3⟩ := hlisted2.link hbodies hv2 hout pid
  refine ⟨s2, s3, hnew, ⟨_, hv2, by simp⟩, hlink, ⟨?_, fun e he => ?_, fun q v hv hq => ?_⟩,
    hthreads2.congr hsame3.thread hsame3.main⟩
  · rw [List.map_append]
    exact hlisted3
  · rw [hsame3.body, hbody2]
    rcases List.mem_append.mp he with he | he
    · rw [Function.update_of_ne (hne e.1 (List.mem_map_of_mem he))]
      exact h.member e he
    · rw [List.mem_singleton.mp he, Function.update_self]
      exact ⟨pi, rfl⟩
  · have hqt : q ≠ this := by
      rintro rfl
      simp at hq
    rw [hsame3.body, hbody2, Function.update_of_ne hqt] at hv
    refine h.loose q v hv fun hmem => hq ?_
    rw [List.map_append]
    exact List.mem_append_left _ hmem

lemma setup_pi {r : ProcessReplies} {env : Bool} (h : (setup r env).result = true) :
    ∃ pi, (setup r env).pi = some pi := by
  unfold setup at h ⊢
  split_ifs at h ⊢ with hbed henv
  all_goals
    cases hpi : mapAddress r.pi <;> simp only [hpi] at h ⊢
    · cases h
    · cases hline : mapAddress r.commandLine <;> simp only [hline] at h ⊢ <;>
        cases hvars : mapAddress r.environment <;> simp_all

/-- The constructor of `Process`, step by step. -/
lemma Processes.new (h : Processes s ini) (ht : Threads s own) (hthis : s.process this = none)
    (hthread : s.thread t = none) (pid : UInt32) (env : Bool) (r : ProcessReplies) :
    ((setup r env).result = false ∧ ∃ s', newProcess s this t pid env r = some (false, s') ∧
        Processes s' ini ∧ Threads s' own) ∨
      ((setup r env).result = true ∧ r.thread.ok = true ∧
        ∃ s', newProcess s this t pid env r = some (true, s') ∧
          Processes s' (ini ++ [(this, r.sid)]) ∧ Threads s' (Function.update own this [t])) ∨
      ((setup r env).result = true ∧ ¬r.thread.ok = true ∧
        newProcess s this t pid env r = none) := by
  have hout : this ∉ ini.map Prod.fst := fun hmem => h.listed.live this hmem hthis
  have hset : (s.putProcess this (some ⟨0, false, none, none, none, none, none, none⟩)).setProcess
      this (fun v => { v with spaceId := r.sid, pi := (setup r env).pi }) =
        some (s.putProcess this
          (some ⟨r.sid, false, (setup r env).pi, none, none, none, none, none⟩)) := by
    simp [State.setProcess, State.putProcess]
  cases hresult : (setup r env).result with
  | false =>
    obtain ⟨s', hdispose, hprocesses, hthreads, hlive⟩ := h.abandon ht hthis r.sid (setup r env).pi
    refine .inl ⟨rfl, s', ?_, hprocesses, hthreads⟩
    have hagain := hprocesses.disposed hout hlive
    simp [newProcess, processInitialize, hset, hresult, hdispose, hagain]
  | true =>
    obtain ⟨pi, hpi⟩ := setup_pi hresult
    rw [hpi] at hset
    refine .inr ?_
    by_cases hr : r.thread.ok = true
    · obtain ⟨s2, s3, hnew, ⟨v, hv, hmain⟩, hlink, hprocesses, hthreads⟩ :=
        h.create ht hthis hthread r.sid pi pid r.thread hr
      refine .inl ⟨rfl, hr, s3, ?_, hprocesses, hthreads⟩
      simp [newProcess, processInitialize, hpi, hset, hresult, hnew, hv, hmain, hlink]
    · refine .inr ⟨rfl, hr, ?_⟩
      have hnone : newThread (s.putProcess this
          (some ⟨r.sid, false, some pi, none, none, none, none, none⟩)) t this r.thread = none :=
        newThread_none (v := ⟨r.sid, false, some pi, none, none, none, none, none⟩)
          (Function.update_self _ _ _) r.thread hr
      simp [newProcess, processInitialize, hpi, hset, hresult, hnone]

end Construction

/-! ## Runs -/

/-- What holds in every state, as long as no thread constructor gives up. -/
def Inv (s : System) : Prop :=
  ∃ st, s.state = some st ∧ Processes st s.initialised ∧ Threads st s.constructed ∧
    ∀ p, s.constructed p ≠ [] → p ∈ s.initialised.map Prod.fst

/-- No member was read without a value; the search finds the initialised processes by their ids;
and the threads of each are the constructed ones, doubly linked. -/
def Good (s : System) : Prop :=
  ∃ st, s.state = some st ∧
    (∀ id, (∃ p, getProcessById st id = some p) ↔ ∃ p, (p, id) ∈ s.initialised) ∧
    (∀ id p, getProcessById st id = some p → (p, id) ∈ s.initialised) ∧
    ∀ e ∈ s.initialised, Chain st.tnext st.tprev (st.main e.1) (s.constructed e.1)

/-- All calls of the thread constructor succeed, where it is reached. -/
def StepOk (_ : System) : Event → Prop
  | .createProcess _ _ _ env r => (setup r env).result = true → r.thread.ok = true
  | .createThread _ _ r => r.ok = true
  | _ => True

lemma Processes.search {s : State} {ini : List (Ptr × UInt32)} (h : Processes s ini) (id : UInt32) :
    getProcessById s id = (ini.find? fun e => decide (e.2 = id)).map Prod.fst := by
  obtain ⟨before, hlinked⟩ := h.listed.linked
  rw [getProcessById, h.listed.first, enumProcessTree_eq id _ before addressSpace hlinked
    (fun x hx => ?_) (nodup_length_le h.listed.nodup), List.find?_map]
  · congr 1
    refine List.find?_congr fun e he => ?_
    obtain ⟨pi, hpi⟩ := h.member e he
    simp [hpi]
  · obtain ⟨e, he, rfl⟩ := List.mem_map.mp hx
    obtain ⟨pi, hpi⟩ := h.member e he
    exact ⟨_, hpi, rfl⟩

lemma Inv.good {s : System} (h : Inv s) : Good s := by
  obtain ⟨st, hst, hprocesses, hthreads, -⟩ := h
  refine ⟨st, hst, fun id => ?_, fun id p hp => ?_, fun e _ => hthreads.family.chain e.1⟩
  · simp only [hprocesses.search, Option.map_eq_some_iff]
    constructor
    · rintro ⟨p, e, he, rfl⟩
      have hid := List.find?_some he
      simp only [decide_eq_true_eq] at hid
      subst hid
      exact ⟨e.1, List.mem_of_find?_eq_some he⟩
    · rintro ⟨p, hp⟩
      have hsome : (s.initialised.find? fun e => decide (e.2 = id)).isSome = true :=
        List.find?_isSome.mpr ⟨(p, id), hp, by simp⟩
      obtain ⟨e, he⟩ := Option.isSome_iff_exists.mp hsome
      exact ⟨e.1, e, he, rfl⟩
  · rw [hprocesses.search, Option.map_eq_some_iff] at hp
    obtain ⟨e, he, rfl⟩ := hp
    have hid := List.find?_some he
    simp only [decide_eq_true_eq] at hid
    subst hid
    exact List.mem_of_find?_eq_some he

lemma Inv.createThread {s : System} (h : Inv s) {t p : Ptr} {r : ThreadReplies}
    (hp : Proper s (.createThread t p r)) :
    (r.ok = true → Inv (step s (.createThread t p r))) ∧
      (¬r.ok = true → (step s (.createThread t p r)).state = none) := by
  obtain ⟨st, hst, hprocesses, hthreads, howner⟩ := h
  obtain ⟨hmem, ht⟩ := hp st hst
  obtain ⟨e, he, rfl⟩ := List.mem_map.mp hmem
  obtain ⟨pi, hbody⟩ := hprocesses.member e he
  obtain ⟨v, hv⟩ := Option.ne_none_iff_exists'.mp (hprocesses.listed.live e.1 hmem)
  simp only [State.pbody, hv, Option.map_some, Option.some.injEq, Process.mk.injEq] at hbody
  constructor
  · intro hr
    obtain ⟨st', hnew, hthreads', hsame⟩ := hthreads.create hv (by simp [hbody]) ht r hr
    refine ⟨st', ?_, ?_, ?_, fun q hq => ?_⟩
    · simp only [step, hst, hnew]
    · simp only [step, hst]
      exact hprocesses.congr hsame
    · simp only [step, hst, if_pos hr]
      exact hthreads'
    · simp only [step, hst, if_pos hr] at hq ⊢
      by_cases hqe : q = e.1
      · exact hqe ▸ hmem
      · rw [Function.update_of_ne hqe] at hq
        exact howner q hq
  · intro hr
    simp only [step, hst]
    exact newThread_none hv r hr

lemma Inv.createProcess {s : System} (h : Inv s) {this t : Ptr} {pid : UInt32} {env : Bool}
    {r : ProcessReplies} (hp : Proper s (.createProcess this t pid env r)) :
    (StepOk s (.createProcess this t pid env r) → Inv (step s (.createProcess this t pid env r))) ∧
      (¬StepOk s (.createProcess this t pid env r) →
        (step s (.createProcess this t pid env r)).state = none) := by
  obtain ⟨st, hst, hprocesses, hthreads, howner⟩ := h
  obtain ⟨hthis, ht⟩ := hp st hst
  rcases hprocesses.new hthreads hthis ht pid env r with
    ⟨hresult, st', hnew, hprocesses', hthreads'⟩ |
    ⟨hresult, hr, st', hnew, hprocesses', hthreads'⟩ | ⟨hresult, hr, hnew⟩
  · refine ⟨fun _ => ?_, fun hno => absurd (fun ht => ?_) hno⟩
    · simp only [step, hst, hnew]
      exact ⟨st', rfl, hprocesses', hthreads', howner⟩
    · rw [hresult] at ht
      cases ht
  · refine ⟨fun _ => ?_, fun hno => absurd (fun _ => hr) hno⟩
    simp only [step, hst, hnew]
    refine ⟨st', rfl, hprocesses', hthreads', fun q hq => ?_⟩
    rw [List.map_append]
    by_cases hqt : q = this
    · exact List.mem_append_right _ (by simp [hqt])
    · exact List.mem_append_left _ (howner q (by simpa [hqt] using hq))
  · refine ⟨fun hok => absurd (hok hresult) hr, fun _ => ?_⟩
    simp only [step, hst, hnew]

/-- A thread on a list is on the list of one process. -/
lemma Threads.forget_eq {st : State} {own : Ptr → List Ptr} {t p : Ptr} (h : Threads st own)
    (ht : t ∈ own p) : forget own t = Function.update own p ((own p).erase t) := by
  funext q
  by_cases hq : q = p
  · rw [hq, Function.update_self, (h.family.chain p).nodup.erase_eq_filter]
    exact List.filter_congr fun x _ => by simp [bne, beq_eq_decide]
  · rw [Function.update_of_ne hq, forget, List.filter_eq_self]
    intro x hx
    simp only [decide_eq_true_eq]
    rintro rfl
    exact hq (h.family.apart q p x hx ht)

lemma forget_of_not_mem {own : Ptr → List Ptr} {t : Ptr} (ht : ∀ p, t ∉ own p) :
    forget own t = own := by
  funext q
  rw [forget, List.filter_eq_self]
  intro x hx
  simp only [decide_eq_true_eq]
  rintro rfl
  exact ht q hx

/-- A disposal of a thread, and what it leaves on the lists. -/
lemma Threads.terminate {st : State} {own : Ptr → List Ptr} {t : Ptr} (h : Threads st own)
    (ht : st.thread t ≠ none) :
    ∃ st', threadDispose st t = some st' ∧ Threads st' (forget own t) ∧ SameProcesses st st' := by
  by_cases hmem : ∃ p, t ∈ own p
  · obtain ⟨p, hp⟩ := hmem
    rw [h.forget_eq hp]
    exact h.dispose hp
  · simp only [not_exists] at hmem
    rw [forget_of_not_mem hmem]
    exact ⟨st, h.disposed hmem ht, h, rfl, rfl⟩

lemma Inv.terminateThread {s : System} (h : Inv s) {t : Ptr} (hp : Proper s (.terminateThread t)) :
    Inv (step s (.terminateThread t)) := by
  obtain ⟨st, hst, hprocesses, hthreads, howner⟩ := h
  obtain ⟨st', hdispose, hthreads', hsame⟩ := hthreads.terminate (hp st hst)
  simp only [step, hst, hdispose]
  refine ⟨st', rfl, hprocesses.congr hsame, hthreads', fun p hne => howner p fun hnil => hne ?_⟩
  simp [forget, hnil]

lemma Inv.deleteThread {s : System} (h : Inv s) {t : Ptr} (hp : Proper s (.deleteThread t)) :
    Inv (step s (.deleteThread t)) := by
  obtain ⟨st, hst, hprocesses, hthreads, howner⟩ := h
  obtain ⟨st', hdispose, hthreads', hsame⟩ := hthreads.terminate (hp st hst)
  simp only [step, hst, ProcessList.deleteThread, hdispose, Option.map_some]
  refine ⟨_, rfl, hprocesses.congr (hsame.trans ⟨rfl, rfl⟩), hthreads'.free fun p hmem => ?_,
    fun p hne => howner p fun hnil => hne ?_⟩
  · simp [forget] at hmem
  · simp [forget, hnil]

/-- A disposal of a process, and what it leaves on the lists. -/
lemma Processes.terminate {st : State} {own : Ptr → List Ptr} {ini : List (Ptr × UInt32)} {p : Ptr}
    (h : Processes st ini) (ht : Threads st own)
    (howner : ∀ q, own q ≠ [] → q ∈ ini.map Prod.fst) (hp : st.process p ≠ none) :
    ∃ st', dispose st p = some st' ∧ Processes st' (ini.filter (·.1 ≠ p)) ∧
      Threads st' (Function.update own p []) ∧
      ∀ q, Function.update own p [] q ≠ [] → q ∈ (ini.filter (·.1 ≠ p)).map Prod.fst := by
  have howner' : ∀ q, Function.update own p [] q ≠ [] → q ∈ (ini.filter (·.1 ≠ p)).map Prod.fst := by
    intro q hq
    have hqp : q ≠ p := by
      rintro rfl
      simp at hq
    rw [Function.update_of_ne hqp] at hq
    obtain ⟨e, he, rfl⟩ := List.mem_map.mp (howner q hq)
    exact List.mem_map_of_mem (List.mem_filter.mpr ⟨he, by simpa using hqp⟩)
  by_cases hmem : p ∈ ini.map Prod.fst
  · obtain ⟨st', hdispose, hprocesses, hthreads⟩ := h.remove ht hmem
    exact ⟨st', hdispose, hprocesses, hthreads, howner'⟩
  · have hnil : own p = [] := by
      by_contra hne
      exact hmem (howner p hne)
    have hsame : ini.filter (·.1 ≠ p) = ini := by
      rw [List.filter_eq_self]
      intro e he
      simp only [decide_eq_true_eq]
      rintro rfl
      exact hmem (List.mem_map_of_mem he)
    refine ⟨st, h.disposed hmem hp, ?_, ?_, howner'⟩
    · rwa [hsame]
    · rwa [← hnil, Function.update_eq_self]

lemma Inv.terminateProcess {s : System} (h : Inv s) {p : Ptr}
    (hp : Proper s (.terminateProcess p)) : Inv (step s (.terminateProcess p)) := by
  obtain ⟨st, hst, hprocesses, hthreads, howner⟩ := h
  obtain ⟨st', hdispose, hprocesses', hthreads', howner'⟩ :=
    hprocesses.terminate hthreads howner (hp st hst)
  simp only [step, hst, hdispose]
  exact ⟨st', rfl, hprocesses', hthreads', howner'⟩

lemma Inv.deleteProcess {s : System} (h : Inv s) {p : Ptr}
    (hp : Proper s (.deleteProcess p)) : Inv (step s (.deleteProcess p)) := by
  obtain ⟨st, hst, hprocesses, hthreads, howner⟩ := h
  obtain ⟨st', hdispose, hprocesses', hthreads', howner'⟩ :=
    hprocesses.terminate hthreads howner (hp st hst)
  simp only [step, hst, ProcessList.deleteProcess, hdispose, Option.map_some]
  exact ⟨_, rfl, hprocesses'.free (by simp), hthreads'.freeProcess (by simp), howner'⟩

/-- A call keeps the lists in order, or has no value, as its thread constructor does or does not
get what it asks for. -/
lemma Inv.next {s : System} {e : Event} (h : Inv s) (hp : Proper s e) :
    (StepOk s e → Inv (step s e)) ∧ (¬StepOk s e → (step s e).state = none) := by
  cases e with
  | createProcess this t pid env r => exact h.createProcess hp
  | createThread t ps r => exact h.createThread hp
  | terminateThread t => exact ⟨fun _ => h.terminateThread hp, fun hno => absurd trivial hno⟩
  | deleteThread t => exact ⟨fun _ => h.deleteThread hp, fun hno => absurd trivial hno⟩
  | terminateProcess p => exact ⟨fun _ => h.terminateProcess hp, fun hno => absurd trivial hno⟩
  | deleteProcess p => exact ⟨fun _ => h.deleteProcess hp, fun hno => absurd trivial hno⟩

lemma Inv.good_iff {s : System} {e : Event} (h : Inv s) (hp : Proper s e) :
    Good (step s e) ↔ StepOk s e := by
  refine ⟨fun hgood => ?_, fun hok => ((h.next hp).1 hok).good⟩
  by_contra hno
  obtain ⟨st, hst, -⟩ := hgood
  rw [(h.next hp).2 hno] at hst
  cases hst

/-- The service before the first process. -/
def initial : System where
  state := some ⟨fun _ => none, fun _ => none, none⟩
  initialised := []
  constructed _ := []

lemma inv_initial : Inv initial := by
  refine ⟨_, rfl, ⟨⟨⟨none, trivial⟩, rfl, List.nodup_nil, ?_⟩, ?_, ?_⟩,
    ⟨family_nil, ?_, ?_⟩, ?_⟩
  · simp [initial]
  · simp [initial]
  · simp [State.pbody]
  · simp [initial]
  · simp [State.tcore]
  · simp [initial]

/-- In every state of a run the lists are in order and no member was read without a value, exactly
if no thread constructor of the run gives up. -/
theorem lists_sound_iff {es : List Event} (h : Guarded step Proper initial es) :
    (∀ fs, fs <+: es → Good (run step initial fs)) ↔ Guarded step StepOk initial es :=
  h.forall_prefix_iff Inv Good (fun _ _ hinv hp hok => (hinv.next hp).1 hok)
    (fun _ _ hinv hp => hinv.good_iff hp) inv_initial inv_initial.good

/-- Replies to the thread constructor, with the id of the kernel's thread. -/
def threadReplies (tid : Int32) : ThreadReplies :=
  ⟨some 0xB0000000, ⟨some 0x100000, 0, 0⟩, tid⟩

/-- Replies to the process constructor, with the id of the space. -/
def replies (sid : UInt32) (tid : Int32) : ProcessReplies where
  sid := sid
  load := 1
  module := some 8
  remotePi := some 0xB0001000
  pi := ⟨some 0x101000, 0, 0⟩
  commandLine := ⟨some 0x102000, 0, 0⟩
  environment := ⟨some 0x103000, 0, 0⟩
  thread := threadReplies tid

/-- A process 16 with two threads and a process 17, whose thread is deleted; then 16 ends. -/
def twoProcesses : List Event :=
  [.createProcess 16 32 0 false (replies 5 9), .createThread 33 16 (threadReplies 10),
    .createProcess 17 34 5 true (replies 6 11), .terminateThread 32, .deleteThread 34,
    .terminateProcess 16]

theorem lists_sound_iff_twoProcesses :
    (∀ fs, fs <+: twoProcesses → Good (run step initial fs)) ↔
      Guarded step StepOk initial twoProcesses :=
  lists_sound_iff (by decide +kernel)

/-- The main thread of a process is not created by the kernel. -/
theorem not_lists_sound :
    ¬∀ es, Guarded step Proper initial es → ∀ fs, fs <+: es → Good (run step initial fs) := by
  intro h
  obtain ⟨st, hst, -⟩ := h [.createProcess 16 32 0 false (replies 5 (-1))] (by decide +kernel) _
    (List.prefix_refl _)
  have hnone : (run step initial
    [.createProcess 16 32 0 false (replies 5 (-1))]).state.isNone = true := by decide +kernel
  rw [hst] at hnone
  cases hnone

end Sgos.ProcessList
