import Sgos.XmlScan

/-!
# New nodes in a tree

A new node keeps a tree well-formed, at the front of a list or at its end. Put between two nodes it
cuts off the second one, which then knows its neighbour without being known to it, whatever follows.
-/
namespace Sgos.XmlScan
open ByteBuffer CString Bxml Xml Relation
open BxmlPath (nextOf preOf headOf served rooted)

variable {s s' : State} {x c : ℕ}

/-! ## The links of a new node -/

/-- A node `x` is new, with these links, and the others have those of `next`, `pre` and `head`. -/
structure Adds (s s' : State) (x : ℕ) (next pre : ℕ → Option ℕ) (up : Option ℕ)
    (head : ℕ → BXML_NODE_TYPE → Option ℕ) : Prop where
  new : s.node x = none
  live : ∀ a, s'.node a ≠ none ↔ a = x ∨ s.node a ≠ none
  xml : s'.xml = if s.xml.nodeRoot = none then { s.xml with nodeRoot := some x } else s.xml
  next : nextOf s' = next
  pre : preOf s' = pre
  up : ∀ a, upOf s' a = if a = x then up else upOf s a
  head : headOf s' = head

/-- The node has no links. -/
def AddsAlone (s s' : State) (x : ℕ) : Prop :=
  Adds s s' x (nextOf s) (preOf s) none (headOf s)

/-- The node is the first of the list of kind `t` of `c`. -/
def AddsFirst (s s' : State) (x c : ℕ) (t : BXML_NODE_TYPE) : Prop :=
  Adds s s' x (fun a => if a = x then headOf s c t else nextOf s a)
    (fun a => if headOf s c t = some a then some x else preOf s a) (some c)
    fun a t' => if a = c ∧ t' = t then some x else headOf s a t'

/-- The node is put behind `c`, and points at nothing. -/
def AddsNext (s s' : State) (x c : ℕ) : Prop :=
  Adds s s' x (fun a => if a = c then some x else nextOf s a)
    (fun a => if a = x then some c else if nextOf s c = some a then some x else preOf s a)
    (upOf s c) (headOf s)

/-! What a pointer to a node that is not there looks like. -/

lemma nextOf_none {a : ℕ} (h : s.node a = none) : nextOf s a = none := by
  rw [nextOf, h, Option.bind_none]

lemma preOf_none {a : ℕ} (h : s.node a = none) : preOf s a = none := by
  rw [preOf, h, Option.bind_none]

lemma upOf_none {a : ℕ} (h : s.node a = none) : upOf s a = none := by
  rw [upOf, h, Option.bind_none]

lemma headOf_none {a : ℕ} (h : s.node a = none) (t : BXML_NODE_TYPE) : headOf s a t = none := by
  rw [headOf, h, Option.bind_none]

namespace WellFormed

lemma next_ne (h : WellFormed s) (hx : s.node x = none) (a : ℕ) : nextOf s a ≠ some x := by
  intro ha
  have hpre := (h.siblings a x).mp ha
  rw [preOf_none hx] at hpre
  cases hpre

lemma pre_ne (h : WellFormed s) (hx : s.node x = none) (a : ℕ) : preOf s a ≠ some x := by
  intro ha
  have hnext := (h.siblings x a).mpr ha
  rw [nextOf_none hx] at hnext
  cases hnext

lemma head_ne (h : WellFormed s) (hx : s.node x = none) (p : ℕ) (t : BXML_NODE_TYPE) :
    headOf s p t ≠ some x := by
  intro hp
  have hup := (h.heads p t x hp).1
  rw [upOf_none hx] at hup
  cases hup

/-- The list of a node goes on as it was where its links are kept. -/
lemma reaches {b a : ℕ} (h : ReflTransGen (fun x y => nextOf s x = some y) b a)
    (hkeep : ∀ a d, nextOf s a = some d → nextOf s' a = some d) :
    ReflTransGen (fun x y => nextOf s' x = some y) b a := ReflTransGen.mono hkeep _ _ h

/-- Siblings have one parent. -/
lemma up_eq (h : WellFormed s) {b a : ℕ} (hreach : ReflTransGen (fun x y => nextOf s x = some y) b a) :
    upOf s a = upOf s b := by
  induction hreach with
  | refl => rfl
  | tail _ hstep ih => exact (h.parents _ _ hstep).trans ih

end WellFormed

lemma Adds.root {next pre : ℕ → Option ℕ} {up : Option ℕ}
    {head : ℕ → BXML_NODE_TYPE → Option ℕ} (ha : Adds s s' x next pre up head)
    (h : WellFormed s) (hpre : ∀ r, r ≠ x → preOf s r = none → upOf s r = none → pre r = none)
    (hx : s.xml.nodeRoot = none → pre x = none ∧ up = none) :
    ∀ r, s'.xml.nodeRoot = some r → s'.node r ≠ none ∧ preOf s' r = none ∧ upOf s' r = none := by
  intro r hr
  rw [ha.xml] at hr
  by_cases hroot : s.xml.nodeRoot = none
  · rw [if_pos hroot] at hr
    cases hr
    rw [ha.live, ha.pre, ha.up, if_pos rfl]
    exact ⟨.inl rfl, hx hroot⟩
  · rw [if_neg hroot] at hr
    obtain ⟨hlive, hp, hu⟩ := h.root r hr
    have hrx : r ≠ x := by
      rintro rfl
      exact hlive ha.new
    rw [ha.live, ha.pre, ha.up, if_neg hrx]
    exact ⟨.inr hlive, hpre r hrx hp hu, hu⟩

/-- A node without links does not disturb. -/
lemma WellFormed.addsAlone (h : WellFormed s) (ha : AddsAlone s s' x) : WellFormed s' where
  siblings a b := by rw [ha.next, ha.pre]; exact h.siblings a b
  parents a b hab := by
    rw [ha.next] at hab
    have hbx : b ≠ x := fun he => h.next_ne ha.new a (he ▸ hab)
    have hax : a ≠ x := by
      rintro rfl
      rw [nextOf_none ha.new] at hab
      cases hab
    rw [ha.up, ha.up, if_neg hbx, if_neg hax]
    exact h.parents a b hab
  heads p t b hb := by
    rw [ha.head] at hb
    have hbx : b ≠ x := fun he => h.head_ne ha.new p t (he ▸ hb)
    rw [ha.up, if_neg hbx, ha.pre]
    exact h.heads p t b hb
  apart p b := by rw [ha.head]; exact h.apart p b
  listed a n hn := by
    rcases (ha.live a).mp (by rw [hn]; exact Option.some_ne_none n) with rfl | hlive
    · have hup := ha.up a
      rw [if_pos rfl, upOf, hn, Option.bind_some] at hup
      refine ⟨a, by rw [ha.pre, preOf_none ha.new], .refl, fun p hp => ?_⟩
      rw [hup] at hp
      cases hp
    · obtain ⟨m, hm⟩ := Option.ne_none_iff_exists'.mp hlive
      have hax : a ≠ x := by
        rintro rfl
        exact hlive ha.new
      obtain ⟨b, hpre, hreach, hlist⟩ := h.listed a m hm
      have hup := ha.up a
      rw [if_neg hax, upOf, hn, Option.bind_some, upOf, hm, Option.bind_some] at hup
      exact ⟨b, by rw [ha.pre]; exact hpre, by rw [ha.next]; exact hreach,
        fun p hp => by rw [ha.head]; exact hlist p (hup ▸ hp)⟩
  older a p hp := by
    rw [ha.up] at hp
    split at hp
    · cases hp
    · exact h.older a p hp
  root := ha.root h (fun r _ hp _ => hp) fun _ => ⟨preOf_none ha.new, rfl⟩

/-- A new first child or attribute. -/
lemma WellFormed.addsFirst (h : WellFormed s) {t : BXML_NODE_TYPE} (ha : AddsFirst s s' x c t)
    (hc : s.node c ≠ none) (hlt : c < x) (hroot : s.xml.nodeRoot ≠ none) : WellFormed s' := by
  have hpre : ∀ b, preOf s' b = if headOf s c t = some b then some x else preOf s b :=
    fun b => congrFun ha.pre b
  have hnext : ∀ b, nextOf s' b = if b = x then headOf s c t else nextOf s b :=
    fun b => congrFun ha.next b
  have hhead : ∀ p t', headOf s' p t' = if p = c ∧ t' = t then some x else headOf s p t' :=
    fun p t' => congrFun (congrFun ha.head p) t'
  -- the old head has no neighbour in front
  have hold : ∀ b, headOf s c t = some b → preOf s b = none ∧ upOf s b = some c ∧ b ≠ x :=
    fun b hb => ⟨(h.heads c t b hb).2, (h.heads c t b hb).1, fun he => h.head_ne ha.new c t (he ▸ hb)⟩
  have hnextne : ∀ a b, nextOf s a = some b → a ≠ x ∧ b ≠ x ∧ headOf s c t ≠ some b := by
    intro a b hab
    refine ⟨?_, fun he => h.next_ne ha.new a (he ▸ hab), fun hb => ?_⟩
    · rintro rfl
      rw [nextOf_none ha.new] at hab
      cases hab
    · rw [h.siblings, (hold b hb).1] at hab
      cases hab
  have hkeep : ∀ a d, nextOf s a = some d → nextOf s' a = some d := by
    intro a d had
    rw [hnext, if_neg (hnextne a d had).1, had]
  refine ⟨fun a b => ?_, fun a b hab => ?_, fun p t' b hb => ?_, fun p b hattr hchild => ?_,
    fun a n hn => ?_, fun a p hp => ?_, ?_⟩
  · rw [hnext, hpre]
    by_cases hax : a = x
    · rw [if_pos hax, hax]
      by_cases hb : headOf s c t = some b
      · simp [hb]
      · simp only [hb, false_iff]
        exact h.pre_ne ha.new b
    · rw [if_neg hax]
      by_cases hb : headOf s c t = some b
      · rw [if_pos hb, Option.some.injEq]
        exact iff_of_false (fun hab => (hnextne a b hab).2.2 hb) (Ne.symm hax)
      · rw [if_neg hb]
        exact h.siblings a b
  · rw [hnext] at hab
    by_cases hax : a = x
    · rw [if_pos hax] at hab
      rw [ha.up, if_neg (hold b hab).2.2, ha.up, if_pos hax]
      exact (hold b hab).2.1
    · rw [if_neg hax] at hab
      rw [ha.up, if_neg (hnextne a b hab).2.1, ha.up, if_neg hax]
      exact h.parents a b hab
  · rw [hhead] at hb
    by_cases hc' : p = c ∧ t' = t
    · rw [if_pos hc', Option.some.injEq] at hb
      rw [← hb, ha.up, if_pos rfl, hpre, if_neg (h.head_ne ha.new c t), preOf_none ha.new, hc'.1]
      exact ⟨rfl, rfl⟩
    · rw [if_neg hc'] at hb
      have hbx : b ≠ x := fun he => h.head_ne ha.new p t' (he ▸ hb)
      have hne : headOf s c t ≠ some b := by
        intro hb'
        have hpc : p = c := Option.some.inj ((h.heads p t' b hb).1.symm.trans (hold b hb').2.1)
        subst hpc
        have htt : t' ≠ t := fun he => hc' ⟨rfl, he⟩
        cases t <;> cases t'
        · exact htt rfl
        · exact h.apart p b hb' hb
        · exact h.apart p b hb hb'
        · exact htt rfl
      rw [ha.up, if_neg hbx, hpre, if_neg hne]
      exact h.heads p t' b hb
  · rw [hhead] at hattr hchild
    by_cases hp : p = c
    · cases t
      · rw [if_pos ⟨hp, rfl⟩] at hattr
        rw [if_neg (by simp)] at hchild
        cases hattr
        exact h.head_ne ha.new p _ hchild
      · rw [if_neg (by simp)] at hattr
        rw [if_pos ⟨hp, rfl⟩] at hchild
        cases hchild
        exact h.head_ne ha.new p _ hattr
    · rw [if_neg fun hpc => hp hpc.1] at hattr hchild
      exact h.apart p b hattr hchild
  · rcases (ha.live a).mp (by rw [hn]; exact Option.some_ne_none n) with rfl | hlive
    · have hup := ha.up a
      rw [if_pos rfl, upOf, hn, Option.bind_some] at hup
      refine ⟨a, ?_, .refl, fun p hp => ⟨t, ?_⟩⟩
      · rw [hpre, if_neg (h.head_ne ha.new c t), preOf_none ha.new]
      · rw [hup, Option.some.injEq] at hp
        rw [hhead, if_pos ⟨hp.symm, rfl⟩]
    · obtain ⟨m, hm⟩ := Option.ne_none_iff_exists'.mp hlive
      have hax : a ≠ x := by
        rintro rfl
        exact hlive ha.new
      obtain ⟨b, hb, hreach, hlist⟩ := h.listed a m hm
      have hup := ha.up a
      rw [if_neg hax, upOf, hn, Option.bind_some, upOf, hm, Option.bind_some] at hup
      rw [hup]
      by_cases hbc : headOf s c t = some b
      · -- the list that the new node enters starts with it now
        have hparent : m.nodeParent = some c := by
          have hsame := h.up_eq hreach
          rwa [upOf, hm, Option.bind_some, (hold b hbc).2.1] at hsame
        refine ⟨x, ?_, .head (by rw [hnext, if_pos rfl, hbc]) (reaches hreach hkeep),
          fun p hp => ⟨t, ?_⟩⟩
        · rw [hpre, if_neg (h.head_ne ha.new c t), preOf_none ha.new]
        · rw [hparent, Option.some.injEq] at hp
          rw [hhead, if_pos ⟨hp.symm, rfl⟩]
      · refine ⟨b, by rw [hpre, if_neg hbc, hb], reaches hreach hkeep, fun p hp => ?_⟩
        obtain ⟨t', ht'⟩ := hlist p hp
        refine ⟨t', ?_⟩
        rw [hhead, if_neg, ht']
        rintro ⟨rfl, rfl⟩
        exact hbc ht'
  · rw [ha.up] at hp
    split at hp
    · cases hp
      omega
    · exact h.older a p hp
  · refine ha.root h (fun r hr hp hu => ?_) fun hnone => absurd hnone hroot
    rw [if_neg, hp]
    intro hr'
    rw [(hold r hr').2.1] at hu
    cases hu

/-- A new last sibling. -/
lemma WellFormed.addsNext (h : WellFormed s) (ha : AddsNext s s' x c) (hc : s.node c ≠ none)
    (hlast : nextOf s c = none) (hlt : c < x) (hroot : s.xml.nodeRoot ≠ none) : WellFormed s' := by
  have hpre : ∀ b, preOf s' b = if b = x then some c else preOf s b := by
    intro b
    rw [ha.pre, hlast]
    simp
  have hnext : ∀ b, nextOf s' b = if b = c then some x else nextOf s b :=
    fun b => congrFun ha.next b
  have hhead : ∀ p t, headOf s' p t = headOf s p t := fun p t => congrFun (congrFun ha.head p) t
  have hnextne : ∀ a b, nextOf s a = some b → a ≠ c ∧ b ≠ x := by
    refine fun a b hab => ⟨?_, fun he => h.next_ne ha.new a (he ▸ hab)⟩
    rintro rfl
    rw [hlast] at hab
    cases hab
  have hkeep : ∀ a d, nextOf s a = some d → nextOf s' a = some d := by
    intro a d had
    rw [hnext, if_neg (hnextne a d had).1, had]
  refine ⟨fun a b => ?_, fun a b hab => ?_, fun p t b hb => ?_, fun p b => ?_,
    fun a n hn => ?_, fun a p hp => ?_, ?_⟩
  · rw [hnext, hpre]
    by_cases hbx : b = x
    · rw [if_pos hbx, hbx]
      by_cases hac : a = c
      · simp [hac]
      · rw [if_neg hac, Option.some.injEq]
        exact iff_of_false (h.next_ne ha.new a) (Ne.symm hac)
    · rw [if_neg hbx]
      by_cases hac : a = c
      · rw [if_pos hac, Option.some.injEq, ← h.siblings, hac, hlast]
        exact iff_of_false (Ne.symm hbx) (by simp)
      · rw [if_neg hac]
        exact h.siblings a b
  · rw [hnext] at hab
    by_cases hac : a = c
    · rw [if_pos hac, Option.some.injEq] at hab
      rw [ha.up, if_pos hab.symm, ha.up, if_neg (by omega), hac]
    · rw [if_neg hac] at hab
      have hax : a ≠ x := by
        rintro rfl
        rw [nextOf_none ha.new] at hab
        cases hab
      rw [ha.up, if_neg (hnextne a b hab).2, ha.up, if_neg hax]
      exact h.parents a b hab
  · rw [hhead] at hb
    have hbx : b ≠ x := fun he => h.head_ne ha.new p t (he ▸ hb)
    rw [ha.up, if_neg hbx, hpre, if_neg hbx]
    exact h.heads p t b hb
  · rw [hhead, hhead]
    exact h.apart p b
  · -- the new node is in the list of the node in front of it
    have hstart : ∀ a m, s.node a = some m → ∃ b, preOf s' b = none ∧
        ReflTransGen (fun x y => nextOf s' x = some y) b a ∧
          ∀ p, m.nodeParent = some p → ∃ t, headOf s' p t = some b := by
      intro a m hm
      obtain ⟨b, hb, hreach, hlist⟩ := h.listed a m hm
      have hbx : b ≠ x := by
        rintro rfl
        rcases ReflTransGen.cases_head hreach with rfl | ⟨d, hd, -⟩
        · rw [ha.new] at hm
          cases hm
        · rw [nextOf_none ha.new] at hd
          cases hd
      exact ⟨b, by rw [hpre, if_neg hbx, hb], reaches hreach hkeep,
        fun p hp => by rw [ha.head]; exact hlist p hp⟩
    have hup := ha.up a
    rw [upOf, hn, Option.bind_some] at hup
    rw [hup]
    rcases (ha.live a).mp (by rw [hn]; exact Option.some_ne_none n) with rfl | hlive
    · obtain ⟨m, hm⟩ := Option.ne_none_iff_exists'.mp hc
      obtain ⟨b, hb, hreach, hlist⟩ := hstart c m hm
      rw [if_pos rfl, upOf, hm, Option.bind_some]
      exact ⟨b, hb, hreach.tail (by rw [hnext, if_pos rfl]), hlist⟩
    · obtain ⟨m, hm⟩ := Option.ne_none_iff_exists'.mp hlive
      have hax : a ≠ x := by
        rintro rfl
        exact hlive ha.new
      rw [if_neg hax, upOf, hm, Option.bind_some]
      exact hstart a m hm
  · rw [ha.up] at hp
    split at hp
    · have := h.older c p hp
      omega
    · exact h.older a p hp
  · refine ha.root h (fun r hr hp _ => ?_) fun hnone => absurd hnone hroot
    rw [if_neg hr, hlast]
    simpa using hp

/-! ## What the reader creates -/

lemma Allocated.new (h : Allocated s) : s.node s.requests = none := by
  by_contra hne
  obtain ⟨n, hn⟩ := Option.ne_none_iff_exists'.mp hne
  exact lt_irrefl _ (h _ n hn)

lemma Allocated.of_touch (h : Allocated s) (hreq : s'.requests = s.requests + 1)
    (hlive : ∀ a, s'.node a ≠ none → a = s.requests ∨ s.node a ≠ none) : Allocated s' := by
  intro a n hn
  rw [hreq]
  rcases hlive a (by rw [hn]; exact Option.some_ne_none n) with rfl | ha
  · omega
  · obtain ⟨m, hm⟩ := Option.ne_none_iff_exists'.mp ha
    have := h a m hm
    omega

lemma exists_createNode (s : State) (halloc : Allocated s) :
    ∃ s', createNode served s = (some s.requests, s') ∧ AddsAlone s s' s.requests ∧
      Allocated s' ∧ s'.node s.requests = some zeroNode ∧
      ∀ a, a ≠ s.requests → s'.node a = s.node a := by
  obtain ⟨s', hcreate, hxml, hreq, hnode⟩ := BxmlPath.createNode_served s
  have hnew := halloc.new
  have hlive : ∀ a, s'.node a ≠ none ↔ a = s.requests ∨ s.node a ≠ none := by
    intro a
    rw [hnode]
    split <;> simp_all
  refine ⟨s', hcreate, ⟨hnew, hlive, hxml, ?_, ?_, fun a => ?_, ?_⟩,
    halloc.of_touch hreq fun a => (hlive a).mp, by rw [hnode, if_pos rfl],
    fun a ha => by rw [hnode, if_neg ha]⟩
  · funext a
    rw [nextOf, nextOf, hnode]
    split
    · rename_i ha
      rw [ha, hnew]
      rfl
    · rfl
  · funext a
    rw [preOf, preOf, hnode]
    split
    · rename_i ha
      rw [ha, hnew]
      rfl
    · rfl
  · rw [upOf, upOf, hnode]
    split <;> rfl
  · funext a t
    rw [headOf, headOf, hnode]
    split
    · rename_i ha
      rw [ha, hnew]
      cases t <;> rfl
    · rfl

/-- The pointers that the reader follows name nodes. -/
structure Linked (s : State) : Prop where
  next : ∀ a b, nextOf s a = some b → s.node b ≠ none
  head : ∀ p t b, headOf s p t = some b → s.node b ≠ none

lemma WellFormed.linked (h : WellFormed s) : Linked s where
  next a _ hab hb := h.next_ne hb a hab
  head p t _ hp hb := h.head_ne hb p t hp

lemma exists_createFirst (h : Linked s) (halloc : Allocated s) (t : BXML_NODE_TYPE)
    {n : BXML_NODE} (hn : s.node c = some n) :
    ∃ s', createFirst served t s (some c) = some (some s.requests, s') ∧
      AddsFirst s s' s.requests c t ∧ Allocated s' ∧
      s'.node s.requests =
        some { zeroNode with nodeNext := n.head t, nodeParent := some c } ∧
      ∀ a, a ≠ s.requests →
        s'.node a = (s.node a).map (BxmlPath.pushed s.requests c t (n.head t) a) := by
  have hnew := halloc.new
  have hhead : headOf s c t = n.head t := by rw [headOf, hn, Option.bind_some]
  obtain ⟨s', hcreate, hxml, hreq, hx, hother⟩ := BxmlPath.createFirst_served hnew hn
    fun first hf => h.head c t first (hhead.trans hf)
  have hcx : c ≠ s.requests := by
    rintro rfl
    rw [hnew] at hn
    cases hn
  have hlive : ∀ a, s'.node a ≠ none ↔ a = s.requests ∨ s.node a ≠ none := by
    intro a
    by_cases ha : a = s.requests
    · simp [ha, hx]
    · simp [ha, hother a ha]
  refine ⟨s', hcreate, ⟨hnew, hlive, hxml, ?_, ?_, fun a => ?_, ?_⟩,
    halloc.of_touch hreq fun a => (hlive a).mp, hx, hother⟩
  · funext a
    by_cases ha : a = s.requests
    · rw [if_pos ha, ha, nextOf, hx, hhead]
      rfl
    · rw [if_neg ha, nextOf, hother a ha, nextOf]
      cases s.node a with
      | none => rfl
      | some m => exact BxmlPath.pushed_nodeNext ..
  · funext a
    by_cases ha : a = s.requests
    · rw [ha, if_neg fun hf => h.head c t _ hf hnew, preOf_none hnew, preOf, hx]
      rfl
    · rw [preOf, hother a ha, preOf, hhead]
      cases hm : s.node a with
      | none =>
        rw [if_neg]
        · rfl
        · exact fun hf => h.head c t a (hhead.trans hf) hm
      | some m => exact BxmlPath.pushed_nodePre ..
  · by_cases ha : a = s.requests
    · rw [if_pos ha, ha, upOf, hx]
      rfl
    · rw [if_neg ha, upOf, hother a ha, upOf]
      cases s.node a with
      | none => rfl
      | some m => exact congrArg Prod.fst (BxmlPath.pushed_label s.requests c t (n.head t) a m)
  · funext a t'
    by_cases ha : a = s.requests
    · rw [ha, if_neg fun hc => hcx hc.1.symm, headOf_none hnew, headOf, hx]
      cases t' <;> rfl
    · rw [headOf, hother a ha, headOf]
      cases hm : s.node a with
      | none =>
        rw [if_neg]
        · rfl
        · rintro ⟨rfl, -⟩
          rw [hm] at hn
          cases hn
      | some m => exact BxmlPath.pushed_head ..

lemma exists_createNextnode (h : Linked s) (halloc : Allocated s) {n : BXML_NODE}
    (hn : s.node c = some n) :
    ∃ s', createNextnode served s (some c) = some (some s.requests, s') ∧
      AddsNext s s' s.requests c ∧ Allocated s' ∧
      s'.node s.requests = some { zeroNode with nodePre := some c, nodeParent := n.nodeParent } ∧
      ∀ a, a ≠ s.requests →
        s'.node a = (s.node a).map (BxmlPath.appended s.requests c n.nodeNext a) := by
  have hnew := halloc.new
  have hnext : nextOf s c = n.nodeNext := by rw [nextOf, hn, Option.bind_some]
  obtain ⟨s', hcreate, hxml, hreq, hx, hother⟩ := BxmlPath.createNextnode_served hnew hn
    fun b hb => h.next c b (hnext.trans hb)
  have hcx : c ≠ s.requests := by
    rintro rfl
    rw [hnew] at hn
    cases hn
  have hlive : ∀ a, s'.node a ≠ none ↔ a = s.requests ∨ s.node a ≠ none := by
    intro a
    by_cases ha : a = s.requests
    · simp [ha, hx]
    · simp [ha, hother a ha]
  refine ⟨s', hcreate, ⟨hnew, hlive, hxml, ?_, ?_, fun a => ?_, ?_⟩,
    halloc.of_touch hreq fun a => (hlive a).mp, hx, hother⟩
  · funext a
    by_cases ha : a = s.requests
    · rw [ha, if_neg hcx.symm, nextOf_none hnew, nextOf, hx]
      rfl
    · rw [nextOf, hother a ha]
      by_cases hac : a = c
      · rw [if_pos hac, hac, hn]
        simp [BxmlPath.appended]
      · rw [if_neg hac, nextOf]
        cases s.node a with
        | none => rfl
        | some m =>
          simp only [Option.map_some, Option.bind_some, BxmlPath.appended, if_neg (Ne.symm hac)]
          split <;> rfl
  · funext a
    by_cases ha : a = s.requests
    · rw [if_pos ha, ha, preOf, hx]
      rfl
    · rw [if_neg ha, preOf, hother a ha, preOf, hnext]
      cases hm : s.node a with
      | none =>
        rw [if_neg]
        · rfl
        · exact fun hb => h.next c a (hnext.trans hb) hm
      | some m =>
        simp only [Option.map_some, Option.bind_some, BxmlPath.appended]
        split <;> split <;> rfl
  · by_cases ha : a = s.requests
    · rw [if_pos ha, ha, upOf, hx, upOf, hn]
      rfl
    · rw [if_neg ha, upOf, hother a ha, upOf]
      cases s.node a with
      | none => rfl
      | some m =>
        simp only [Option.map_some, Option.bind_some, BxmlPath.appended]
        split <;> split <;> rfl
  · funext a t
    by_cases ha : a = s.requests
    · rw [ha, headOf_none hnew, headOf, hx]
      cases t <;> rfl
    · rw [headOf, hother a ha, headOf]
      cases s.node a with
      | none => rfl
      | some m =>
        simp only [Option.map_some, Option.bind_some, BxmlPath.appended]
        cases t <;> split <;> split <;> rfl

end Sgos.XmlScan
