import Sgos.XmlScanTree
import Sgos.XmlRead

/-!
# The XML reader and the scan

As long as the scan finds nothing wrong the reader keeps a well-formed tree, with its node and what
is above it as the stack says. Where the scan fails the reader fails too, or it cuts off a node that
no tree is whole without.
-/
namespace Sgos.XmlScan
open ByteBuffer CString Bxml Xml Relation
open BxmlPath (nextOf preOf headOf served rooted)

variable {s s' : State} {ids : List ℕ} {cur : Option ℕ} {c x : ℕ}

/-! ## Names and values -/

/-- The links of all nodes are kept. -/
structure KeepsLinks (s s' : State) : Prop where
  xml : s'.xml = s.xml
  live : ∀ a, s'.node a ≠ none ↔ s.node a ≠ none
  next : nextOf s' = nextOf s
  pre : preOf s' = preOf s
  up : upOf s' = upOf s
  head : headOf s' = headOf s
  alloc : Allocated s → Allocated s'

lemma keepsLinks_of {f : BXML_NODE → BXML_NODE} (hxml : s'.xml = s.xml)
    (hreq : s.requests ≤ s'.requests)
    (hnode : ∀ a, s'.node a = if a = c then (s.node a).map f else s.node a)
    (hf : ∀ n, (f n).nodeNext = n.nodeNext ∧ (f n).nodePre = n.nodePre ∧
      (f n).nodeParent = n.nodeParent ∧ ∀ t, (f n).head t = n.head t) : KeepsLinks s s' := by
  have hbind : ∀ (g : BXML_NODE → Option ℕ), (∀ n, g (f n) = g n) →
      ∀ a, (s'.node a).bind g = (s.node a).bind g := by
    intro g hg a
    rw [hnode]
    split
    · cases s.node a with
      | none => rfl
      | some n => exact hg n
    · rfl
  have hlive : ∀ a, s'.node a ≠ none ↔ s.node a ≠ none := by
    intro a
    rw [hnode]
    split <;> simp
  refine ⟨hxml, hlive, ?_, ?_, ?_, ?_, fun halloc a n hn => ?_⟩
  · exact funext (hbind _ fun n => (hf n).1)
  · exact funext (hbind _ fun n => (hf n).2.1)
  · exact funext (hbind _ fun n => (hf n).2.2.1)
  · exact funext fun a => funext fun t => hbind (fun n => n.head t) (fun n => (hf n).2.2.2 t) a
  · obtain ⟨m, hm⟩ := Option.ne_none_iff_exists'.mp
      ((hlive a).mp (by rw [hn]; exact Option.some_ne_none n))
    exact (halloc a m hm).trans_le hreq

lemma WellFormed.keepsLinks (h : WellFormed s) (hk : KeepsLinks s s') : WellFormed s' where
  siblings a b := by rw [hk.next, hk.pre]; exact h.siblings a b
  parents a b := by rw [hk.next, hk.up]; exact h.parents a b
  heads p t b := by rw [hk.head, hk.up, hk.pre]; exact h.heads p t b
  apart p b := by rw [hk.head]; exact h.apart p b
  listed a n hn := by
    obtain ⟨m, hm⟩ := Option.ne_none_iff_exists'.mp
      ((hk.live a).mp (by rw [hn]; exact Option.some_ne_none n))
    have hup := congrFun hk.up a
    rw [upOf, hn, Option.bind_some, upOf, hm, Option.bind_some] at hup
    rw [hk.pre, hk.next, hk.head, hup]
    exact h.listed a m hm
  older a p := by rw [hk.up]; exact h.older a p
  root r := by rw [hk.xml, hk.live, hk.pre, hk.up]; exact h.root r

lemma copyString_state {malloc : ℕ → Bool} {size : UInt32} {bytes : List UInt8}
    {block : Option (List UInt8)} (h : copyString malloc s size bytes = some (block, s')) :
    s' = { s with requests := s.requests + 1 } := by
  rw [copyString, safeMalloc] at h
  cases hserved : malloc s.requests with
  | false =>
    rw [hserved] at h
    exact (Prod.mk.inj (Option.some.inj h)).2.symm
  | true =>
    rw [hserved] at h
    simp only [if_true, Option.bind_eq_bind] at h
    obtain ⟨_, -, h⟩ := Option.bind_eq_some_iff.mp h
    obtain ⟨_, -, h⟩ := Option.bind_eq_some_iff.mp h
    exact (Prod.mk.inj (Option.some.inj h)).2.symm

/-- A field of a node is written in front of a copy of a string, and one behind it. -/
lemma keepsLinks_copy {malloc : ℕ → Bool} {f : BXML_NODE → BXML_NODE}
    {g : Option (List UInt8) → BXML_NODE → BXML_NODE} {size : UInt32} {bytes : List UInt8}
    {s₁ s₂ : State} {block : Option (List UInt8)} (h₁ : s.modify c f = some s₁)
    (h₂ : copyString malloc s₁ size bytes = some (block, s₂))
    (h₃ : s₂.modify c (g block) = some s')
    (hf : ∀ n, (g block (f n)).nodeNext = n.nodeNext ∧ (g block (f n)).nodePre = n.nodePre ∧
      (g block (f n)).nodeParent = n.nodeParent ∧ ∀ t, (g block (f n)).head t = n.head t) :
    KeepsLinks s s' ∧ ∀ a, s'.node a =
      if a = c then (s.node a).map fun n => g block (f n) else s.node a := by
  obtain rfl := copyString_state h₂
  obtain ⟨n, hn, rfl⟩ := Option.map_eq_some_iff.mp h₁
  obtain ⟨m, hm, rfl⟩ := Option.map_eq_some_iff.mp h₃
  have hnode : ∀ a, ({ s.setNode c (f n) with
      requests := (s.setNode c (f n)).requests + 1 }.setNode c (g block m)).node a =
      if a = c then (s.node a).map fun n => g block (f n) else s.node a := by
    intro a
    have hmf : m = f n := by
      simp [State.setNode] at hm
      exact hm.symm
    by_cases ha : a = c
    · simp [State.setNode, ha, hn, hmf]
    · simp [State.setNode, ha]
  exact ⟨keepsLinks_of rfl (by simp [State.setNode]) hnode hf, hnode⟩

lemma setName_keeps {malloc : ℕ → Bool} {word : List UInt8}
    (h : setName malloc s cur word = some s') : KeepsLinks s s' := by
  rw [setName, Option.bind_eq_bind] at h
  obtain ⟨c, -, h⟩ := Option.bind_eq_some_iff.mp h
  obtain ⟨s₁, h₁, h⟩ := Option.bind_eq_some_iff.mp h
  obtain ⟨⟨block, s₂⟩, h₂, h₃⟩ := Option.bind_eq_some_iff.mp h
  refine (keepsLinks_copy (g := fun name n => { n with name := name }) h₁ h₂ h₃ fun n => ?_).1
  exact ⟨rfl, rfl, rfl, fun t => by cases t <;> rfl⟩

lemma setValue_keeps {malloc : ℕ → Bool} {word : List UInt8}
    (h : setValue malloc s cur word = some s') : KeepsLinks s s' := by
  rw [setValue, Option.bind_eq_bind] at h
  obtain ⟨c, -, h⟩ := Option.bind_eq_some_iff.mp h
  obtain ⟨s₁, h₁, h⟩ := Option.bind_eq_some_iff.mp h
  obtain ⟨⟨block, s₂⟩, h₂, h₃⟩ := Option.bind_eq_some_iff.mp h
  refine (keepsLinks_copy (g := fun value n => { n with value := value }) h₁ h₂ h₃ fun n => ?_).1
  exact ⟨rfl, rfl, rfl, fun t => by cases t <;> rfl⟩

/-! ## Cut off nodes -/

/-- The nodes above the first one, from parent to parent. -/
def Climbs (s : State) : List ℕ → Prop
  | [] => True
  | a :: ids => s.node a ≠ none ∧ upOf s a = ids.head? ∧ Climbs s ids

lemma Climbs.of_eq (h : Climbs s ids) (hlive : ∀ a, s.node a ≠ none → s'.node a ≠ none)
    (hup : ∀ a, s.node a ≠ none → upOf s' a = upOf s a) : Climbs s' ids := by
  induction ids with
  | nil => trivial
  | cons a ids ih => exact ⟨hlive a h.1, (hup a h.1).trans h.2.1, ih h.2.2⟩

/-- What is above a node is older. -/
lemma Climbs.lt (h : Climbs s (c :: ids)) (hs : WellFormed s) : ∀ a ∈ ids, a < c := by
  induction ids generalizing c with
  | nil => simp
  | cons p ids ih =>
    have hp := hs.older c p h.2.1
    exact List.forall_mem_cons.mpr ⟨hp, fun a ha => (ih h.2.2 a ha).trans hp⟩

/-- The node `e` knows a neighbour in front of it, and no node points at it. The reader is at a node
that is not `e` or below it. -/
structure CutOff (s : State) (e : ℕ) (ids : List ℕ) : Prop where
  linked : Linked s
  alloc : Allocated s
  climbs : Climbs s ids
  outside : e ∉ ids
  pre : preOf s e ≠ none
  next : ∀ a, nextOf s a ≠ some e
  head : ∀ a t, headOf s a t ≠ some e

lemma CutOff.live {e : ℕ} (h : CutOff s e ids) : s.node e ≠ none := fun he => h.pre (preOf_none he)

/-- A node has been cut off, and the reader is at `cur`. -/
def Cut (s : State) (cur : Option ℕ) : Prop := ∃ e ids, cur = ids.head? ∧ CutOff s e ids

lemma Cut.not_wellFormed (h : Cut s cur) : ¬WellFormed s := by
  obtain ⟨e, ids, -, h⟩ := h
  intro hs
  obtain ⟨g, hg⟩ := Option.ne_none_iff_exists'.mp h.pre
  exact h.next g ((hs.siblings g e).mpr hg)

lemma Adds.linked {next pre : ℕ → Option ℕ} {up : Option ℕ} {head : ℕ → BXML_NODE_TYPE → Option ℕ}
    (ha : Adds s s' x next pre up head)
    (hnext : ∀ a b, next a = some b → b = x ∨ s.node b ≠ none)
    (hhead : ∀ p t b, head p t = some b → b = x ∨ s.node b ≠ none) : Linked s' where
  next a b hab := (ha.live b).mpr (hnext a b (by rwa [← ha.next]))
  head p t b hb := (ha.live b).mpr (hhead p t b (by rwa [← ha.head]))

lemma Adds.climbs {next pre : ℕ → Option ℕ} {up : Option ℕ} {head : ℕ → BXML_NODE_TYPE → Option ℕ}
    (ha : Adds s s' x next pre up head) (h : Climbs s ids) : Climbs s' ids :=
  h.of_eq (fun a hlive => (ha.live a).mpr (.inr hlive)) fun a hlive => by
    rw [ha.up, if_neg]
    rintro rfl
    exact hlive ha.new

lemma Adds.climbs_new (ids : List ℕ) {next pre : ℕ → Option ℕ} {head : ℕ → BXML_NODE_TYPE → Option ℕ}
    (ha : Adds s s' x next pre ids.head? head) (h : Climbs s ids) : Climbs s' (x :: ids) :=
  ⟨(ha.live x).mpr (.inl rfl), by rw [ha.up, if_pos rfl], ha.climbs h⟩

lemma CutOff.ne {e : ℕ} (h : CutOff s e ids) (hx : s.node x = none) : e ≠ x := by
  rintro rfl
  exact h.live hx

lemma CutOff.addsAlone {e : ℕ} (h : CutOff s e []) (ha : AddsAlone s s' x)
    (halloc : Allocated s') : CutOff s' e [x] where
  linked := Adds.linked ha (fun a b hab => .inr (h.linked.next a b hab))
    fun p t b hb => .inr (h.linked.head p t b hb)
  alloc := halloc
  climbs := Adds.climbs_new [] ha trivial
  outside := by simp [h.ne ha.new]
  pre := by rw [ha.pre]; exact h.pre
  next := by rw [ha.next]; exact h.next
  head := by rw [ha.head]; exact h.head

lemma CutOff.addsFirst {e : ℕ} {t : BXML_NODE_TYPE} (h : CutOff s e (c :: ids))
    (ha : AddsFirst s s' x c t) (halloc : Allocated s') : CutOff s' e (x :: c :: ids) where
  linked := Adds.linked ha
    (fun a b hab => by
      split at hab
      · exact .inr (h.linked.head c t b hab)
      · exact .inr (h.linked.next a b hab))
    fun p t' b hb => by
      split at hb
      · exact .inl (Option.some.inj hb).symm
      · exact .inr (h.linked.head p t' b hb)
  alloc := halloc
  climbs := Adds.climbs_new (c :: ids) ha h.climbs
  outside := by
    rw [List.mem_cons, not_or]
    exact ⟨h.ne ha.new, h.outside⟩
  pre := by
    rw [ha.pre]
    dsimp only
    rw [if_neg (h.head c t)]
    exact h.pre
  next a := by
    rw [ha.next]
    dsimp only
    split
    · exact h.head c t
    · exact h.next a
  head a t' := by
    rw [ha.head]
    dsimp only
    split
    · simpa using (h.ne ha.new).symm
    · exact h.head a t'

lemma CutOff.addsNext {e : ℕ} (h : CutOff s e (c :: ids)) (ha : AddsNext s s' x c)
    (halloc : Allocated s') : CutOff s' e (x :: ids) where
  linked := Adds.linked ha
    (fun a b hab => by
      split at hab
      · exact .inl (Option.some.inj hab).symm
      · exact .inr (h.linked.next a b hab))
    fun p t b hb => .inr (h.linked.head p t b hb)
  alloc := halloc
  climbs := by
    have hup := h.climbs.2.1
    rw [AddsNext, hup] at ha
    exact Adds.climbs_new _ ha h.climbs.2.2
  outside := by
    rw [List.mem_cons, not_or]
    exact ⟨h.ne ha.new, fun he => h.outside (List.mem_cons_of_mem c he)⟩
  pre := by
    rw [ha.pre]
    dsimp only
    rw [if_neg (h.ne ha.new), if_neg (h.next c)]
    exact h.pre
  next a := by
    rw [ha.next]
    dsimp only
    split
    · simpa using (h.ne ha.new).symm
    · exact h.next a
  head := by rw [ha.head]; exact h.head

/-- A node is cut off when another one is put in front of it. -/
lemma WellFormed.cutOff {e : ℕ} (h : WellFormed s) (hclimbs : Climbs s (c :: ids))
    (he : nextOf s c = some e) (ha : AddsNext s s' x c) (halloc : Allocated s') :
    CutOff s' e (x :: ids) := by
  have hpre := (h.siblings c e).mp he
  have hlive := h.linked.next c e he
  have hex : e ≠ x := by
    rintro rfl
    exact hlive ha.new
  refine ⟨Adds.linked ha (fun a b hab => ?_) fun p t b hb => .inr (h.linked.head p t b hb),
    halloc, ?_, ?_, ?_, fun a => ?_, fun a t => ?_⟩
  · split at hab
    · exact .inl (Option.some.inj hab).symm
    · exact .inr (h.linked.next a b hab)
  · have hup := hclimbs.2.1
    rw [AddsNext, hup] at ha
    exact Adds.climbs_new _ ha hclimbs.2.2
  · rw [List.mem_cons, not_or]
    refine ⟨hex, fun hmem => ?_⟩
    -- a sibling is younger than the parent
    cases ids with
    | nil => simp at hmem
    | cons p ids =>
      have hup := (h.parents c e he).trans hclimbs.2.1
      have hlt := h.older e p hup
      rcases List.mem_cons.mp hmem with rfl | hmem
      · exact lt_irrefl _ hlt
      · have := hclimbs.2.2.lt h e hmem
        omega
  · rw [ha.pre]
    dsimp only
    rw [if_neg hex, if_pos he]
    exact Option.some_ne_none x
  · rw [ha.next]
    dsimp only
    split
    · simpa using hex.symm
    · rename_i hac
      intro hae
      rw [h.siblings, hpre, Option.some.injEq] at hae
      exact hac hae.symm
  · rw [ha.head]
    intro hae
    have := (h.heads a t e hae).2
    rw [hpre] at this
    cases this

lemma CutOff.keepsLinks {e : ℕ} (h : CutOff s e ids) (hk : KeepsLinks s s') : CutOff s' e ids where
  linked := ⟨fun a b hab => (hk.live b).mpr (h.linked.next a b (by rwa [← hk.next])),
    fun p t b hb => (hk.live b).mpr (h.linked.head p t b (by rwa [← hk.head]))⟩
  alloc := hk.alloc h.alloc
  climbs := h.climbs.of_eq (fun a => (hk.live a).mpr) fun a _ => by rw [hk.up]
  outside := h.outside
  pre := by rw [hk.pre]; exact h.pre
  next := by rw [hk.next]; exact h.next
  head := by rw [hk.head]; exact h.head

/-! ## The reader behind a cut -/

lemma Cut.createNextnode (h : Cut s cur) {r : Option ℕ}
    (hc : createNextnode served s cur = some (r, s')) : ∃ x, r = some x ∧ Cut s' (some x) := by
  obtain ⟨e, ids, rfl, h⟩ := h
  cases ids with
  | nil =>
    obtain ⟨s₁, hcreate, ha, halloc, -⟩ := exists_createNode s h.alloc
    rw [List.head?_nil, Xml.createNextnode, hcreate] at hc
    cases hc
    exact ⟨_, rfl, e, _, rfl, h.addsAlone ha halloc⟩
  | cons c ids =>
    obtain ⟨n, hn⟩ := Option.ne_none_iff_exists'.mp h.climbs.1
    obtain ⟨s₁, hcreate, ha, halloc, -⟩ := exists_createNextnode h.linked h.alloc hn
    rw [List.head?_cons, hcreate] at hc
    cases hc
    exact ⟨_, rfl, e, _, rfl, h.addsNext ha halloc⟩

lemma Cut.createFirst (h : Cut s cur) (t : BXML_NODE_TYPE) {r : Option ℕ}
    (hc : createFirst served t s cur = some (r, s')) : ∃ x, r = some x ∧ Cut s' (some x) := by
  obtain ⟨e, ids, rfl, h⟩ := h
  cases ids with
  | nil =>
    obtain ⟨s₁, hcreate, ha, halloc, -⟩ := exists_createNode s h.alloc
    rw [List.head?_nil, Bxml.createFirst, hcreate] at hc
    cases hc
    exact ⟨_, rfl, e, _, rfl, h.addsAlone ha halloc⟩
  | cons c ids =>
    obtain ⟨n, hn⟩ := Option.ne_none_iff_exists'.mp h.climbs.1
    obtain ⟨s₁, hcreate, ha, halloc, -⟩ := exists_createFirst h.linked h.alloc t hn
    rw [List.head?_cons, hcreate] at hc
    cases hc
    exact ⟨_, rfl, e, _, rfl, h.addsFirst ha halloc⟩

lemma Cut.keepsLinks (h : Cut s cur) (hk : KeepsLinks s s') : Cut s' cur := by
  obtain ⟨e, ids, rfl, h⟩ := h
  exact ⟨e, ids, rfl, h.keepsLinks hk⟩

lemma Cut.parentOf (h : Cut s cur) {parent : Option ℕ} (hp : parentOf s cur = some parent) :
    Cut s parent := by
  obtain ⟨e, ids, rfl, h⟩ := h
  cases ids with
  | nil => cases hp
  | cons c ids =>
    simp only [Xml.parentOf, List.head?_cons, Option.bind_eq_bind, Option.bind_some] at hp
    obtain ⟨n, hn, hp⟩ := Option.bind_eq_some_iff.mp hp
    have hup := h.climbs.2.1
    rw [upOf, hn, Option.bind_some] at hup
    refine ⟨e, ids, (Option.some.inj hp).symm.trans hup, { h with
      climbs := h.climbs.2.2
      outside := fun he => h.outside (List.mem_cons_of_mem c he) }⟩

/-- The reader goes on behind a cut. -/
def GoesOn (prog : Progress) : Prop := ∃ p', prog = .next p' ∧ Cut p'.xml p'.cur

lemma goesOn_next {p : Parser} (h : Cut p.xml p.cur) : GoesOn (.next p) := ⟨p, rfl, h⟩

lemma goesOn_create {f : State → Option ℕ → Option (Option ℕ × State)} {p : Parser}
    {prog : Progress} (h : create f p = some prog)
    (hf : ∀ r s', f p.xml p.cur = some (r, s') → ∃ x, r = some x ∧ Cut s' (some x)) :
    GoesOn prog := by
  rw [create, Option.bind_eq_bind] at h
  obtain ⟨⟨r, s'⟩, hr, h⟩ := Option.bind_eq_some_iff.mp h
  obtain ⟨x, rfl, hcut⟩ := hf r s' hr
  cases h
  exact ⟨_, rfl, hcut⟩

lemma goesOn_outsideTag {p : Parser} (h : Cut p.xml p.cur) {c : UInt8} {rest : List UInt8}
    {prog : Progress} (hr : readOutsideTag served p c rest = some prog) : GoesOn prog := by
  rw [readOutsideTag] at hr
  split at hr
  · rw [Option.bind_eq_bind] at hr
    obtain ⟨next, -, hr⟩ := Option.bind_eq_some_iff.mp hr
    split at hr
    · rw [Option.bind_eq_bind] at hr
      obtain ⟨p', hp', hr⟩ := Option.bind_eq_some_iff.mp hr
      obtain ⟨parent, hparent, rfl⟩ := Option.map_eq_some_iff.mp hp'
      cases hr
      exact goesOn_next (h.parentOf hparent)
    · split at hr
      · cases hr
        exact goesOn_next h
      · split at hr
        · cases hr
          exact goesOn_next h
        · rw [Option.bind_eq_bind] at hr
          obtain ⟨prog', hcreate, hr⟩ := Option.bind_eq_some_iff.mp hr
          obtain ⟨p', rfl, hcut⟩ := goesOn_create hcreate fun _ _ => h.createNextnode
          cases hr
          exact goesOn_next hcut
  · cases hr
    exact goesOn_next h

lemma goesOn_tagName {p : Parser} (h : Cut p.xml p.cur) {c : UInt8} {prog : Progress}
    (hr : readTagName served p c = some prog) : GoesOn prog := by
  rw [readTagName] at hr
  split at hr
  · dsimp only at hr
    split at hr
    · obtain ⟨xml, hxml, hr⟩ := Option.bind_eq_some_iff.mp hr
      cases hr
      exact goesOn_next (h.keepsLinks (setName_keeps hxml))
    · cases hr
      exact goesOn_next h
  · cases hr
    exact goesOn_next h

lemma goesOn_text {p : Parser} (h : Cut p.xml p.cur) {c : UInt8} {rest : List UInt8}
    {prog : Progress} (hr : readText served p c rest = some prog) : GoesOn prog := by
  rw [readText] at hr
  split at hr
  · rw [Option.bind_eq_bind] at hr
    obtain ⟨next, -, hr⟩ := Option.bind_eq_some_iff.mp hr
    split at hr
    · dsimp only at hr
      split at hr
      · obtain ⟨xml, hxml, hr⟩ := Option.bind_eq_some_iff.mp hr
        cases hr
        exact goesOn_next (h.keepsLinks (setValue_keeps hxml))
      · cases hr
        exact goesOn_next h
    · rw [Option.bind_eq_bind] at hr
      obtain ⟨prog', hcreate, hr⟩ := Option.bind_eq_some_iff.mp hr
      obtain ⟨p', rfl, hcut⟩ := goesOn_create hcreate fun _ _ => h.createFirst .node
      cases hr
      exact goesOn_next hcut
  · cases hr
    exact goesOn_next h

lemma goesOn_tagEnd {p : Parser} (h : Cut p.xml p.cur) {c : UInt8} {prog : Progress}
    (hr : readTagEnd p c = some prog) : GoesOn prog := by
  rw [readTagEnd] at hr
  split at hr
  · simp only [Option.bind_eq_bind] at hr
    obtain ⟨cur, -, hr⟩ := Option.bind_eq_some_iff.mp hr
    obtain ⟨n, -, hr⟩ := Option.bind_eq_some_iff.mp hr
    obtain ⟨found, -, hr⟩ := Option.bind_eq_some_iff.mp hr
    split at hr <;> cases hr <;> exact goesOn_next h
  · cases hr
    exact goesOn_next h

lemma goesOn_attributeName {p : Parser} (h : Cut p.xml p.cur) {c : UInt8} {prog : Progress}
    (hr : readAttributeName served p c = some prog) : GoesOn prog := by
  rw [readAttributeName] at hr
  split at hr
  · dsimp only at hr
    split at hr
    · rw [Option.bind_eq_bind] at hr
      obtain ⟨prog', hcreate, hr⟩ := Option.bind_eq_some_iff.mp hr
      obtain ⟨p', rfl, hcut⟩ := goesOn_create hcreate fun _ _ => h.createFirst .attribute
      dsimp only at hr
      rw [Option.bind_eq_bind] at hr
      obtain ⟨xml, hxml, hr⟩ := Option.bind_eq_some_iff.mp hr
      cases hr
      exact goesOn_next (hcut.keepsLinks (setName_keeps hxml))
    · cases hr
      exact goesOn_next h
  · split at hr <;> cases hr <;> exact goesOn_next h

lemma goesOn_attributeValue {p : Parser} (h : Cut p.xml p.cur) {c : UInt8} {prog : Progress}
    (hr : readAttributeValue served p c = some prog) : GoesOn prog := by
  rw [readAttributeValue] at hr
  split at hr
  · split at hr
    · dsimp only at hr
      split at hr
      · obtain ⟨xml, hxml, hr⟩ := Option.bind_eq_some_iff.mp hr
        obtain ⟨p', hp', hr⟩ := Option.bind_eq_some_iff.mp hr
        obtain ⟨parent, hparent, rfl⟩ := Option.map_eq_some_iff.mp hp'
        cases hr
        exact goesOn_next ((h.keepsLinks (setValue_keeps hxml)).parentOf hparent)
      · obtain ⟨xml, hxml, hr⟩ := Option.bind_eq_some_iff.mp hr
        cases hxml
        obtain ⟨p', hp', hr⟩ := Option.bind_eq_some_iff.mp hr
        obtain ⟨parent, hparent, rfl⟩ := Option.map_eq_some_iff.mp hp'
        cases hr
        exact goesOn_next (h.parentOf hparent)
    · cases hr
      exact goesOn_next h
  · cases hr
    exact goesOn_next h

lemma goesOn_char {p : Parser} (h : Cut p.xml p.cur) {c : UInt8} {rest : List UInt8}
    {prog : Progress} (hr : readChar served p c rest = some prog) : GoesOn prog := by
  rw [readChar] at hr
  split at hr
  · exact goesOn_outsideTag h hr
  · cases hr
    rw [apply_ite (fun p : Parser => p.skip c)]
    split <;> exact goesOn_next h
  · cases hr
    rw [apply_ite (fun p : Parser => p.skip c)]
    split <;> exact goesOn_next h
  · exact goesOn_tagName h hr
  · exact goesOn_text h hr
  · exact goesOn_tagEnd h hr
  · exact goesOn_attributeName h hr
  · exact goesOn_attributeValue h hr

/-- What was cut off stays so to the end. -/
lemma Cut.parse {p : Parser} (h : Cut p.xml p.cur) {mem : List UInt8}
    (hparse : parse served p mem = some s') : ¬WellFormed s' := by
  induction hlen : mem.length using Nat.strong_induction_on generalizing p mem with
  | _ len ih =>
    cases mem with
    | nil => cases hparse
    | cons c rest =>
      by_cases hc : c = 0
      · rw [parse.eq_def] at hparse
        simp only [if_pos hc] at hparse
        cases hparse
        exact h.not_wellFormed
      · by_cases hslash : p.state = .attributeName ∧ c = slash
        · obtain ⟨hstate, rfl⟩ := hslash
          cases rest with
          | nil =>
            rw [parse.eq_def] at hparse
            simp [hstate, hc] at hparse
          | cons c' rest =>
            rw [parse_shortEnd hstate] at hparse
            refine ih rest.length ?_ ?_ hparse rfl
            · simp only [List.length_cons] at hlen
              omega
            · rw [readShortEnd]
              split <;> exact h
        · rw [parse_char hc hslash] at hparse
          obtain ⟨prog, hprog, hparse⟩ := Option.bind_eq_some_iff.mp hparse
          obtain ⟨p', rfl, hcut⟩ := goesOn_char h hprog
          refine ih rest.length ?_ hcut hparse rfl
          simp only [List.length_cons] at hlen
          omega

/-! ## The stack -/

/-- What the scan knows of a node. -/
structure Shows (n : BXML_NODE) (tag : Tag) : Prop where
  nameLen : n.nameLen.toNat = tag.name.length
  name : n.name = some (tag.name ++ [0]) ∨ n.name = none ∧ tag.name = []
  next : tag.next = n.nodeNext.isSome
  head : ∀ t, tag.has t = (n.head t).isSome

/-- The nodes from the current one upwards are those on the stack. -/
def Tags (s : State) : List ℕ → List Tag → Prop
  | [], [] => True
  | a :: ids, tag :: stack =>
    (∃ n, s.node a = some n ∧ n.nodeParent = ids.head? ∧ Shows n tag) ∧ Tags s ids stack
  | _, _ => False

/-- The reader is at `cur`, in a tree, and the stack is that of the scan. -/
structure Mirrors (s : State) (cur : Option ℕ) (stack : List Tag) (ids : List ℕ) : Prop where
  cur : cur = ids.head?
  tags : Tags s ids stack
  tree : WellFormed s
  alloc : Allocated s
  root : ids ≠ [] → s.xml.nodeRoot ≠ none

variable {stack : List Tag} {tag : Tag}

lemma Tags.climbs (h : Tags s ids stack) : Climbs s ids := by
  induction ids generalizing stack with
  | nil => trivial
  | cons a ids ih =>
    cases stack with
    | nil => cases h
    | cons tag stack =>
      obtain ⟨⟨n, hn, hparent, -⟩, hrest⟩ := h
      refine ⟨by rw [hn]; exact Option.some_ne_none n, ?_, ih hrest⟩
      rw [upOf, hn, Option.bind_some, hparent]

/-- Only the pointers to the node in front do not matter. -/
lemma Tags.of_touch (h : Tags s ids stack) (hkeep : ∀ a ∈ ids, ∀ n, s.node a = some n →
    ∃ pre, s'.node a = some { n with nodePre := pre }) : Tags s' ids stack := by
  induction ids generalizing stack with
  | nil => cases stack <;> exact h
  | cons a ids ih =>
    cases stack with
    | nil => exact h
    | cons tag stack =>
      obtain ⟨⟨n, hn, hparent, hshows⟩, hrest⟩ := h
      obtain ⟨pre, hpre⟩ := hkeep a List.mem_cons_self n hn
      refine ⟨⟨_, hpre, hparent, hshows.nameLen, hshows.name, hshows.next, fun t => ?_⟩,
        ih hrest fun b hb => hkeep b (List.mem_cons_of_mem a hb)⟩
      rw [hshows.head]
      cases t <;> rfl

lemma shows_zero : Shows zeroNode ⟨[], false, false, false⟩ where
  nameLen := rfl
  name := .inr ⟨rfl, rfl⟩
  next := rfl
  head t := by cases t <;> rfl

lemma Mirrors.nil (h : Mirrors s cur [] ids) : ids = [] ∧ cur = none := by
  cases ids with
  | nil => exact ⟨rfl, h.cur⟩
  | cons a ids => exact absurd h.tags id

lemma Mirrors.cons (h : Mirrors s cur (tag :: stack) ids) : ∃ c rest n, ids = c :: rest ∧
    cur = some c ∧ s.node c = some n ∧ n.nodeParent = rest.head? ∧ Shows n tag ∧
      Tags s rest stack := by
  cases ids with
  | nil => exact absurd h.tags id
  | cons c rest =>
    obtain ⟨⟨n, hn, hparent, hshows⟩, hrest⟩ := h.tags
    exact ⟨c, rest, n, rfl, h.cur, hn, hparent, hshows, hrest⟩

/-- The first node of a document, or one without a place in it. -/
lemma Mirrors.createAlone (h : Mirrors s cur [] ids) :
    ∃ s', createNode served s = (some s.requests, s') ∧
      Mirrors s' (some s.requests) [⟨[], false, false, false⟩] [s.requests] := by
  obtain ⟨s', hcreate, ha, halloc, hx, -⟩ := exists_createNode s h.alloc
  refine ⟨s', hcreate, rfl, ⟨⟨zeroNode, hx, rfl, shows_zero⟩, trivial⟩, h.tree.addsAlone ha, halloc,
    fun _ => ?_⟩
  rw [ha.xml]
  split
  · exact Option.some_ne_none _
  · assumption

lemma Mirrors.createFirst (h : Mirrors s cur (tag :: stack) ids) (t : BXML_NODE_TYPE) :
    ∃ s', createFirst served t s cur = some (some s.requests, s') ∧
      Mirrors s' (some s.requests) (⟨[], tag.has t, false, false⟩ :: tag.give t :: stack)
        (s.requests :: ids) := by
  obtain ⟨c, rest, n, rfl, rfl, hn, hparent, hshows, hrest⟩ := h.cons
  obtain ⟨s', hcreate, ha, halloc, hx, hother⟩ := exists_createFirst h.tree.linked h.alloc t hn
  have hroot := h.root (List.cons_ne_nil c rest)
  have hlive := Tags.climbs h.tags
  have hlt : c < s.requests := h.alloc c n hn
  have hne : ∀ a, s.node a ≠ none → a ≠ s.requests := by
    rintro a hlivea rfl
    exact hlivea ha.new
  refine ⟨s', hcreate, rfl, ⟨⟨_, hx, rfl, ⟨rfl, .inr ⟨rfl, rfl⟩, hshows.head t, ?_⟩⟩,
    ⟨_, by rw [hother c hlt.ne, hn, Option.map_some], ?_, ?_⟩, ?_⟩,
    h.tree.addsFirst ha hlive.1 hlt hroot, halloc, fun _ => ?_⟩
  · intro t'
    cases t' <;> rfl
  · have hlabel := congrArg Prod.fst (BxmlPath.pushed_label s.requests c t (n.head t) c n)
    exact hlabel.trans hparent
  · refine ⟨?_, ?_, ?_, fun t' => ?_⟩
    · have hlen : (BxmlPath.pushed s.requests c t (n.head t) c n).nameLen = n.nameLen := by
        unfold BxmlPath.pushed
        cases t <;> simp only [BXML_NODE.setHead] <;> split <;> split <;> rfl
      rw [hlen, hshows.nameLen]
      cases t <;> rfl
    · have hname : (BxmlPath.pushed s.requests c t (n.head t) c n).name = n.name :=
        congrArg (fun l => l.2.1) (BxmlPath.pushed_label s.requests c t (n.head t) c n)
      rw [hname]
      cases t <;> exact hshows.name
    · rw [BxmlPath.pushed_nodeNext, ← hshows.next]
      cases t <;> rfl
    · rw [BxmlPath.pushed_head]
      have hhead := hshows.head t'
      cases t <;> cases t' <;> simp_all [Tag.give, Tag.has]
  · refine hrest.of_touch fun a hmem m hm => ?_
    have hac : a ≠ c := (hlive.lt h.tree a hmem).ne
    rw [hother a (hne a (by rw [hm]; exact Option.some_ne_none m)), hm, Option.map_some]
    unfold BxmlPath.pushed
    rw [if_neg hac]
    split
    · exact ⟨_, rfl⟩
    · exact ⟨m.nodePre, rfl⟩
  · rw [ha.xml, if_neg hroot]
    exact hroot

lemma Mirrors.createNextnode (h : Mirrors s cur (tag :: stack) ids) :
    ∃ s', createNextnode served s cur = some (some s.requests, s') ∧
      if tag.next then Cut s' (some s.requests)
      else Mirrors s' (some s.requests) (⟨[], false, false, false⟩ :: stack)
        (s.requests :: ids.tail) := by
  obtain ⟨c, rest, n, rfl, rfl, hn, hparent, hshows, hrest⟩ := h.cons
  obtain ⟨s', hcreate, ha, halloc, hx, hother⟩ := exists_createNextnode h.tree.linked h.alloc hn
  have hroot := h.root (List.cons_ne_nil c rest)
  have hclimbs := Tags.climbs h.tags
  have hlt : c < s.requests := h.alloc c n hn
  have hnext : nextOf s c = n.nodeNext := by rw [nextOf, hn, Option.bind_some]
  refine ⟨s', hcreate, ?_⟩
  split
  · rename_i htag
    rw [hshows.next] at htag
    obtain ⟨e, he⟩ := Option.isSome_iff_exists.mp htag
    exact ⟨e, _, rfl, h.tree.cutOff hclimbs (hnext.trans he) ha halloc⟩
  · rename_i htag
    rw [hshows.next, Option.not_isSome_iff_eq_none] at htag
    refine ⟨rfl, ⟨⟨_, hx, hparent, ⟨rfl, .inr ⟨rfl, rfl⟩, rfl, ?_⟩⟩, ?_⟩,
      h.tree.addsNext ha hclimbs.1 (hnext.trans htag) hlt hroot, halloc, fun _ => ?_⟩
    · intro t
      cases t <;> rfl
    · refine hrest.of_touch fun a hmem m hm => ?_
      have hac : a < c := hclimbs.lt h.tree a hmem
      rw [hother a (by omega), hm, Option.map_some, htag, BxmlPath.appended_last, if_neg hac.ne']
      exact ⟨m.nodePre, rfl⟩
    · rw [ha.xml, if_neg hroot]
      exact hroot

/-- A field of the innermost node is written in front of a copy of a word, and one behind it. -/
lemma Mirrors.copy (h : Mirrors s cur (tag :: stack) ids) (tag' : Tag) (f : BXML_NODE → BXML_NODE)
    (g : Option (List UInt8) → BXML_NODE → BXML_NODE) (size : UInt32) (word : List UInt8)
    (hsize : size.toNat = word.length + 1)
    (hf : ∀ n, (g (some (word ++ [0])) (f n)).nodeNext = n.nodeNext ∧
      (g (some (word ++ [0])) (f n)).nodePre = n.nodePre ∧
      (g (some (word ++ [0])) (f n)).nodeParent = n.nodeParent ∧
      ∀ t, (g (some (word ++ [0])) (f n)).head t = n.head t)
    (hshows : ∀ n, Shows n tag → Shows (g (some (word ++ [0])) (f n)) tag') :
    ∃ c s₁ s', cur = some c ∧ s.modify c f = some s₁ ∧ copyString served s₁ size word =
        some (some (word ++ [0]), { s₁ with requests := s₁.requests + 1 }) ∧
      { s₁ with requests := s₁.requests + 1 }.modify c (g (some (word ++ [0]))) = some s' ∧
      Mirrors s' cur (tag' :: stack) ids := by
  obtain ⟨c, rest, n, rfl, rfl, hn, hp, hs, hrest⟩ := h.cons
  obtain ⟨s₁, h₁, -, -, hnode₁⟩ := @BxmlPath.modify_spec s c (by simp [hn]) f
  have hcopy := BxmlPath.copyString_served s₁ word hsize
  obtain ⟨s', h₂, -⟩ := @BxmlPath.modify_spec { s₁ with requests := s₁.requests + 1 } c
    (by simp [hnode₁, hn]) (g (some (word ++ [0])))
  obtain ⟨hk, hnode⟩ := keepsLinks_copy h₁ hcopy h₂ hf
  refine ⟨c, s₁, s', rfl, h₁, hcopy, h₂, rfl, ⟨⟨_, by rw [hnode, if_pos rfl, hn, Option.map_some],
    (hf n).2.2.1.trans hp, hshows n hs⟩, hrest.of_touch fun a ha m hm => ⟨m.nodePre, ?_⟩⟩,
    h.tree.keepsLinks hk, hk.alloc h.alloc, fun _ => ?_⟩
  · rw [hnode, if_neg ((Tags.climbs h.tags).lt h.tree a ha).ne, hm]
  · rw [hk.xml]
    exact h.root (List.cons_ne_nil c rest)

lemma Mirrors.setName (h : Mirrors s cur (tag :: stack) ids) {word : List UInt8}
    (hlen : word.length < 256) : ∃ s', setName served s cur word = some s' ∧
      Mirrors s' cur ({ tag with name := word } :: stack) ids := by
  have hbyte : (UInt8.ofNat word.length).toNat = word.length := by
    rw [UInt8.toNat_ofNat']
    omega
  obtain ⟨c, s₁, s', rfl, h₁, hcopy, h₂, hm⟩ := h.copy { tag with name := word }
    (fun n => { n with nameLen := UInt8.ofNat word.length }) (fun name n => { n with name := name })
    (UInt32.ofNat (UInt8.ofNat word.length).toNat + 1) word (by
      rw [hbyte, UInt32.toNat_add, UInt32.toNat_ofNat', UInt32.toNat_one]
      omega) (fun n => ⟨rfl, rfl, rfl, fun t => by cases t <;> rfl⟩) fun n hn =>
    ⟨hbyte, .inl rfl, hn.next, fun t => by
      cases t
      · exact hn.head .attribute
      · exact hn.head .node⟩
  refine ⟨s', ?_, hm⟩
  simp only [Xml.setName, Option.bind_eq_bind, Option.bind_some, h₁, hcopy, h₂]

/-- A name that is too long is written behind its block. -/
lemma setName_long {word : List UInt8} (hlen : ¬word.length < 256) :
    setName served s cur word = none := by
  cases cur with
  | none => rfl
  | some c =>
    have hbyte := (UInt8.ofNat word.length).toNat_lt
    have hsize : (UInt32.ofNat (UInt8.ofNat word.length).toNat + 1).toNat < word.length := by
      rw [UInt32.toNat_add, UInt32.toNat_ofNat', UInt32.toNat_one]
      by_cases hword : word.length = 256
      · rw [hword]
        decide
      · omega
    have hcopy : ∀ s₁, copyString served s₁ (UInt32.ofNat (UInt8.ofNat word.length).toNat + 1)
        word = none := by
      intro s₁
      rw [copyString, safeMalloc]
      simp only [served, if_true, Option.bind_eq_bind]
      rw [write, if_neg, Option.bind_none]
      rw [List.length_replicate]
      omega
    simp only [setName, Option.bind_eq_bind, Option.bind_some]
    cases s.modify c fun n => { n with nameLen := UInt8.ofNat word.length } with
    | none => rfl
    | some s₁ => rw [Option.bind_some, hcopy, Option.bind_none]

lemma Mirrors.setValue (h : Mirrors s cur (tag :: stack) ids) {word : List UInt8}
    (hlen : word.length + 1 < 2 ^ 32) : ∃ s', setValue served s cur word = some s' ∧
      Mirrors s' cur (tag :: stack) ids := by
  obtain ⟨c, s₁, s', rfl, h₁, hcopy, h₂, hm⟩ := h.copy tag
    (fun n => { n with valueLen := UInt32.ofNat word.length })
    (fun value n => { n with value := value }) (UInt32.ofNat word.length + 1) word (by
      rw [UInt32.toNat_add, UInt32.toNat_ofNat', UInt32.toNat_one]
      omega) (fun n => ⟨rfl, rfl, rfl, fun t => by cases t <;> rfl⟩) fun n hn =>
    ⟨hn.nameLen, hn.name, hn.next, fun t => by cases t <;> exact hn.head _⟩
  refine ⟨s', ?_, hm⟩
  simp only [Xml.setValue, Option.bind_eq_bind, Option.bind_some, h₁, hcopy, h₂]

lemma Mirrors.parentOf (h : Mirrors s cur (tag :: stack) ids) :
    ∃ parent, parentOf s cur = some parent ∧ Mirrors s parent stack ids.tail := by
  obtain ⟨c, rest, n, rfl, rfl, hn, hp, hs, hrest⟩ := h.cons
  refine ⟨n.nodeParent, ?_, hp, hrest, h.tree, h.alloc, fun _ => h.root (List.cons_ne_nil c rest)⟩
  simp only [Xml.parentOf, Option.bind_eq_bind, Option.bind_some, hn]

/-- The comparison of an end tag. -/
lemma Shows.endsTag {n : BXML_NODE} (h : Shows n tag) (word : List UInt8) :
    endsTag n word = Scan.ends tag word := by
  cases word with
  | nil => rfl
  | cons c word =>
    rw [Xml.endsTag, Scan.ends, h.nameLen]
    rcases h.name with hname | ⟨hname, hnil⟩
    · rw [hname, Option.getD_some]
    · rw [hname, hnil, List.length_nil, Nat.zero_min]
      split
      · rw [strncmp, strncmp]
      · rfl

/-! ## One character -/

/-- The reader and the scan are at the same place, with the same word behind them. -/
structure Follows (p : Parser) (q : Scan) (ids : List ℕ) : Prop where
  state : p.state = q.state
  before : p.before = q.before
  word : p.word = q.word
  mirrors : Mirrors p.xml p.cur q.stack ids

/-- The reader goes where the scan goes, and where the scan fails it fails or cuts off a node. -/
def Steps (out : Option Progress) : Option Scan → Prop
  | some q => ∃ p ids, out = some (.next p) ∧ Follows p q ids
  | none => ∀ prog, out = some prog → GoesOn prog

section Characters
variable {state : PARSE_STATE} {before : UInt8} {word : List UInt8} {xml : State}

lemma steps_next {p : Parser} {q : Scan} (h : Follows p q ids) : Steps (some (.next p)) (some q) :=
  ⟨p, ids, rfl, h⟩

lemma steps_none : Steps none none := by
  intro prog h
  cases h

/-- What follows a step of the reader that the scan has as well. -/
lemma follows_of (h : Mirrors xml cur stack ids) :
    Follows ⟨state, cur, before, word, xml⟩ ⟨state, stack, before, word⟩ ids :=
  ⟨rfl, rfl, rfl, h⟩

lemma steps_outsideTag (h : Mirrors xml cur stack ids) (c : UInt8) (rest : List UInt8) :
    Steps (readOutsideTag served ⟨state, cur, before, word, xml⟩ c rest)
      (Scan.outsideTag ⟨state, stack, before, word⟩ c rest) := by
  rw [readOutsideTag, Scan.outsideTag]
  split
  · cases rest.head? with
    | none => exact steps_none
    | some next =>
      simp only [Option.bind_eq_bind, Option.bind_some]
      split
      · cases stack with
        | nil =>
          obtain ⟨-, rfl⟩ := h.nil
          exact steps_none
        | cons tag stack =>
          obtain ⟨parent, hparent, hm⟩ := h.parentOf
          simp only [Parser.moveUp, hparent, Option.map_some, Option.bind_some, Scan.moveUp]
          exact steps_next (follows_of hm)
      · split
        · exact steps_next (follows_of h)
        · split
          · exact steps_next (follows_of h)
          · cases stack with
            | nil =>
              obtain ⟨-, rfl⟩ := h.nil
              obtain ⟨s', hcreate, hm⟩ := h.createAlone
              simp only [create, createNextnode, hcreate, Option.bind_eq_bind, Option.bind_some,
                Scan.createNextnode]
              exact steps_next (follows_of hm)
            | cons tag stack =>
              obtain ⟨s', hcreate, hm⟩ := h.createNextnode
              simp only [create, hcreate, Option.bind_eq_bind, Option.bind_some,
                Scan.createNextnode]
              split at hm
              · rename_i htag
                rw [if_pos htag]
                rintro prog ⟨⟩
                exact goesOn_next hm
              · rename_i htag
                rw [if_neg htag]
                exact steps_next (follows_of hm)
  · exact steps_next (follows_of h)

lemma steps_header (h : Mirrors xml cur stack ids) (c : UInt8) :
    Steps (readHeader ⟨state, cur, before, word, xml⟩ c)
      (some (Scan.header ⟨state, stack, before, word⟩ c)) := by
  rw [readHeader, Scan.header]
  split <;> exact steps_next (follows_of h)

lemma steps_tagName (h : Mirrors xml cur stack ids) (c : UInt8) :
    Steps (readTagName served ⟨state, cur, before, word, xml⟩ c)
      (Scan.tagName ⟨state, stack, before, word⟩ c) := by
  rw [readTagName, Scan.tagName]
  split
  · dsimp only
    split
    · cases stack with
      | nil =>
        obtain ⟨-, rfl⟩ := h.nil
        exact steps_none
      | cons tag stack =>
        by_cases hlen : word.length < 256
        · obtain ⟨s', hset, hm⟩ := h.setName hlen
          simp only [Scan.setName, if_pos hlen, hset, Option.bind_eq_bind, Option.bind_some]
          exact steps_next (follows_of hm)
        · simp only [Scan.setName, if_neg hlen, setName_long hlen, Option.bind_eq_bind,
            Option.bind_none]
          exact steps_none
    · exact steps_next (follows_of h)
  · exact steps_next (follows_of h)

lemma steps_text (h : Mirrors xml cur stack ids) (hword : word.length + 1 < 2 ^ 32) (c : UInt8)
    (rest : List UInt8) : Steps (readText served ⟨state, cur, before, word, xml⟩ c rest)
      (Scan.text ⟨state, stack, before, word⟩ c rest) := by
  rw [readText, Scan.text]
  split
  · cases rest.head? with
    | none => exact steps_none
    | some next =>
      simp only [Option.bind_eq_bind, Option.bind_some]
      split
      · split
        · cases stack with
          | nil =>
            obtain ⟨-, rfl⟩ := h.nil
            exact steps_none
          | cons tag stack =>
            obtain ⟨s', hset, hm⟩ := h.setValue hword
            simp only [Scan.setValue, hset, Option.bind_some]
            exact steps_next (follows_of hm)
        · exact steps_next (follows_of h)
      · cases stack with
        | nil =>
          obtain ⟨-, rfl⟩ := h.nil
          obtain ⟨s', hcreate, hm⟩ := h.createAlone
          simp only [create, createChildnode, createFirst, hcreate, Option.bind_eq_bind,
            Option.bind_some, Scan.createFirst]
          exact steps_next (follows_of hm)
        | cons tag stack =>
          obtain ⟨s', hcreate, hm⟩ := h.createFirst .node
          simp only [create, createChildnode, hcreate, Option.bind_eq_bind, Option.bind_some,
            Scan.createFirst]
          exact steps_next (follows_of hm)
  · exact steps_next (follows_of h)

lemma steps_tagEnd (h : Mirrors xml cur stack ids) (c : UInt8) :
    Steps (readTagEnd ⟨state, cur, before, word, xml⟩ c)
      (Scan.tagEnd ⟨state, stack, before, word⟩ c) := by
  rw [readTagEnd, Scan.tagEnd]
  split
  · cases stack with
    | nil =>
      obtain ⟨-, rfl⟩ := h.nil
      exact steps_none
    | cons tag stack =>
      obtain ⟨a, rest, n, rfl, rfl, hn, -, hshows, -⟩ := h.cons
      simp only [Option.bind_eq_bind, Option.bind_some, hn, hshows.endsTag]
      cases Scan.ends tag word with
      | none => exact steps_none
      | some found =>
        simp only [Option.bind_some]
        split <;> exact steps_next (follows_of h)
  · exact steps_next (follows_of h)

lemma steps_attributeName (h : Mirrors xml cur stack ids) (c : UInt8) :
    Steps (readAttributeName served ⟨state, cur, before, word, xml⟩ c)
      (Scan.attributeName ⟨state, stack, before, word⟩ c) := by
  rw [readAttributeName, Scan.attributeName]
  split
  · dsimp only
    split
    · obtain ⟨s', x, tag', stack', ids', hcreate, hscan, hm⟩ : ∃ s' x tag' stack' ids',
          createFirst served .attribute xml cur = some (some x, s') ∧
          Scan.createFirst ⟨state, stack, before, word⟩ .attribute =
            ⟨state, tag' :: stack', before, word⟩ ∧
          Mirrors s' (some x) (tag' :: stack') ids' := by
        cases stack with
        | nil =>
          obtain ⟨-, rfl⟩ := h.nil
          obtain ⟨s', hcreate, hm⟩ := h.createAlone
          exact ⟨s', _, _, _, _, by simp only [createFirst, hcreate], rfl, hm⟩
        | cons tag stack =>
          obtain ⟨s', hcreate, hm⟩ := h.createFirst .attribute
          exact ⟨s', _, _, _, _, hcreate, rfl, hm⟩
      rw [hscan]
      simp only [create, createAttrnode, hcreate, Option.bind_eq_bind, Option.bind_some,
        Scan.setName]
      by_cases hlen : word.length < 256
      · obtain ⟨s₂, hset, hm₂⟩ := hm.setName hlen
        simp only [if_pos hlen, hset, Option.bind_some]
        exact steps_next (follows_of hm₂)
      · simp only [if_neg hlen, setName_long hlen, Option.bind_none]
        exact steps_none
    · exact steps_next (follows_of h)
  · split <;> exact steps_next (follows_of h)

lemma steps_attributeValue (h : Mirrors xml cur stack ids) (hword : word.length + 1 < 2 ^ 32)
    (c : UInt8) : Steps (readAttributeValue served ⟨state, cur, before, word, xml⟩ c)
      (Scan.attributeValue ⟨state, stack, before, word⟩ c) := by
  rw [readAttributeValue, Scan.attributeValue]
  split
  · dsimp only
    split
    · cases stack with
      | nil =>
        obtain ⟨-, rfl⟩ := h.nil
        split <;> exact steps_none
      | cons tag stack =>
        split
        · obtain ⟨s', hset, hm⟩ := h.setValue hword
          obtain ⟨parent, hparent, hm'⟩ := hm.parentOf
          simp only [Scan.setValue, hset, Option.bind_eq_bind, Option.bind_some, Parser.moveUp,
            hparent, Option.map_some, Scan.moveUp]
          exact steps_next (follows_of hm')
        · obtain ⟨parent, hparent, hm⟩ := h.parentOf
          simp only [Option.bind_eq_bind, Option.bind_some, Parser.moveUp, hparent,
            Option.map_some, Scan.moveUp]
          exact steps_next (follows_of hm)
    · exact steps_next (follows_of h)
  · exact steps_next (follows_of h)

end Characters

lemma steps_char {p : Parser} {q : Scan} (h : Follows p q ids) (hword : p.word.length + 1 < 2 ^ 32)
    (c : UInt8) (rest : List UInt8) : Steps (readChar served p c rest) (q.char c rest) := by
  obtain ⟨state, cur, before, word, xml⟩ := p
  obtain ⟨state', stack, before', word'⟩ := q
  obtain ⟨hstate, hbefore, hw, hm⟩ := h
  dsimp only at hstate hbefore hw hm hword
  subst hstate hbefore hw
  cases state with
  | outsideTag => exact steps_outsideTag hm c rest
  | header => exact steps_header hm c
  | comment => exact steps_header hm c
  | tagName => exact steps_tagName hm c
  | text => exact steps_text hm hword c rest
  | tagEnd => exact steps_tagEnd hm c
  | attributeName => exact steps_attributeName hm c
  | attributeValue => exact steps_attributeValue hm hword c

/-! ## Texts -/

/-- A character is put behind the word, or the word begins behind it. -/
lemma char_word {q q' : Scan} {c : UInt8} {rest : List UInt8} (h : q.char c rest = some q') :
    q'.word.length ≤ q.word.length + 1 := by
  have hmark : ∀ q₁ : Scan, q' = q₁.mark c → q'.word.length ≤ q.word.length + 1 := by
    rintro q₁ rfl
    exact Nat.zero_le _
  have hskip : ∀ q₁ : Scan, q₁.word = q.word → q' = q₁.skip c →
      q'.word.length ≤ q.word.length + 1 := by
    rintro q₁ hq rfl
    rw [Scan.skip, hq, List.length_append, List.length_singleton]
  rw [Scan.char] at h
  split at h
  · rw [Scan.outsideTag] at h
    split at h
    · simp only [Option.bind_eq_bind] at h
      obtain ⟨next, -, h⟩ := Option.bind_eq_some_iff.mp h
      split at h
      · obtain ⟨q₁, -, h⟩ := Option.bind_eq_some_iff.mp h
        exact hmark _ (Option.some.inj h).symm
      · split at h
        · exact hmark _ (Option.some.inj h).symm
        · split at h
          · exact hmark _ (Option.some.inj h).symm
          · obtain ⟨q₁, -, h⟩ := Option.bind_eq_some_iff.mp h
            exact hmark _ (Option.some.inj h).symm
    · exact hskip q rfl (Option.some.inj h).symm
  · rw [Scan.header] at h
    split at h <;> exact hskip _ (by rfl) (Option.some.inj h).symm
  · rw [Scan.header] at h
    split at h <;> exact hskip _ (by rfl) (Option.some.inj h).symm
  · rw [Scan.tagName] at h
    split at h
    · dsimp only at h
      split at h
      all_goals
        obtain ⟨q₁, -, h⟩ := Option.bind_eq_some_iff.mp h
        exact hmark _ (Option.some.inj h).symm
    · exact hskip q rfl (Option.some.inj h).symm
  · rw [Scan.text] at h
    split at h
    · simp only [Option.bind_eq_bind] at h
      obtain ⟨next, -, h⟩ := Option.bind_eq_some_iff.mp h
      split at h
      · split at h
        all_goals
          obtain ⟨q₁, -, h⟩ := Option.bind_eq_some_iff.mp h
          exact hmark _ (Option.some.inj h).symm
      · exact hmark _ (Option.some.inj h).symm
    · exact hskip q rfl (Option.some.inj h).symm
  · rw [Scan.tagEnd] at h
    split at h
    · split at h
      · cases h
      · rw [Option.bind_eq_bind] at h
        obtain ⟨found, -, h⟩ := Option.bind_eq_some_iff.mp h
        split at h <;> exact hskip _ (by rfl) (Option.some.inj h).symm
    · exact hskip q rfl (Option.some.inj h).symm
  · rw [Scan.attributeName] at h
    split at h
    · dsimp only at h
      split at h
      all_goals
        obtain ⟨q₁, -, h⟩ := Option.bind_eq_some_iff.mp h
        exact hmark _ (Option.some.inj h).symm
    · split at h
      · exact hmark _ (Option.some.inj h).symm
      · exact hskip q rfl (Option.some.inj h).symm
  · rw [Scan.attributeValue] at h
    split at h
    · split at h
      · dsimp only at h
        split at h
        all_goals
          obtain ⟨q₁, -, h⟩ := Option.bind_eq_some_iff.mp h
          obtain ⟨q₂, -, h⟩ := Option.bind_eq_some_iff.mp h
          exact hmark _ (Option.some.inj h).symm
      · exact hmark _ (Option.some.inj h).symm
    · exact hskip q rfl (Option.some.inj h).symm

lemma shortEnd_word (p : Parser) (c c' : UInt8) :
    (readShortEnd p c c').word = p.word ++ [c] ++ [c'] := by
  rw [readShortEnd]
  split <;> rfl

lemma Follows.shortEnd {p : Parser} {q : Scan} (h : Follows p q ids) (c c' : UInt8) :
    Follows (readShortEnd p c c') (q.shortEnd c c') ids := by
  obtain ⟨hstate, hbefore, hword, hm⟩ := h
  rw [readShortEnd, Scan.shortEnd]
  split
  · exact ⟨rfl, hbefore, by simp only [Parser.skip, Scan.skip, hword], hm⟩
  · exact ⟨hstate, hbefore, by simp only [Parser.skip, Scan.skip, hword], hm⟩

/-- From any place on, the reader gets to the end with a tree exactly if the scan does. -/
lemma parse_iff {p : Parser} {q : Scan} {text : List UInt8} (h : Follows p q ids)
    (htext : (0 : UInt8) ∉ text) (hlen : p.word.length + text.length + 1 < 2 ^ 32) :
    (∃ s', parse served p (text ++ [0]) = some s' ∧ WellFormed s') ↔
      scans q (text ++ [0]) = true := by
  induction hn : text.length using Nat.strong_induction_on generalizing p q ids text with
  | _ n ih =>
    cases text with
    | nil =>
      rw [List.nil_append, parse.eq_def, scans.eq_def]
      simp only [if_true, iff_true]
      exact ⟨_, rfl, h.mirrors.tree⟩
    | cons c text =>
      rw [List.mem_cons, not_or] at htext
      have hc : c ≠ 0 := Ne.symm htext.1
      simp only [List.length_cons] at hlen hn
      rw [List.cons_append]
      by_cases hslash : p.state = .attributeName ∧ c = slash
      · obtain ⟨hstate, rfl⟩ := hslash
        have hstate' : q.state = .attributeName := h.state ▸ hstate
        cases text with
        | nil =>
          rw [List.nil_append, parse_shortEnd hstate, parse.eq_def, scans.eq_def]
          simp [hc, hstate', scans]
        | cons c' text =>
          rw [List.cons_append, parse_shortEnd hstate, scans.eq_def]
          simp only [if_neg hc, hstate', and_self, if_true]
          rw [List.mem_cons, not_or] at htext
          simp only [List.length_cons] at hlen hn
          refine ih text.length (by omega) (h.shortEnd slash c') htext.2.2 ?_ rfl
          rw [shortEnd_word]
          simp only [List.length_append, List.length_singleton]
          omega
      · have hslash' : ¬(q.state = .attributeName ∧ c = slash) := h.state ▸ hslash
        have hsteps := steps_char h (by omega) c (text ++ [0])
        rw [parse_char hc hslash, scans.eq_def]
        simp only [if_neg hc, if_neg hslash']
        cases hchar : q.char c (text ++ [0]) with
        | none =>
          rw [hchar] at hsteps
          simp only [Bool.false_eq_true, iff_false]
          rintro ⟨s', hparse, htree⟩
          obtain ⟨prog, hprog, hparse⟩ := Option.bind_eq_some_iff.mp hparse
          obtain ⟨p', rfl, hcut⟩ := hsteps prog hprog
          exact hcut.parse hparse htree
        | some q' =>
          rw [hchar] at hsteps
          obtain ⟨p', ids', hread, hfollows⟩ := hsteps
          rw [hread, Option.bind_some, proceed]
          refine ih text.length (by omega) hfollows htext.2 ?_ rfl
          have hword := char_word hchar
          rw [hfollows.word]
          rw [h.word] at hlen
          omega

/-- The reader gets through a text and leaves a tree exactly if the scan finds nothing wrong. -/
theorem readsWell_iff {s : State} (h : WellFormed s) (halloc : Allocated s) {text : List UInt8}
    (htext : (0 : UInt8) ∉ text) (hlen : text.length + 1 < 2 ^ 32) :
    ReadsWell s text ↔ Balanced text := by
  rw [ReadsWell, Balanced, parseXmlNode]
  refine @parse_iff [] _ _ text ⟨rfl, rfl, rfl, rfl, trivial, h, halloc, ?_⟩ htext ?_
  · simp
  · simpa using hlen

/-- A heap without nodes, and no document. -/
def noNodes : State := ⟨⟨none, none, 0, 0, 0⟩, fun _ => none, 0⟩

lemma noNodes_wellFormed : WellFormed noNodes where
  siblings a b := by simp [nextOf, preOf, noNodes]
  parents a b h := by simp [nextOf, noNodes] at h
  heads p t b h := by simp [headOf, noNodes] at h
  apart p b h := by simp [headOf, noNodes] at h
  listed a n h := by simp [noNodes] at h
  older a p h := by simp [upOf, noNodes] at h
  root r h := by simp [noNodes] at h

lemma noNodes_allocated : Allocated noNodes := by
  intro a n h
  simp [noNodes] at h

/-- `<a></a>` -/
theorem readsWell_iff_element : ReadsWell noNodes [60, 97, 62, 60, 47, 97, 62] ↔
    Balanced [60, 97, 62, 60, 47, 97, 62] :=
  readsWell_iff noNodes_wellFormed noNodes_allocated (by decide) (by decide)

/-- At an end tag in front of all others the null pointer is read. -/
theorem not_readsWell : ¬∀ (s : State) (text : List UInt8), WellFormed s → Allocated s →
    (0 : UInt8) ∉ text → text.length + 1 < 2 ^ 32 → ReadsWell s text := by
  intro h
  obtain ⟨s', hparse, -⟩ := h noNodes [60, 47, 97, 62] noNodes_wellFormed noNodes_allocated
    (by decide) (by decide)
  have hnone : parseXmlNode served noNodes ([60, 47, 97, 62] ++ [0]) = none := rfl
  rw [hnone] at hparse
  cases hparse

end Sgos.XmlScan
