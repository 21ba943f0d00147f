import Sgos.BxmlPath
import Sgos.ChainFamily
import Mathlib.Logic.Relation

/-!
# The lists of a BXML document

The siblings of the root, and for each node its attributes and its children, are doubly linked
lists without a common node. A new node enters one of them, and what was reachable stays so.
-/
namespace Sgos.BxmlPath
open ByteBuffer CString Bxml Xml LinkedChain Relation

/-! ## Links -/

def nextOf (s : State) (a : ℕ) : Option ℕ := (s.node a).bind BXML_NODE.nodeNext
def preOf (s : State) (a : ℕ) : Option ℕ := (s.node a).bind BXML_NODE.nodePre
def headOf (s : State) (a : ℕ) (t : BXML_NODE_TYPE) : Option ℕ := (s.node a).bind fun n => n.head t

/-- The parent, the name and the value of a node, which insertions leave alone. -/
def labelOf (s : State) (a : ℕ) :
    Option (Option ℕ × Option (List UInt8) × UInt32 × Option (List UInt8)) :=
  (s.node a).map fun n => (n.nodeParent, n.name, n.valueLen, n.value)

/-- A list of a document: the siblings of the root, or the attributes or children of a node. -/
abbrev ListId := Option (ℕ × BXML_NODE_TYPE)

/-- Where the lists start, and their nodes. -/
structure Shape where
  head : ListId → Option ℕ
  nodes : ListId → List ℕ

namespace Shape

def Live (F : Shape) (a : ℕ) : Prop := ∃ i, a ∈ F.nodes i

/-- The node `x` between `pre` and `post` in the list `i`; it heads no list itself. -/
def insert (F : Shape) (i : ListId) (pre : List ℕ) (x : ℕ) (post : List ℕ) : Shape where
  head := Function.update F.head i (linkEnd pre.getLast? x (F.head i))
  nodes := Function.update F.nodes i (pre ++ x :: post)

end Shape

/-- The lists of a document are those of `F`, and every node in them has a name. -/
structure Sound (s : State) (F : Shape) : Prop where
  family : Family (nextOf s) (preOf s) F.head F.nodes
  root : F.head none = s.xml.nodeRoot
  rooted : ∀ a, F.Live a → s.xml.nodeRoot ≠ none
  node : ∀ i a, a ∈ F.nodes i → ∃ n, s.node a = some n ∧ n.nodeParent = i.map Prod.fst ∧
    (∀ t, F.head (some (a, t)) = n.head t) ∧ ∃ block text, n.name = some block ∧
      cstring block = some text
  owner : ∀ a t, F.nodes (some (a, t)) ≠ [] → F.Live a
  cur : ∀ a, s.xml.nodeCur = some a → F.Live a
  alloc : ∀ a n, s.node a = some n → a < s.requests

/-! ## A new node -/

/-- The node `x` with a name was put into the list `i` between `pred` and `succ`. -/
structure Grows (s s' : State) (i : ListId) (pred : Option ℕ) (x : ℕ) (succ : Option ℕ)
    (name : List UInt8) : Prop where
  new : s.node x = none
  xml : s'.xml = s.xml
  alloc : ∀ a n, s'.node a = some n → a < s'.requests
  next : nextOf s' = linkNext (nextOf s) pred x succ
  pre : preOf s' = linkPrev (preOf s) pred x succ
  head : ∀ a t, headOf s' a t =
    if some (a, t) = i ∧ pred = none then some x else headOf s a t
  label : ∀ a, a ≠ x → labelOf s' a = labelOf s a
  labelNew : labelOf s' x = some (i.map Prod.fst,
    some (name.take (UInt8.ofNat name.length).toNat ++ [0]), 0, none)

/-- Every allocation succeeds. -/
def served (_ : ℕ) : Bool := true

section Create
variable {s : State}

lemma modify_eq {p : ℕ} {n : BXML_NODE} (h : s.node p = some n) (f : BXML_NODE → BXML_NODE) :
    s.modify p f = some (s.setNode p (f n)) := by
  rw [State.modify, h, Option.map_some]

/-- A write through a pointer to a node. -/
lemma modify_spec {p : ℕ} (h : s.node p ≠ none) (f : BXML_NODE → BXML_NODE) :
    ∃ s', s.modify p f = some s' ∧ s'.xml = s.xml ∧ s'.requests = s.requests ∧
      ∀ a, s'.node a = if a = p then (s.node a).map f else s.node a := by
  obtain ⟨n, hn⟩ := Option.ne_none_iff_exists'.mp h
  refine ⟨_, modify_eq hn f, rfl, rfl, fun a => ?_⟩
  split
  · rename_i ha
    rw [ha, hn]
    simp [State.setNode]
  · rename_i ha
    simp [State.setNode, ha]

lemma node_setNode_self (s : State) (p : ℕ) (n : BXML_NODE) : (s.setNode p n).node p = some n := by
  simp [State.setNode]

lemma node_setNode_ne (s : State) {p a : ℕ} (n : BXML_NODE) (h : a ≠ p) :
    (s.setNode p n).node a = s.node a := by
  simp [State.setNode, h]

/-- A copy of a string whose block has room for it. -/
lemma copyString_served (s : State) (bytes : List UInt8) {size : UInt32}
    (hsize : size.toNat = bytes.length + 1) :
    copyString served s size bytes =
      some (some (bytes ++ [0]), { s with requests := s.requests + 1 }) := by
  have hwrite := write_start (List.replicate (bytes.length + 1) (0 : UInt8)) bytes (by simp)
  have hdrop : (List.replicate (bytes.length + 1) (0 : UInt8)).drop bytes.length = [0] := by simp
  rw [hdrop] at hwrite
  have hzero := @write_front bytes bytes.length rfl [0] [0] le_rfl
  simp only [copyString, safeMalloc, served, if_true, hsize, hwrite, hzero, Option.bind_eq_bind,
    Option.bind_some]
  simp

lemma giveName_served {x : ℕ} {n : BXML_NODE} (hx : s.node x = some n) (name : List UInt8) :
    ∃ s', giveName served s x name = some s' ∧ s'.xml = s.xml ∧ s'.requests = s.requests + 1 ∧
      s'.node x = some { n with
        nameLen := UInt8.ofNat name.length,
        name := some (name.take (UInt8.ofNat name.length).toNat ++ [0]) } ∧
      ∀ a, a ≠ x → s'.node a = s.node a := by
  have hlen : (UInt8.ofNat name.length).toNat ≤ name.length := by
    rw [UInt8.toNat_ofNat']
    exact Nat.mod_le _ _
  have hlt := (UInt8.ofNat name.length).toNat_lt
  have hsize : (UInt32.ofNat (UInt8.ofNat name.length).toNat + 1).toNat =
      (name.take (UInt8.ofNat name.length).toNat).length + 1 := by
    rw [List.length_take_of_le hlen, UInt32.toNat_add, UInt32.toNat_ofNat']
    simp only [UInt32.toNat_one]
    omega
  refine ⟨{ s.setNode x { n with
    nameLen := UInt8.ofNat name.length,
    name := some (name.take (UInt8.ofNat name.length).toNat ++ [0]) } with
    requests := s.requests + 1 }, ?_, rfl, rfl, node_setNode_self .., fun a ha => ?_⟩
  · simp only [giveName, modify_eq hx, Option.bind_eq_bind, Option.bind_some,
      copyString_served _ _ hsize]
    rw [State.modify]
    simp [State.setNode]
  · exact node_setNode_ne _ _ ha

/-- What a node looks like after `x` became the first of the list of kind `t` of `parent`. -/
def pushed (x parent : ℕ) (t : BXML_NODE_TYPE) (old : Option ℕ) (a : ℕ) (m : BXML_NODE) :
    BXML_NODE :=
  let m := if old = some a then { m with nodePre := some x } else m
  if a = parent then m.setHead (some x) t else m

/-- The first node of a document becomes its root. -/
def rooted (s : State) : BXML_DATA :=
  if s.xml.nodeRoot = none then { s.xml with nodeRoot := some s.requests } else s.xml

lemma rooted_eq (hroot : s.xml.nodeRoot ≠ none) : rooted s = s.xml := if_neg hroot

lemma createNode_served (s : State) :
    ∃ s₀, createNode served s = (some s.requests, s₀) ∧ s₀.xml = rooted s ∧
      s₀.requests = s.requests + 1 ∧
      ∀ a, s₀.node a = if a = s.requests then some zeroNode else s.node a := by
  simp only [createNode, safeMalloc, served, if_true, rooted, State.setNode]
  refine ⟨_, rfl, ?_⟩
  by_cases hroot : s.xml.nodeRoot = none <;> simp [hroot, Function.update_apply]

/-- What a node looks like after `x` was put behind `cur`, which was in front of `old`. -/
def appended (x cur : ℕ) (old : Option ℕ) (a : ℕ) (m : BXML_NODE) : BXML_NODE :=
  let m := if old = some a then { m with nodePre := some x } else m
  if cur = a then { m with nodeNext := some x } else m

lemma appended_last (x cur a : ℕ) (m : BXML_NODE) :
    appended x cur none a m = if cur = a then { m with nodeNext := some x } else m := by
  simp [appended]

lemma setPre_spec {p : Option ℕ} {x : ℕ} (h : ∀ q, p = some q → s.node q ≠ none) :
    ∃ s', setPre s p x = some s' ∧ s'.xml = s.xml ∧ s'.requests = s.requests ∧ ∀ a, s'.node a =
      if p = some a then (s.node a).map fun m => { m with nodePre := some x } else s.node a := by
  cases p with
  | none => exact ⟨s, rfl, rfl, rfl, fun a => rfl⟩
  | some q =>
    obtain ⟨s', h', hxml, hreq, hnode⟩ := modify_spec (h q rfl) fun m =>
      { m with nodePre := some x }
    refine ⟨s', h', hxml, hreq, fun a => ?_⟩
    simp only [hnode, Option.some.injEq, @eq_comm _ q a]

lemma createFirst_served {t : BXML_NODE_TYPE} {parent : ℕ} {n : BXML_NODE}
    (hnew : s.node s.requests = none) (hparent : s.node parent = some n)
    (hfirst : ∀ first, n.head t = some first → s.node first ≠ none) :
    ∃ s', createFirst served t s (some parent) = some (some s.requests, s') ∧ s'.xml = rooted s ∧
      s'.requests = s.requests + 1 ∧
      s'.node s.requests =
        some { zeroNode with nodeNext := n.head t, nodeParent := some parent } ∧
      ∀ a, a ≠ s.requests →
        s'.node a = (s.node a).map (pushed s.requests parent t (n.head t) a) := by
  have hne : parent ≠ s.requests := by
    rintro rfl
    rw [hnew] at hparent
    cases hparent
  obtain ⟨s₀, h₀, hxml₀, hreq₀, hnode₀⟩ := createNode_served s
  obtain ⟨s₁, h₁, hxml₁, hreq₁, hnode₁⟩ := @modify_spec s₀ s.requests (by simp [hnode₀])
    fun m => { m with nodeNext := n.head t }
  obtain ⟨s₂, h₂, hxml₂, hreq₂, hnode₂⟩ := @setPre_spec s₁ (n.head t) s.requests (by
    intro first hf
    rw [hnode₁, hnode₀]
    split <;> simp [hfirst first hf])
  have hold : n.head t ≠ some s.requests := fun h => hfirst _ h hnew
  obtain ⟨s₃, h₃, hxml₃, hreq₃, hnode₃⟩ := @modify_spec s₂ s.requests
    (by simp [hnode₂, hold, hnode₁, hnode₀]) fun m => { m with nodeParent := some parent }
  obtain ⟨s₄, h₄, hxml₄, hreq₄, hnode₄⟩ := @modify_spec s₃ parent
    (by
      rw [hnode₃, if_neg hne, hnode₂, hnode₁, if_neg hne, hnode₀, if_neg hne, hparent]
      split <;> exact Option.some_ne_none _)
    fun m => m.setHead (some s.requests) t
  refine ⟨s₄, ?_, ?_, ?_, ?_, fun a ha => ?_⟩
  · simp only [createFirst, h₀, Option.bind_eq_bind]
    rw [hnode₀, if_neg hne, hparent, Option.bind_some, h₁, Option.bind_some]
    cases hhead : n.head t with
    | none =>
      rw [hhead] at h₂
      cases h₂
      simp only [Option.bind_some, h₃, h₄]
    | some first =>
      rw [hhead, setPre] at h₂
      simp only [h₂, Option.bind_some, h₃, h₄]
  · rw [hxml₄, hxml₃, hxml₂, hxml₁, hxml₀]
  · rw [hreq₄, hreq₃, hreq₂, hreq₁, hreq₀]
  · rw [hnode₄, if_neg hne.symm, hnode₃, if_pos rfl, hnode₂, if_neg hold, hnode₁, if_pos rfl,
      hnode₀, if_pos rfl]
    rfl
  · rw [hnode₄, hnode₃, if_neg ha, hnode₂, hnode₁, if_neg ha, hnode₀, if_neg ha]
    unfold pushed
    by_cases haf : n.head t = some a
    · simp only [if_pos haf]
      split
      · rw [Option.map_map]
        rfl
      · rfl
    · simp only [if_neg haf]
      split
      · rfl
      · exact Option.map_id'.symm

lemma createNextnode_served {cur : ℕ} {n : BXML_NODE} (hnew : s.node s.requests = none)
    (hcur : s.node cur = some n) (hnext : ∀ b, n.nodeNext = some b → s.node b ≠ none) :
    ∃ s', createNextnode served s (some cur) = some (some s.requests, s') ∧ s'.xml = rooted s ∧
      s'.requests = s.requests + 1 ∧
      s'.node s.requests =
        some { zeroNode with nodePre := some cur, nodeParent := n.nodeParent } ∧
      ∀ a, a ≠ s.requests →
        s'.node a = (s.node a).map (appended s.requests cur n.nodeNext a) := by
  have hne : cur ≠ s.requests := by
    rintro rfl
    rw [hnew] at hcur
    cases hcur
  have hold : n.nodeNext ≠ some s.requests := fun h => hnext _ h hnew
  obtain ⟨s₀, h₀, hxml₀, hreq₀, hnode₀⟩ := createNode_served s
  obtain ⟨s₁, h₁, hxml₁, hreq₁, hnode₁⟩ := @modify_spec s₀ s.requests (by simp [hnode₀])
    fun m => { m with nodePre := some cur }
  have hcur₁ : s₁.node cur = some n := by
    rw [hnode₁, if_neg hne, hnode₀, if_neg hne, hcur]
  obtain ⟨s₂, h₂, hxml₂, hreq₂, hnode₂⟩ := @setPre_spec s₁ n.nodeNext s.requests (by
    intro b hb
    rw [hnode₁, hnode₀]
    split <;> simp [hnext b hb])
  obtain ⟨s₃, h₃, hxml₃, hreq₃, hnode₃⟩ := @modify_spec s₂ cur
    (by rw [hnode₂]; split <;> simp [hcur₁]) fun m => { m with nodeNext := some s.requests }
  obtain ⟨s₄, h₄, hxml₄, hreq₄, hnode₄⟩ := @modify_spec s₃ s.requests
    (by simp [hnode₃, hne.symm, hnode₂, hold, hnode₁, hnode₀])
    fun m => { m with nodeParent := n.nodeParent }
  refine ⟨s₄, ?_, ?_, ?_, ?_, fun a ha => ?_⟩
  · simp only [createNextnode, h₀, h₁, hcur₁, h₂, h₃, h₄, Option.bind_eq_bind, Option.bind_some]
  · rw [hxml₄, hxml₃, hxml₂, hxml₁, hxml₀]
  · rw [hreq₄, hreq₃, hreq₂, hreq₁, hreq₀]
  · rw [hnode₄, if_pos rfl, hnode₃, if_neg hne.symm, hnode₂, if_neg hold, hnode₁, if_pos rfl,
      hnode₀, if_pos rfl]
    rfl
  · rw [hnode₄, if_neg ha, hnode₃, hnode₂, hnode₁, if_neg ha, hnode₀, if_neg ha]
    unfold appended
    by_cases hb : n.nodeNext = some a
    · by_cases hac : a = cur
      · subst hac
        simp only [if_pos hb, if_true, Option.map_map]
        rfl
      · simp only [if_pos hb, if_neg hac, if_neg (Ne.symm hac)]
    · by_cases hac : a = cur
      · subst hac
        simp only [if_neg hb, if_true]
      · simp only [if_neg hb, if_neg hac, if_neg (Ne.symm hac), Option.map_id']

/-! What `pushed` leaves alone. -/

lemma head_setHead (n : BXML_NODE) (p : Option ℕ) (t t' : BXML_NODE_TYPE) :
    (n.setHead p t).head t' = if t' = t then p else n.head t' := by
  cases t <;> cases t' <;> rfl

@[simp] lemma pushed_nodeNext (x parent : ℕ) (t : BXML_NODE_TYPE) (old : Option ℕ) (a : ℕ)
    (m : BXML_NODE) : (pushed x parent t old a m).nodeNext = m.nodeNext := by
  unfold pushed
  cases t <;> simp only [BXML_NODE.setHead] <;> split <;> split <;> rfl

@[simp] lemma pushed_nodePre (x parent : ℕ) (t : BXML_NODE_TYPE) (old : Option ℕ) (a : ℕ)
    (m : BXML_NODE) : (pushed x parent t old a m).nodePre =
      if old = some a then some x else m.nodePre := by
  unfold pushed
  cases t <;> simp only [BXML_NODE.setHead] <;> split <;> split <;> rfl

@[simp] lemma pushed_head (x parent : ℕ) (t : BXML_NODE_TYPE) (old : Option ℕ) (a : ℕ)
    (m : BXML_NODE) (t' : BXML_NODE_TYPE) : (pushed x parent t old a m).head t' =
      if a = parent ∧ t' = t then some x else m.head t' := by
  have hm : (if old = some a then { m with nodePre := some x } else m).head t' = m.head t' := by
    split <;> cases t' <;> rfl
  unfold pushed
  dsimp only
  by_cases hap : a = parent
  · rw [if_pos hap, head_setHead, hm]
    simp [hap]
  · rw [if_neg hap, hm, if_neg fun h => hap h.1]

@[simp] lemma pushed_label (x parent : ℕ) (t : BXML_NODE_TYPE) (old : Option ℕ) (a : ℕ)
    (m : BXML_NODE) : ((pushed x parent t old a m).nodeParent, (pushed x parent t old a m).name,
      (pushed x parent t old a m).valueLen, (pushed x parent t old a m).value) =
        (m.nodeParent, m.name, m.valueLen, m.value) := by
  unfold pushed
  cases t <;> simp only [BXML_NODE.setHead] <;> split <;> split <;> rfl

end Create

namespace Sound
variable {s : State} {F : Shape}

lemma node_ne_none (h : Sound s F) {a : ℕ} (ha : F.Live a) : s.node a ≠ none := by
  obtain ⟨i, hi⟩ := ha
  obtain ⟨n, hn, -⟩ := h.node i a hi
  rw [hn]
  exact Option.some_ne_none n

lemma new (h : Sound s F) : s.node s.requests = none := by
  by_contra hne
  obtain ⟨n, hn⟩ := Option.ne_none_iff_exists'.mp hne
  exact lt_irrefl _ (h.alloc _ n hn)

lemma head_eq (h : Sound s F) (i : ListId) : F.head i = (F.nodes i).head? :=
  (h.family.chain i).head_eq

end Sound

/-- The links of a new node and what its neighbours and its parent look like afterwards. -/
lemma grows_of {s s' : State} {i : ListId} {pred succ : Option ℕ} {x : ℕ} {name : List UInt8}
    {touch : ℕ → BXML_NODE → BXML_NODE} (hnew : s.node x = none) (hxml : s'.xml = s.xml)
    (halloc : ∀ a n, s'.node a = some n → a < s'.requests)
    (hx : s'.node x = some { zeroNode with
      nodeNext := succ, nodePre := pred, nodeParent := i.map Prod.fst,
      nameLen := UInt8.ofNat name.length,
      name := some (name.take (UInt8.ofNat name.length).toNat ++ [0]) })
    (hother : ∀ a, a ≠ x → s'.node a = (s.node a).map (touch a))
    (hpred : ∀ p, pred = some p → s.node p ≠ none) (hsucc : ∀ p, succ = some p → s.node p ≠ none)
    (hnext : ∀ a m, (touch a m).nodeNext = if pred = some a then some x else m.nodeNext)
    (hpre : ∀ a m, (touch a m).nodePre = if succ = some a then some x else m.nodePre)
    (hhead : ∀ a m t, (touch a m).head t =
      if some (a, t) = i ∧ pred = none then some x else m.head t)
    (howner : ∀ a t, i = some (a, t) → s.node a ≠ none)
    (hlabel : ∀ a m, ((touch a m).nodeParent, (touch a m).name, (touch a m).valueLen,
      (touch a m).value) = (m.nodeParent, m.name, m.valueLen, m.value)) :
    Grows s s' i pred x succ name where
  new := hnew
  xml := hxml
  alloc := halloc
  next := by
    have hne : pred ≠ some x := fun h => hpred x h hnew
    funext a
    by_cases ha : a = x
    · rw [ha, linkNext_self hne, nextOf, hx, Option.bind_some]
    · rw [nextOf, hother a ha]
      by_cases hp : pred = some a
      · obtain ⟨m, hm⟩ := Option.ne_none_iff_exists'.mp (hpred a hp)
        rw [hp, hm, Option.map_some, Option.bind_some, hnext, if_pos hp]
        simp [linkNext]
      · rw [linkNext_of_ne ha hp, nextOf]
        cases s.node a with
        | none => rfl
        | some m => simp [hnext, hp]
  pre := by
    have hne : succ ≠ some x := fun h => hsucc x h hnew
    funext a
    by_cases ha : a = x
    · rw [ha, linkPrev_self hne, preOf, hx, Option.bind_some]
    · rw [preOf, hother a ha]
      by_cases hp : succ = some a
      · obtain ⟨m, hm⟩ := Option.ne_none_iff_exists'.mp (hsucc a hp)
        rw [hp, hm, Option.map_some, Option.bind_some, hpre, if_pos hp]
        simp [linkPrev]
      · rw [linkPrev_of_ne ha hp, preOf]
        cases s.node a with
        | none => rfl
        | some m => simp [hpre, hp]
  head a t := by
    by_cases ha : a = x
    · have hno : ¬(some (a, t) = i ∧ pred = none) := fun h => howner a t h.1.symm (ha ▸ hnew)
      rw [if_neg hno, ha, headOf, hx, headOf, hnew]
      cases t <;> rfl
    · rw [headOf, hother a ha, headOf]
      cases hm : s.node a with
      | none =>
        rw [if_neg fun h => howner a t h.1.symm hm]
        rfl
      | some m => simp only [Option.map_some, Option.bind_some, hhead]
  label a ha := by
    rw [labelOf, hother a ha, labelOf, Option.map_map]
    exact congrArg (fun f => Option.map f (s.node a)) (funext (hlabel a))
  labelNew := by
    rw [labelOf, hx]
    rfl

/-- A child or an attribute with a name is created at the front of its list. -/
lemma createNamed_grows {s : State} {F : Shape} (h : Sound s F) {parent : ℕ} (hlive : F.Live parent)
    (t : BXML_NODE_TYPE) (name : List UInt8) :
    ∃ s', createNamed served t s parent name = some (s.requests, s') ∧
      Grows s s' (some (parent, t)) none s.requests (F.nodes (some (parent, t))).head? name := by
  obtain ⟨i, hi⟩ := hlive
  obtain ⟨n, hn, -, hhead, -⟩ := h.node i parent hi
  have hroot := h.rooted parent ⟨i, hi⟩
  have hold : n.head t = (F.nodes (some (parent, t))).head? := by rw [← hhead, h.head_eq]
  have hfirst : ∀ first, n.head t = some first → s.node first ≠ none := by
    intro first hf
    rw [hold] at hf
    exact h.node_ne_none ⟨_, List.mem_of_head? hf⟩
  obtain ⟨s₁, hcreate, hxml₁, hreq₁, hnew₁, hother₁⟩ := createFirst_served h.new hn hfirst
  rw [rooted_eq hroot] at hxml₁
  obtain ⟨s₂, hname, hxml₂, hreq₂, hnew₂, hother₂⟩ := giveName_served hnew₁ name
  rw [hold] at hnew₂ hother₁ hfirst
  refine ⟨s₂, ?_, ?_⟩
  · simp only [createNamed, hcreate, hname, Option.bind_eq_bind, Option.bind_some]
  · refine grows_of h.new (hxml₂.trans hxml₁) ?_ hnew₂
      (fun a ha => (hother₂ a ha).trans (hother₁ a ha)) nofun hfirst (fun a m => ?_) (fun a m => ?_)
      (fun a m t' => ?_) ?_ fun a m => pushed_label ..
    · intro a m hm
      rw [hreq₂, hreq₁]
      by_cases ha : a = s.requests
      · omega
      · rw [hother₂ a ha, hother₁ a ha] at hm
        obtain ⟨m', hm', -⟩ := Option.map_eq_some_iff.mp hm
        have hlt := h.alloc a m' hm'
        omega
    · rw [pushed_nodeNext, if_neg nofun]
    · rw [pushed_nodePre]
    · rw [pushed_head]
      simp
    · rintro a t' heq
      cases heq
      rw [hn]
      exact Option.some_ne_none n

/-! ## The new lists -/

lemma exists_cstring {block : List UInt8} (h : (0 : UInt8) ∈ block) :
    ∃ text, cstring block = some text := by
  induction block with
  | nil => cases h
  | cons b bs ih =>
    rw [cstring]
    split
    · exact ⟨[], rfl⟩
    · rename_i hb
      obtain ⟨text, htext⟩ := ih ((List.mem_cons.mp h).resolve_left (Ne.symm hb))
      exact ⟨b :: text, by rw [htext, Option.map_some]⟩

namespace Shape
variable {F : Shape} {i : ListId} {pre post : List ℕ} {x : ℕ}

lemma insert_nodes_of_ne {j : ListId} (hj : j ≠ i) : (F.insert i pre x post).nodes j = F.nodes j :=
  Function.update_of_ne hj _ _

lemma insert_head_of_ne {j : ListId} (hj : j ≠ i) : (F.insert i pre x post).head j = F.head j :=
  Function.update_of_ne hj _ _

lemma insert_head_self : (F.insert i pre x post).head i = linkEnd pre.getLast? x (F.head i) :=
  Function.update_self ..

lemma mem_insert (hi : F.nodes i = pre ++ post) {j : ListId} {a : ℕ} :
    a ∈ (F.insert i pre x post).nodes j ↔ a ∈ F.nodes j ∨ a = x ∧ j = i := by
  by_cases hj : j = i
  · subst hj
    simp only [insert, Function.update_self, hi, List.mem_append, List.mem_cons, and_true]
    tauto
  · simp only [insert, Function.update_of_ne hj, hj, and_false, or_false]

lemma Live.insert (hi : F.nodes i = pre ++ post) {a : ℕ} (h : F.Live a) :
    (F.insert i pre x post).Live a := by
  obtain ⟨j, hj⟩ := h
  exact ⟨j, (mem_insert hi).mpr (.inl hj)⟩

lemma live_insert (hi : F.nodes i = pre ++ post) : (F.insert i pre x post).Live x :=
  ⟨i, (mem_insert hi).mpr (.inr ⟨rfl, rfl⟩)⟩

end Shape

/-- A document stays sound when a node with a name enters a list. -/
lemma Sound.grow {s s' : State} {F : Shape} (h : Sound s F) {i : ListId} {pre post : List ℕ}
    {x : ℕ} {name : List UInt8} (hg : Grows s s' i pre.getLast? x post.head? name)
    (hi : F.nodes i = pre ++ post) (howner : ∀ a t, i = some (a, t) → F.Live a)
    (htop : i = none → pre ≠ []) (hroot : s.xml.nodeRoot ≠ none) :
    Sound s' (F.insert i pre x post) := by
  have hx : ¬F.Live x := fun hlive => h.node_ne_none hlive hg.new
  have hnil : ∀ t, F.nodes (some (x, t)) = [] := fun t => by
    by_contra hne
    exact hx (h.owner x t hne)
  have hix : ∀ t, some (x, t) ≠ i := fun t he => hx (howner x t he.symm)
  refine ⟨?_, ?_, fun a _ => by rwa [hg.xml], ?_, ?_, ?_, hg.alloc⟩
  · rw [hg.next, hg.pre]
    exact h.family.link hi fun j hj => hx ⟨j, hj⟩
  · rw [hg.xml, ← h.root]
    by_cases hn : i = none
    · obtain ⟨y, hy⟩ := List.getLast?_isSome.mpr (htop hn) |> Option.isSome_iff_exists.mp
      rw [← hn, Shape.insert_head_self, hy, linkEnd]
    · rw [Shape.insert_head_of_ne (Ne.symm hn)]
  · intro j a ha
    rcases (Shape.mem_insert hi).mp ha with ha | ⟨rfl, rfl⟩
    · obtain ⟨n, hn, hparent, hhead, hname⟩ := h.node j a ha
      have hax : a ≠ x := fun he => hx ⟨j, he ▸ ha⟩
      have hlabel := hg.label a hax
      rw [labelOf, labelOf, hn, Option.map_some] at hlabel
      obtain ⟨n', hn', heq⟩ := Option.map_eq_some_iff.mp hlabel
      simp only [Prod.mk.injEq] at heq
      refine ⟨n', hn', heq.1.trans hparent, fun t => ?_, by rwa [heq.2.1]⟩
      have hhead' := hg.head a t
      rw [headOf, hn', Option.bind_some, headOf, hn, Option.bind_some, ← hhead t] at hhead'
      rw [hhead']
      by_cases hat : some (a, t) = i
      · rw [← hat, Shape.insert_head_self]
        cases pre.getLast? <;> simp [linkEnd]
      · rw [Shape.insert_head_of_ne hat, if_neg fun hc => hat hc.1]
    · have hnew := hg.labelNew
      rw [labelOf] at hnew
      obtain ⟨n, hn, heq⟩ := Option.map_eq_some_iff.mp hnew
      simp only [Prod.mk.injEq] at heq
      obtain ⟨text, htext⟩ := exists_cstring (List.mem_append_right
        (name.take (UInt8.ofNat name.length).toNat)
        (List.mem_singleton.mpr (rfl : (0 : UInt8) = 0)))
      refine ⟨n, hn, heq.1, fun t => ?_, _, text, heq.2.1, htext⟩
      have hhead := hg.head a t
      rw [headOf, hn, Option.bind_some, if_neg fun hc => hix t hc.1, headOf, hg.new,
        Option.bind_none] at hhead
      rw [Shape.insert_head_of_ne (hix t), h.head_eq, hnil, hhead, List.head?_nil]
  · intro a t hne
    by_cases hat : some (a, t) = i
    · exact (howner a t hat.symm).insert hi
    · rw [Shape.insert_nodes_of_ne hat] at hne
      exact (h.owner a t hne).insert hi
  · intro a ha
    rw [hg.xml] at ha
    exact (h.cur a ha).insert hi

/-! ## Reachable nodes -/

/-- A pointer from one node to another: to the next sibling, the first attribute or the first
child. -/
def Edge (s : State) (a b : ℕ) : Prop := nextOf s a = some b ∨ ∃ t, headOf s a t = some b

def Reachable (s : State) (a : ℕ) : Prop :=
  ∃ r, s.xml.nodeRoot = some r ∧ ReflTransGen (Edge s) r a

/-- A pointer that is redirected to the new node leads on to where it led before. -/
lemma Sound.grow_edge {s s' : State} {F : Shape} (h : Sound s F) {i : ListId} {pre post : List ℕ}
    {x : ℕ} {name : List UInt8} (hg : Grows s s' i pre.getLast? x post.head? name)
    (hi : F.nodes i = pre ++ post) (howner : ∀ a t, i = some (a, t) → F.Live a) {a b : ℕ}
    (hedge : Edge s a b) : ReflTransGen (Edge s') a b := by
  have hx : ∀ j, x ∉ F.nodes j := fun j hj => h.node_ne_none ⟨j, hj⟩ hg.new
  have hpred : pre.getLast? ≠ some x := fun hl =>
    hx i (by rw [hi]; exact List.mem_append_left _ (List.mem_of_getLast? hl))
  have hleave : nextOf s' x = post.head? := by rw [hg.next, linkNext_self hpred]
  rcases hedge with hnext | ⟨t, hhead⟩
  · have hax : a ≠ x := by
      rintro rfl
      rw [nextOf, hg.new] at hnext
      cases hnext
    by_cases hp : pre.getLast? = some a
    · obtain ⟨pre, rfl⟩ := List.getLast?_eq_some_iff.mp hp
      have hchain := h.family.chain i
      rw [hi, List.append_assoc, List.singleton_append] at hchain
      have henter : nextOf s' a = some x := by
        rw [hg.next, hp]
        simp [linkNext]
      rw [hchain.next_eq] at hnext
      exact (ReflTransGen.single (.inl henter)).tail (.inl (hleave.trans hnext))
    · exact .single (.inl (by rw [hg.next, linkNext_of_ne hax hp, hnext]))
  · by_cases hc : some (a, t) = i ∧ pre.getLast? = none
    · obtain ⟨j, hj⟩ := howner a t hc.1.symm
      obtain ⟨n, hn, -, hheads, -⟩ := h.node j a hj
      have hfirst := h.head_eq (some (a, t))
      rw [hheads, hc.1, hi, List.getLast?_eq_none_iff.mp hc.2, List.nil_append] at hfirst
      rw [headOf, hn, Option.bind_some, hfirst] at hhead
      have henter : headOf s' a t = some x := by rw [hg.head, if_pos hc]
      exact (ReflTransGen.single (.inr ⟨t, henter⟩)).tail (.inl (hleave.trans hhead))
    · exact .single (.inr ⟨t, by rw [hg.head, if_neg hc, hhead]⟩)

lemma Reachable.mono {s s' : State} (hroot : s'.xml.nodeRoot = s.xml.nodeRoot)
    (hedge : ∀ a b, Edge s a b → ReflTransGen (Edge s') a b) {a : ℕ} (h : Reachable s a) :
    Reachable s' a := by
  obtain ⟨r, hr, hpath⟩ := h
  refine ⟨r, hroot.trans hr, ?_⟩
  clear hr
  induction hpath with
  | refl => exact .refl
  | tail _ hstep ih => exact ih.trans (hedge _ _ hstep)

/-- A document became another one: nodes of its lists and what was reachable are still there. -/
structure Evolves (s : State) (F : Shape) (s' : State) (F' : Shape) : Prop where
  sound : Sound s' F'
  live : ∀ a, F.Live a → F'.Live a
  reachable : ∀ a, Reachable s a → Reachable s' a

namespace Evolves

lemma refl {s : State} {F : Shape} (h : Sound s F) : Evolves s F s F :=
  ⟨h, fun _ ha => ha, fun _ ha => ha⟩

lemma trans {s₁ s₂ s₃ : State} {F₁ F₂ F₃ : Shape} (h : Evolves s₁ F₁ s₂ F₂)
    (h' : Evolves s₂ F₂ s₃ F₃) : Evolves s₁ F₁ s₃ F₃ :=
  ⟨h'.sound, fun a ha => h'.live a (h.live a ha), fun a ha => h'.reachable a (h.reachable a ha)⟩

end Evolves

lemma Sound.grow_evolves {s s' : State} {F : Shape} (h : Sound s F) {i : ListId}
    {pre post : List ℕ} {x : ℕ} {name : List UInt8}
    (hg : Grows s s' i pre.getLast? x post.head? name) (hi : F.nodes i = pre ++ post)
    (howner : ∀ a t, i = some (a, t) → F.Live a) (htop : i = none → pre ≠ [])
    (hroot : s.xml.nodeRoot ≠ none) : Evolves s F s' (F.insert i pre x post) where
  sound := h.grow hg hi howner htop hroot
  live _ ha := ha.insert hi
  reachable _ ha := ha.mono (by rw [hg.xml]) fun _ _ => h.grow_edge hg hi howner

/-- Links, parents and names do not change. -/
structure SameLinks (s s' : State) : Prop where
  xml : s'.xml = s.xml
  alloc : ∀ a n, s'.node a = some n → a < s'.requests
  node : ∀ a, (s'.node a).map (fun n => { n with valueLen := 0, value := none }) =
    (s.node a).map fun n => { n with valueLen := 0, value := none }

lemma SameLinks.eq_of {s s' : State} (h : SameLinks s s') {β : Type*} (f : BXML_NODE → β)
    (hf : ∀ n, f { n with valueLen := 0, value := none } = f n) (a : ℕ) :
    (s'.node a).map f = (s.node a).map f := by
  have hnode := congrArg (Option.map f) (h.node a)
  simpa only [Option.map_map, Function.comp_def, hf] using hnode

lemma Sound.sameLinks {s s' : State} {F : Shape} (h : Sound s F) (hs : SameLinks s s') :
    Evolves s F s' F := by
  have hbind : ∀ (f : BXML_NODE → Option ℕ), (∀ n : BXML_NODE,
      f { n with valueLen := 0, value := none } = f n) →
      ∀ a, (s'.node a).bind f = (s.node a).bind f := by
    intro f hf a
    have heq := hs.eq_of f hf a
    cases h' : s'.node a with
    | none =>
      rw [h', Option.map_none] at heq
      rw [Option.map_eq_none_iff.mp heq.symm]
    | some n' =>
      rw [h', Option.map_some] at heq
      obtain ⟨n, hn, hfn⟩ := Option.map_eq_some_iff.mp heq.symm
      rw [hn]
      exact hfn.symm
  have hnext : nextOf s' = nextOf s := funext (hbind _ fun _ => rfl)
  have hpre : preOf s' = preOf s := funext (hbind _ fun _ => rfl)
  have hhead : ∀ a t, headOf s' a t = headOf s a t := fun a t =>
    hbind (fun n => n.head t) (fun n => by cases t <;> rfl) a
  refine ⟨⟨?_, ?_, ?_, ?_, h.owner, ?_, hs.alloc⟩, fun _ ha => ha, fun a ha => ?_⟩
  · rw [hnext, hpre]
    exact h.family
  · rw [hs.xml]
    exact h.root
  · rw [hs.xml]
    exact h.rooted
  · intro i a ha
    obtain ⟨n, hn, hparent, hheads, hname⟩ := h.node i a ha
    have heq := hs.node a
    rw [hn, Option.map_some] at heq
    obtain ⟨n', hn', heq⟩ := Option.map_eq_some_iff.mp heq
    have hheads' : ∀ t, n'.head t = n.head t := fun t => by
      have := hhead a t
      rwa [headOf, hn', headOf, hn] at this
    simp only [BXML_NODE.mk.injEq] at heq
    obtain ⟨-, -, -, -, hp, -, -, hname', -⟩ := heq
    exact ⟨n', hn', hp.trans hparent, fun t => (hheads t).trans (hheads' t).symm, by rwa [hname']⟩
  · rw [hs.xml]
    exact h.cur
  · refine ha.mono (by rw [hs.xml]) fun x y hedge => .single ?_
    rcases hedge with hn | ⟨t, ht⟩
    · exact .inl (by rw [hnext, hn])
    · exact .inr ⟨t, by rw [hhead, ht]⟩

/-- The current node moves to a node of a list. -/
lemma Sound.setCur {s : State} {F : Shape} (h : Sound s F) {a : ℕ} (ha : F.Live a) :
    Evolves s F (s.setCur (some a)) F where
  sound :=
    { family := h.family
      root := h.root
      rooted := h.rooted
      node := h.node
      owner := h.owner
      cur := fun b hb => by
        cases hb
        exact ha
      alloc := h.alloc }
  live _ hb := hb
  reachable _ hb := hb

end Sgos.BxmlPath
