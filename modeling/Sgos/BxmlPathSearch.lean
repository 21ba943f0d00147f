import Sgos.BxmlPathTree
import Mathlib.Data.List.Perm.Basic

/-!
# Searching the lists of a BXML document

In a sound document the searches of the path functions find the first node of a list that fits, and
what is not found is created at the front of its list.
-/
namespace Sgos.BxmlPath
open ByteBuffer CString Bxml Xml LinkedChain Relation

/-! ## Comparing strings -/

/-- A comparison with a string ends at its zero. -/
lemma exists_strncmp {block text : List UInt8} (h : cstring block = some text) :
    ∀ {bs : List UInt8} {count : ℕ}, count ≤ bs.length → ∃ b, strncmp block bs count = some b := by
  induction block generalizing text with
  | nil => cases h
  | cons c block ih =>
    intro bs count hcount
    cases count with
    | zero => exact ⟨true, by cases bs <;> rfl⟩
    | succ count =>
      cases bs with
      | nil => simp at hcount
      | cons b bs =>
        rw [strncmp]
        split
        · exact ⟨false, rfl⟩
        · split
          · exact ⟨true, rfl⟩
          · rename_i hc
            rw [cstring, if_neg hc] at h
            obtain ⟨text', htext', -⟩ := Option.map_eq_some_iff.mp h
            exact ih htext' (Nat.le_of_succ_le_succ hcount)

lemma exists_strcmp {block text : List UInt8} (h : cstring block = some text)
    (name : List UInt8) : ∃ b, strcmp block name = some b :=
  exists_strncmp h (by simp)

/-! ## Searching -/

/-- Whether a node has the name. -/
def nameMatches (s : State) (name : List UInt8) (a : ℕ) : Bool :=
  ((s.node a).bind (nameIs name)).getD false

section Search
variable {s : State} {F : Shape}

lemma Sound.nameIs_eq (h : Sound s F) {a : ℕ} (ha : F.Live a) {n : BXML_NODE}
    (hn : s.node a = some n) (name : List UInt8) :
    nameIs name n = some (nameMatches s name a) := by
  obtain ⟨i, hi⟩ := ha
  obtain ⟨n', hn', -, -, block, text, hblock, htext⟩ := h.node i a hi
  obtain rfl := Option.some.inj (hn.symm.trans hn')
  obtain ⟨b, hb⟩ := exists_strcmp htext name
  have heq : nameIs name n = some b := by rw [nameIs, hblock, Option.bind_some, hb]
  rw [nameMatches, hn, Option.bind_some, heq, Option.getD_some]

lemma Sound.length_le (h : Sound s F) (i : ListId) : (F.nodes i).length ≤ s.requests := by
  have hsub : (F.nodes i).Subperm (List.range s.requests) := by
    refine List.subperm_of_subset (h.family.chain i).nodup fun a ha => List.mem_range.mpr ?_
    obtain ⟨n, hn, -⟩ := h.node i a ha
    exact h.alloc a n hn
  simpa using List.Subperm.length_le hsub

/-- A search goes through the list and stops at the first node that fits. -/
lemma Sound.findNode_eq (h : Sound s F) (i : ListId) {found : ℕ → BXML_NODE → Option Bool}
    {p : ℕ → Bool}
    (hfound : ∀ a ∈ F.nodes i, ∀ n, s.node a = some n → found a n = some (p a)) :
    findNode s found s.requests (F.head i) = some ((F.nodes i).find? p) := by
  suffices hrest : ∀ (xs pre : List ℕ) (bound : ℕ), F.nodes i = pre ++ xs → xs.length ≤ bound →
      findNode s found bound xs.head? = some (xs.find? p) by
    rw [h.head_eq]
    exact hrest _ [] _ rfl (h.length_le i)
  intro xs
  induction xs with
  | nil => intro pre bound _ _; cases bound <;> rfl
  | cons x xs ih =>
    intro pre bound hsplit hbound
    obtain ⟨bound, rfl⟩ : ∃ b, bound = b + 1 := by
      rw [List.length_cons] at hbound
      exact ⟨bound - 1, by omega⟩
    have hx : x ∈ F.nodes i := by simp [hsplit]
    obtain ⟨n, hn, -⟩ := h.node i x hx
    have hchain := h.family.chain i
    rw [hsplit] at hchain
    have hnext := hchain.next_eq
    rw [nextOf, hn, Option.bind_some] at hnext
    rw [List.head?_cons, findNode, hn]
    simp only [Option.bind_eq_bind, Option.bind_some, hfound x hx n hn, hnext]
    cases hp : p x with
    | true => rw [List.find?_cons_of_pos hp]; rfl
    | false =>
      rw [List.find?_cons_of_neg (by simp [hp])]
      exact ih (pre ++ [x]) bound (by simp [hsplit]) (Nat.le_of_succ_le_succ hbound)

/-- The attribute with a name. -/
def attrOf (s : State) (F : Shape) (a : ℕ) (name : List UInt8) : Option ℕ :=
  (F.nodes (some (a, .attribute))).find? (nameMatches s name)

lemma Sound.head_live (h : Sound s F) {a : ℕ} (ha : F.Live a) {n : BXML_NODE}
    (hn : s.node a = some n) (t : BXML_NODE_TYPE) : n.head t = F.head (some (a, t)) := by
  obtain ⟨i, hi⟩ := ha
  obtain ⟨n', hn', -, hhead, -⟩ := h.node i a hi
  obtain rfl := Option.some.inj (hn.symm.trans hn')
  exact (hhead t).symm

lemma Sound.findAttr_eq (h : Sound s F) {a : ℕ} (ha : F.Live a) (name : List UInt8) :
    findAttr s a name = some (attrOf s F a name) := by
  obtain ⟨n, hn⟩ := Option.ne_none_iff_exists'.mp (h.node_ne_none ha)
  rw [findAttr, hn, Option.bind_eq_bind, Option.bind_some]
  change findNode s _ s.requests (n.head .attribute) = _
  rw [h.head_live ha hn]
  exact h.findNode_eq _ fun b hb m hm => h.nameIs_eq ⟨_, hb⟩ hm name

variable (stray : List UInt8 → List UInt8 → Bool)

/-- Whether the value of a node is `value`. -/
def valueMatches (s : State) (value : List UInt8) (a : ℕ) : Bool :=
  match (s.node a).bind BXML_NODE.value with
  | none => false
  | some block => (strcmp block value).getD (stray block value)

/-- Whether a node has an attribute as a condition says. -/
def condMet (s : State) (F : Shape) (a : ℕ) (cond : Condition) : Bool :=
  (attrOf s F a cond.1).any (valueMatches stray s cond.2)

lemma Sound.meets_eq (h : Sound s F) {a : ℕ} (ha : F.Live a) (conds : List Condition) :
    meets stray s a conds = some (conds.all (condMet stray s F a)) := by
  induction conds with
  | nil => rfl
  | cons cond conds ih =>
    obtain ⟨key, value⟩ := cond
    rw [meets, h.findAttr_eq ha, Option.bind_eq_bind, Option.bind_some, List.all_cons, condMet]
    cases hattr : attrOf s F a key with
    | none => rfl
    | some b =>
      have hb : F.Live b := ⟨_, List.mem_of_find?_eq_some hattr⟩
      obtain ⟨m, hm⟩ := Option.ne_none_iff_exists'.mp (h.node_ne_none hb)
      simp only [Option.any_some, valueMatches, hm, Option.bind_eq_bind, Option.bind_some]
      cases m.value with
      | none => rfl
      | some block =>
        cases hc : (strcmp block value).getD (stray block value) with
        | true =>
          dsimp only
          rw [hc, if_pos rfl, Bool.true_and, ih]
        | false =>
          dsimp only
          rw [hc, Bool.false_and]
          rfl

/-- The child with a name that meets conditions. -/
def childOf (s : State) (F : Shape) (a : ℕ) (name : List UInt8) (conds : List Condition) :
    Option ℕ :=
  (F.nodes (some (a, .node))).find? fun b =>
    nameMatches s name b && conds.all (condMet stray s F b)

lemma Sound.findChild_eq (h : Sound s F) {a : ℕ} (ha : F.Live a) (name : List UInt8)
    (conds : List Condition) :
    findChild stray s a name conds = some (childOf stray s F a name conds) := by
  obtain ⟨n, hn⟩ := Option.ne_none_iff_exists'.mp (h.node_ne_none ha)
  rw [findChild, hn, Option.bind_eq_bind, Option.bind_some]
  change findNode s _ s.requests (n.head .node) = _
  rw [h.head_live ha hn]
  refine h.findNode_eq _ fun b hb m hm => ?_
  rw [h.nameIs_eq ⟨_, hb⟩ hm, Option.bind_eq_bind, Option.bind_some]
  cases nameMatches s name b with
  | true => rw [if_pos rfl, Bool.true_and, h.meets_eq stray ⟨_, hb⟩]
  | false => rfl

end Search

/-! ## Creating what is missing -/

/-- A result that is a node of the document it leaves, if there is one. -/
def Arrives (s : State) (F : Shape) (r : Option (Option ℕ × State)) : Prop :=
  ∃ nod s' F', r = some (nod, s') ∧ Evolves s F s' F' ∧ ∀ a, nod = some a → F'.Live a

section Create
variable {s : State} {F : Shape} (stray : List UInt8 → List UInt8 → Bool)

lemma Sound.stays (h : Sound s F) {nod : Option ℕ} (hnod : ∀ a, nod = some a → F.Live a) :
    Arrives s F (some (nod, s)) := ⟨nod, s, F, rfl, .refl h, hnod⟩

lemma Arrives.bind {r : Option (Option ℕ × State)} (h : Arrives s F r)
    {f : Option ℕ × State → Option (Option ℕ × State)}
    (hf : ∀ nod s' F', Sound s' F' → (∀ a, nod = some a → F'.Live a) →
      Arrives s' F' (f (nod, s'))) : Arrives s F (r.bind f) := by
  obtain ⟨nod, s₁, F₁, rfl, hevolves, hlive⟩ := h
  obtain ⟨nod', s₂, F₂, heq, hevolves', hlive'⟩ := hf nod s₁ F₁ hevolves.sound hlive
  exact ⟨nod', s₂, F₂, heq, hevolves.trans hevolves', hlive'⟩

/-- The lists after a child or an attribute was created. -/
def Shape.push (F : Shape) (a : ℕ) (t : BXML_NODE_TYPE) (x : ℕ) : Shape :=
  F.insert (some (a, t)) [] x (F.nodes (some (a, t)))

lemma Sound.createNamed_evolves (h : Sound s F) {a : ℕ} (ha : F.Live a) (t : BXML_NODE_TYPE)
    (name : List UInt8) :
    ∃ s', createNamed served t s a name = some (s.requests, s') ∧
      Grows s s' (some (a, t)) none s.requests (F.nodes (some (a, t))).head? name ∧
      Evolves s F s' (F.push a t s.requests) := by
  obtain ⟨s', hcreate, hg⟩ := createNamed_grows h ha t name
  refine ⟨s', hcreate, hg, h.grow_evolves hg (List.nil_append _).symm ?_ nofun (h.rooted a ha)⟩
  intro b t' heq
  cases heq
  exact ha

lemma Shape.push_live (F : Shape) (a : ℕ) (t : BXML_NODE_TYPE) (x : ℕ) : (F.push a t x).Live x :=
  live_insert (List.nil_append _).symm

lemma Sound.getAttrnode_found (h : Sound s F) {a b : ℕ} (ha : F.Live a) {name : List UInt8}
    (hattr : attrOf s F a name = some b) (create : Bool) :
    getAttrnode served s a name create = some (some b, s) := by
  rw [getAttrnode, h.findAttr_eq ha, Option.bind_eq_bind, Option.bind_some, hattr]

lemma Sound.getAttrnode_missing (h : Sound s F) {a : ℕ} (ha : F.Live a) {name : List UInt8}
    (hattr : attrOf s F a name = none) {s' : State} {x : ℕ}
    (hcreate : createNamed served .attribute s a name = some (x, s')) :
    getAttrnode served s a name true = some (some x, s') := by
  rw [getAttrnode, h.findAttr_eq ha, Option.bind_eq_bind, Option.bind_some, hattr]
  simp only [if_true, hcreate, Option.bind_eq_bind, Option.bind_some]

lemma Sound.attrOf_live {a b : ℕ} {name : List UInt8} (h : attrOf s F a name = some b) : F.Live b :=
  ⟨_, List.mem_of_find?_eq_some h⟩

lemma Sound.getAttrnode_creates (h : Sound s F) {a : ℕ} (ha : F.Live a) (name : List UInt8) :
    ∃ b s' F', getAttrnode served s a name true = some (some b, s') ∧ Evolves s F s' F' ∧
      F'.Live b := by
  cases hattr : attrOf s F a name with
  | some b =>
    exact ⟨b, s, F, h.getAttrnode_found ha hattr true, .refl h, Sound.attrOf_live hattr⟩
  | none =>
    obtain ⟨s', hcreate, -, hevolves⟩ := h.createNamed_evolves ha .attribute name
    exact ⟨_, s', _, h.getAttrnode_missing ha hattr hcreate, hevolves,
      F.push_live a .attribute s.requests⟩

lemma Sound.getAttrnode_arrives (h : Sound s F) {a : ℕ} (ha : F.Live a) (name : List UInt8) :
    Arrives s F (getAttrnode served s a name true) := by
  obtain ⟨b, s', F', heq, hevolves, hlive⟩ := h.getAttrnode_creates ha name
  exact ⟨some b, s', F', heq, hevolves, fun c hc => by cases hc; exact hlive⟩

/-- A string that is given to a node. -/
lemma giveString_served (s : State) {a : ℕ} {n : BXML_NODE} (hn : s.node a = some n)
    (str : List UInt8) (hstr : str.length + 1 < 2 ^ 32) :
    ∃ s', giveString served s a str = some s' ∧ s'.xml = s.xml ∧ s'.requests = s.requests + 1 ∧
      s'.node a = some { n with valueLen := UInt32.ofNat str.length, value := some (str ++ [0]) } ∧
      ∀ b, b ≠ a → s'.node b = s.node b := by
  have hsize : (UInt32.ofNat str.length + 1).toNat = str.length + 1 := by
    rw [UInt32.toNat_add, UInt32.toNat_ofNat']
    simp only [UInt32.toNat_one]
    omega
  refine ⟨{ s.setNode a { n with
    valueLen := UInt32.ofNat str.length, value := some (str ++ [0]) } with
    requests := s.requests + 1 }, ?_, rfl, rfl, node_setNode_self .., fun b hb => ?_⟩
  · simp only [giveString, modify_eq hn, Option.bind_eq_bind, Option.bind_some,
      copyString_served _ _ hsize]
    rw [State.modify]
    simp [State.setNode]
  · exact node_setNode_ne _ _ hb

/-- Only the value of the node `a` may be another one. -/
lemma Sound.sameLinks_of (h : Sound s F) {s' : State} {a : ℕ} {n : BXML_NODE}
    (hn : s.node a = some n) (hxml : s'.xml = s.xml) (hreq : s.requests ≤ s'.requests)
    {len : UInt32} {value : Option (List UInt8)}
    (ha : s'.node a = some { n with valueLen := len, value := value })
    (hother : ∀ b, b ≠ a → s'.node b = s.node b) : Evolves s F s' F := by
  refine h.sameLinks ⟨hxml, fun b m hm => ?_, fun b => ?_⟩
  · refine lt_of_lt_of_le ?_ hreq
    by_cases hb : b = a
    · rw [hb]
      exact h.alloc a n hn
    · rw [hother b hb] at hm
      exact h.alloc b m hm
  · by_cases hb : b = a
    · rw [hb, ha, hn]
      rfl
    · rw [hother b hb]

lemma Sound.giveString_evolves (h : Sound s F) {a : ℕ} (ha : F.Live a) (str : List UInt8)
    (hstr : str.length + 1 < 2 ^ 32) :
    ∃ s', giveString served s a str = some s' ∧ Evolves s F s' F ∧
      (s'.node a).bind BXML_NODE.value = some (str ++ [0]) := by
  obtain ⟨n, hn⟩ := Option.ne_none_iff_exists'.mp (h.node_ne_none ha)
  obtain ⟨s', hgive, hxml, hreq, hnode, hother⟩ := giveString_served s hn str hstr
  exact ⟨s', hgive, h.sameLinks_of hn hxml (by omega) hnode hother, by rw [hnode]; rfl⟩

lemma Sound.createConditions_evolves (h : Sound s F) {a : ℕ} (ha : F.Live a)
    {conds : List Condition} (hconds : ∀ c ∈ conds, c.2.length + 1 < 2 ^ 32) :
    ∃ s' F', createConditions served s a conds = some s' ∧ Evolves s F s' F' := by
  induction conds generalizing s F with
  | nil => exact ⟨s, F, rfl, .refl h⟩
  | cons cond conds ih =>
    obtain ⟨key, value⟩ := cond
    obtain ⟨hvalue, hconds⟩ := List.forall_mem_cons.mp hconds
    obtain ⟨b, s₁, F₁, hget, hevolves₁, hlive₁⟩ := h.getAttrnode_creates ha key
    obtain ⟨s₂, hgive, hevolves₂, hvalue₂⟩ :=
      hevolves₁.sound.giveString_evolves hlive₁ value hvalue
    obtain ⟨n, hn, hblock⟩ := Option.bind_eq_some_iff.mp hvalue₂
    obtain ⟨s₃, F₃, hrest, hevolves₃⟩ := ih hevolves₂.sound (hevolves₁.live a ha) hconds
    refine ⟨s₃, F₃, ?_, (hevolves₁.trans hevolves₂).trans hevolves₃⟩
    simp only [createConditions, hget, hgive, hn, hblock, hrest, Option.bind_eq_bind,
      Option.bind_some]

lemma Sound.searchChildnode_arrives (h : Sound s F) {a : ℕ} (ha : F.Live a) (name : List UInt8)
    {conds : List Condition} (hconds : ∀ c ∈ conds, c.2.length + 1 < 2 ^ 32) :
    Arrives s F (searchChildnode served stray s a name conds true) := by
  rw [searchChildnode, h.findChild_eq stray ha, Option.bind_eq_bind, Option.bind_some]
  cases hchild : childOf stray s F a name conds with
  | some b =>
    refine h.stays fun c hc => ?_
    cases hc
    exact ⟨_, List.mem_of_find?_eq_some hchild⟩
  | none =>
    obtain ⟨s₁, hcreate, -, hevolves₁⟩ := h.createNamed_evolves ha .node name
    have hlive := F.push_live a .node s.requests
    obtain ⟨s₂, F₂, hrest, hevolves₂⟩ := hevolves₁.sound.createConditions_evolves hlive hconds
    refine ⟨some s.requests, s₂, F₂, ?_, hevolves₁.trans hevolves₂, fun c hc => ?_⟩
    · simp only [if_true, hcreate, hrest, Option.bind_eq_bind, Option.bind_some]
    · cases hc
      exact hevolves₂.live _ hlive

lemma Sound.parent_live (h : Sound s F) {a p : ℕ} (ha : F.Live a) {n : BXML_NODE}
    (hn : s.node a = some n) (hp : n.nodeParent = some p) : F.Live p := by
  obtain ⟨i, hi⟩ := ha
  obtain ⟨n', hn', hparent, -⟩ := h.node i a hi
  obtain rfl := Option.some.inj (hn.symm.trans hn')
  rw [hp] at hparent
  obtain ⟨⟨q, t⟩, rfl, hq⟩ := Option.map_eq_some_iff.mp hparent.symm
  obtain rfl : q = p := hq
  exact h.owner q t (List.ne_nil_of_mem hi)

lemma Sound.specialNode_live (h : Sound s F) {a b : ℕ} (ha : F.Live a) {n : BXML_NODE}
    (hn : s.node a = some n) {name : List UInt8} (hb : specialNode n a name = some b) :
    F.Live b := by
  unfold specialNode at hb
  split at hb
  · cases hchild : n.nodeChild with
    | none =>
      rw [hchild] at hb
      cases hb
      exact ha
    | some c =>
      rw [hchild] at hb
      cases hb
      have hhead := h.head_live ha hn .node
      rw [h.head_eq] at hhead
      exact ⟨_, List.mem_of_head? (hhead.symm.trans hchild)⟩
  · split at hb
    · cases hparent : n.nodeParent with
      | none =>
        rw [hparent] at hb
        cases hb
        exact ha
      | some p =>
        rw [hparent] at hb
        cases hb
        exact h.parent_live ha hn hparent
    · split at hb
      · cases hb
        exact ha
      · cases hb

/-! ## Paths -/

lemma strchr_eq_some {c : UInt8} {text a b : List UInt8} (h : strchr c text = some (a, b)) :
    text = a ++ c :: b ∧ c ∉ a := by
  induction text generalizing a with
  | nil => cases h
  | cons d text ih =>
    rw [strchr] at h
    split at h
    · rename_i hd
      cases h
      exact ⟨by rw [hd, List.nil_append], List.not_mem_nil⟩
    · rename_i hd
      obtain ⟨⟨a', b'⟩, hr, heq⟩ := Option.map_eq_some_iff.mp h
      cases heq
      obtain ⟨rfl, hc⟩ := ih hr
      refine ⟨rfl, ?_⟩
      rw [List.mem_cons, not_or]
      exact ⟨Ne.symm hd, hc⟩

lemma strchr_length {c : UInt8} {text a b : List UInt8} (h : strchr c text = some (a, b)) :
    a.length + b.length + 1 = text.length := by
  rw [(strchr_eq_some h).1, List.length_append, List.length_cons]
  omega

lemma readConditions_length {room : ℕ} {word rest : List UInt8} {c : Condition}
    (hc : c ∈ readConditions room word rest) : c.2.length ≤ word.length + rest.length := by
  induction rest generalizing room word with
  | nil =>
    cases room with
    | zero => cases hc
    | succ room =>
      have hlength := strchr_length (Option.mem_toList.mp hc)
      omega
  | cons d rest ih =>
    cases room with
    | zero => cases hc
    | succ room =>
      rw [readConditions] at hc
      rw [List.length_cons]
      split at hc
      · split at hc
        · have hlength := ih hc
          rw [List.length_nil] at hlength
          omega
        · rename_i cond hcond
          rcases List.mem_cons.mp hc with rfl | hc
          · have hlength := strchr_length hcond
            omega
          · have hlength := ih hc
            rw [List.length_nil] at hlength
            omega
      · have hlength := ih hc
        rw [List.length_append, List.length_singleton] at hlength
        omega

lemma Sound.getChildnode_arrives (h : Sound s F) {a : ℕ} (ha : F.Live a) (name : List UInt8)
    {condition : Option (List UInt8)}
    (hcondition : ∀ text, condition = some text → text.length < MAX_SEGMENT) :
    Arrives s F (getChildnode served stray s a name condition true) := by
  cases condition with
  | none =>
    obtain ⟨n, hn⟩ := Option.ne_none_iff_exists'.mp (h.node_ne_none ha)
    simp only [getChildnode, hn, Option.bind_eq_bind, Option.bind_some]
    cases hspecial : specialNode n a name with
    | none => exact h.searchChildnode_arrives stray ha name nofun
    | some b =>
      refine h.stays fun c hc => ?_
      cases hc
      exact h.specialNode_live ha hn hspecial
  | some text =>
    refine h.searchChildnode_arrives stray ha name fun c hc => ?_
    have hlength := readConditions_length hc
    have htext := hcondition text rfl
    rw [List.length_nil] at hlength
    unfold MAX_SEGMENT at htext
    omega

/-- One segment of a path. -/
lemma Sound.enter_arrives (h : Sound s F) {a : ℕ} (ha : F.Live a) (segment : List UInt8) :
    Arrives s F (enter served stray s a segment true) := by
  rw [enter]
  split
  · rename_i hlength
    cases hquestion : strchr question segment with
    | some r =>
      obtain ⟨name, condition⟩ := r
      have hsplit := strchr_length hquestion
      have hcondition : ∀ text, some condition = some text → text.length < MAX_SEGMENT := by
        intro text heq
        cases heq
        omega
      dsimp only
      split
      · exact h.getChildnode_arrives stray ha name hcondition
      · obtain ⟨n, hn⟩ := Option.ne_none_iff_exists'.mp (h.node_ne_none ha)
        simp only [hn, Option.bind_eq_bind, Option.bind_some]
        cases hparent : n.nodeParent with
        | none => exact h.stays fun b hb => by cases hb; exact ha
        | some p =>
          obtain ⟨i, hi⟩ := ha
          obtain ⟨n', hn', -, -, block, text, hblock, htext⟩ := h.node i a hi
          obtain rfl := Option.some.inj (hn.symm.trans hn')
          simp only [hblock, htext, Option.bind_some]
          exact h.getChildnode_arrives stray (h.parent_live ⟨i, hi⟩ hn hparent) text hcondition
    | none =>
      cases hcolon : strchr colon segment with
      | none => exact h.getChildnode_arrives stray ha segment nofun
      | some r =>
        obtain ⟨name, attr⟩ := r
        have hattr : ∀ nod s' F', Sound s' F' → (∀ b, nod = some b → F'.Live b) →
            Arrives s' F' (enterAttr served s' nod attr true) := by
          intro nod s' F' hsound hlive
          cases nod with
          | none => exact hsound.stays nofun
          | some b => exact hsound.getAttrnode_arrives (hlive b rfl) attr
        have hstays : Arrives s F (some (some a, s)) := h.stays fun b hb => by cases hb; exact ha
        have hchild : Arrives s F (getChildnode served stray s a name none true) :=
          h.getChildnode_arrives stray ha name nofun
        dsimp only
        split
        · exact hchild.bind hattr
        · exact hstays.bind hattr
  · exact h.stays fun b hb => by cases hb; exact ha

lemma Sound.walk_arrives (h : Sound s F) {nod : Option ℕ} (hnod : ∀ a, nod = some a → F.Live a)
    (word rest : List UInt8) : Arrives s F (walk served stray true s nod word rest) := by
  induction rest generalizing s F nod word with
  | nil =>
    cases nod with
    | none => exact h.stays nofun
    | some a => exact h.enter_arrives stray (hnod a rfl) word
  | cons c rest ih =>
    cases nod with
    | none => exact h.stays nofun
    | some a =>
      rw [walk]
      split
      · exact (h.enter_arrives stray (hnod a rfl) word).bind fun nod s' F' hsound hlive =>
          ih hsound hlive []
      · exact ih h hnod (word ++ [c])

lemma Sound.root_live (h : Sound s F) {a : ℕ} (ha : s.xml.nodeRoot = some a) : F.Live a := by
  rw [← h.root, h.head_eq] at ha
  exact ⟨none, List.mem_of_head? ha⟩

lemma Sound.parsePath_arrives (h : Sound s F) (path : List UInt8) :
    Arrives s F (parsePath served stray s path true) := by
  cases path with
  | nil => exact h.walk_arrives stray (h.cur) [] []
  | cons c rest =>
    rw [parsePath]
    split
    · exact h.walk_arrives stray (fun a ha => h.root_live ha) [] rest
    · exact h.walk_arrives stray (h.cur) [] (c :: rest)

end Create

end Sgos.BxmlPath
