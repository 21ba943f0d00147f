import Mathlib.Data.List.Find
import Sgos.BxmlPathText

/-!
# What a search sees of a document

A search looks at the names of the children of a node and at the values of their attributes. A node
that is created farther down is not seen by the searches that lead to it, and a node that was
created for a segment is found by the next search for it if its conditions agree with each other.
-/
namespace Sgos.BxmlPath
open ByteBuffer CString Bxml Xml LinkedChain

variable {s s' s'' : State} {F F' F'' : Shape}

/-! ## Comparing names -/

lemma strncmp_true {block v : List UInt8} (hv : (0 : UInt8) ∉ v)
    (h : strncmp block (v ++ [0]) (v.length + 1) = some true) : cstring block = some v := by
  induction v generalizing block with
  | nil =>
    cases block with
    | nil => cases h
    | cons c block =>
      rw [List.nil_append, List.length_nil, strncmp] at h
      by_cases hc : c = 0
      · rw [cstring, if_pos hc]
      · rw [if_pos hc] at h
        cases h
  | cons b v ih =>
    rw [List.mem_cons, not_or] at hv
    cases block with
    | nil => cases h
    | cons c block =>
      rw [List.cons_append, List.length_cons, strncmp] at h
      by_cases hcb : c = b
      · have hc : c ≠ 0 := fun hc => hv.1 (hc.symm.trans hcb)
        rw [if_neg (not_not.mpr hcb), if_neg hc] at h
        rw [cstring, if_neg hc, ih hv.2 h, Option.map_some, hcb]
      · rw [if_pos hcb] at h
        cases h

/-- The string in a block is the one it compares equal to. -/
lemma cstring_of_strcmp {block v : List UInt8} (hv : (0 : UInt8) ∉ v)
    (h : strcmp block v = some true) : cstring block = some v := strncmp_true hv h

lemma strcmp_self (v : List UInt8) : strcmp (v ++ [0]) v = some true := by
  have hself := strncmp_prefix (v ++ [0]) [] []
  rwa [List.append_nil, List.length_append, List.length_singleton] at hself

lemma strcmp_block {w v : List UInt8} (hw : (0 : UInt8) ∉ w) (hv : (0 : UInt8) ∉ v) :
    strcmp (w ++ [0]) v = some (decide (w = v)) := by
  have htext := cstring_append hw []
  by_cases heq : w = v
  · rw [heq, strcmp_self, decide_eq_true rfl]
  · obtain ⟨b, hb⟩ := exists_strcmp htext v
    cases b with
    | false => rw [hb, decide_eq_false heq]
    | true =>
      have hsame := cstring_of_strcmp hv hb
      rw [htext] at hsame
      exact absurd (Option.some.inj hsame) heq

lemma nameMatches_eq (s : State) (name : List UInt8) (a : ℕ) : nameMatches s name a =
    (((labelOf s a).bind fun l => l.2.1.bind fun b => strcmp b name).getD false) := by
  rw [nameMatches, labelOf]
  cases s.node a <;> rfl

lemma nameMatches_congr {a : ℕ} (h : labelOf s' a = labelOf s a) (name : List UInt8) :
    nameMatches s' name a = nameMatches s name a := by
  rw [nameMatches_eq, nameMatches_eq, h]

/-- The block of a name that is short enough for its length to be stored. -/
lemma nameMatches_new {a : ℕ} {name : List UInt8} (hlen : name.length < 256)
    (hno : (0 : UInt8) ∉ name) {p : Option ℕ} (h : labelOf s a =
      some (p, some (name.take (UInt8.ofNat name.length).toNat ++ [0]), 0, none))
    {key : List UInt8} (hkey : (0 : UInt8) ∉ key) :
    nameMatches s key a = decide (name = key) := by
  have htake : name.take (UInt8.ofNat name.length).toNat = name := by
    rw [UInt8.toNat_ofNat', Nat.mod_eq_of_lt hlen, List.take_length]
  rw [nameMatches_eq, h, htake, Option.bind_some, Option.bind_some, strcmp_block hno hkey,
    Option.getD_some]

/-! ## What conditions look at -/

/-- The block of the attribute with a key. -/
def valueAt (s : State) (F : Shape) (a : ℕ) (key : List UInt8) : Option (List UInt8) :=
  (attrOf s F a key).bind fun b => (s.node b).bind BXML_NODE.value

/-- Whether a block is compared equal to a value. -/
def compared (stray : List UInt8 → List UInt8 → Bool) (value : List UInt8) :
    Option (List UInt8) → Bool
  | none => false
  | some block => (strcmp block value).getD (stray block value)

lemma condMet_eq (stray : List UInt8 → List UInt8 → Bool) (s : State) (F : Shape) (a : ℕ)
    (cond : Condition) : condMet stray s F a cond = compared stray cond.2 (valueAt s F a cond.1) := by
  rw [condMet, valueAt]
  cases attrOf s F a cond.1 with
  | none => rfl
  | some b =>
    rw [Option.any_some, Option.bind_some, valueMatches]
    cases (s.node b).bind BXML_NODE.value <;> rfl

lemma value_congr {a : ℕ} (h : labelOf s' a = labelOf s a) :
    (s'.node a).bind BXML_NODE.value = (s.node a).bind BXML_NODE.value := by
  have hlabel (t : State) : (t.node a).bind BXML_NODE.value =
      (labelOf t a).bind fun l => l.2.2.2 := by
    rw [labelOf]
    cases t.node a <;> rfl
  rw [hlabel, hlabel, h]

/-- The attributes of a node are what they were if its list and the labels in it are. -/
lemma valueAt_congr {a : ℕ}
    (hnodes : F'.nodes (some (a, .attribute)) = F.nodes (some (a, .attribute)))
    (hlabel : ∀ b ∈ F.nodes (some (a, .attribute)), labelOf s' b = labelOf s b)
    (key : List UInt8) : valueAt s' F' a key = valueAt s F a key := by
  have hattr : attrOf s' F' a key = attrOf s F a key := by
    rw [attrOf, attrOf, hnodes]
    exact List.find?_congr fun b hb => nameMatches_congr (hlabel b hb) key
  rw [valueAt, valueAt, hattr]
  cases h : attrOf s F a key with
  | none => rfl
  | some b => exact value_congr (hlabel b (List.mem_of_find?_eq_some h))

/-! ## Giving a value to an attribute -/

/-- The attribute `b` of the node `a` with the key got the string; it may be a new node. -/
structure AttrSet (s : State) (F : Shape) (a : ℕ) (key str : List UInt8) (b : ℕ) (s' : State)
    (F' : Shape) : Prop where
  evolves : Evolves s F s' F'
  requests : s.requests ≤ s'.requests
  mem : b ∈ F'.nodes (some (a, .attribute))
  attrs : F'.nodes (some (a, .attribute)) = F.nodes (some (a, .attribute)) ∨
    b = s.requests ∧ F'.nodes (some (a, .attribute)) = b :: F.nodes (some (a, .attribute))
  nodes : ∀ i, i ≠ some (a, .attribute) → F'.nodes i = F.nodes i
  label : ∀ c, c ≠ b → labelOf s' c = labelOf s c
  attr : attrOf s' F' a key = some b
  value : (s'.node b).bind BXML_NODE.value = some (str ++ [0])
  other : ∀ key', (0 : UInt8) ∉ key' → key' ≠ key → valueAt s' F' a key' = valueAt s F a key'

lemma AttrSet.valueAt_self {a b : ℕ} {key str : List UInt8} (h : AttrSet s F a key str b s' F') :
    valueAt s' F' a key = some (str ++ [0]) := by
  rw [valueAt, h.attr, Option.bind_some, h.value]

/-- Two keys do not name one node. -/
lemma Sound.key_unique (h : Sound s F) {a : ℕ} (ha : F.Live a) {key key' : List UInt8}
    (hkey : (0 : UInt8) ∉ key) (hkey' : (0 : UInt8) ∉ key') (hmatch : nameMatches s key a = true)
    (hmatch' : nameMatches s key' a = true) : key = key' := by
  obtain ⟨i, hi⟩ := ha
  obtain ⟨n, hn, -, -, block, text, hblock, -⟩ := h.node i a hi
  have hname (k : List UInt8) (hk : (0 : UInt8) ∉ k) (hm : nameMatches s k a = true) :
      cstring block = some k := by
    rw [nameMatches, hn, Option.bind_some, nameIs, hblock, Option.bind_some] at hm
    apply cstring_of_strcmp hk
    cases hc : strcmp block k with
    | none =>
      rw [hc] at hm
      cases hm
    | some r =>
      rw [hc] at hm
      exact congrArg some hm
  exact Option.some.inj ((hname key hkey hmatch).symm.trans (hname key' hkey' hmatch'))

/-- Only the value of a node changes when it gets a string. -/
lemma giveString_label {b : ℕ} {n : BXML_NODE} (hn : s.node b = some n) (str : List UInt8)
    (hstr : str.length + 1 < 2 ^ 32) :
    ∃ s', giveString served s b str = some s' ∧ s'.requests = s.requests + 1 ∧
      (s'.node b).bind BXML_NODE.value = some (str ++ [0]) ∧
      (∀ c, c ≠ b → s'.node c = s.node c) ∧
      ∀ c name, nameMatches s' name c = nameMatches s name c := by
  obtain ⟨s', hgive, -, hreq, hnode, hother⟩ := giveString_served s hn str hstr
  refine ⟨s', hgive, hreq, by rw [hnode]; rfl, hother, fun c name => ?_⟩
  by_cases hc : c = b
  · rw [hc, nameMatches, nameMatches, hnode, hn]
    rfl
  · rw [nameMatches, nameMatches, hother c hc]

lemma Sound.setAttr (h : Sound s F) {a : ℕ} (ha : F.Live a) {key : List UInt8}
    (hkey : (0 : UInt8) ∉ key) (hlen : key.length < 256) (str : List UInt8)
    (hstr : str.length + 1 < 2 ^ 32) :
    ∃ b s₁ s₂ F', getAttrnode served s a key true = some (some b, s₁) ∧
      giveString served s₁ b str = some s₂ ∧ AttrSet s F a key str b s₂ F' ∧
      (attrOf s F a key = some b ∧ s₁ = s ∨ attrOf s F a key = none ∧ b = s.requests) := by
  cases hattr : attrOf s F a key with
  | some b =>
    have hmem := List.mem_of_find?_eq_some hattr
    have hb : F.Live b := ⟨_, hmem⟩
    obtain ⟨n, hn⟩ := Option.ne_none_iff_exists'.mp (h.node_ne_none hb)
    obtain ⟨s₂, hgive, hreq, hvalue, hother, hname⟩ := giveString_label hn str hstr
    obtain ⟨s₂', hgive', hevolves, -⟩ := h.giveString_evolves hb str hstr
    cases hgive.symm.trans hgive'
    have hsame (key' : List UInt8) : attrOf s₂ F a key' = attrOf s F a key' := by
      rw [attrOf, attrOf]
      exact List.find?_congr fun c _ => hname c key'
    refine ⟨b, s, s₂, F, h.getAttrnode_found ha hattr true, hgive, ?_, .inl ⟨rfl, rfl⟩⟩
    refine ⟨hevolves, by omega, hmem, .inl rfl, fun i _ => rfl, fun c hc => ?_, ?_, hvalue, ?_⟩
    · rw [labelOf, labelOf, hother c hc]
    · rw [hsame, hattr]
    · intro key' hkey' hne
      rw [valueAt, valueAt, hsame]
      cases hattr' : attrOf s F a key' with
      | none => rfl
      | some c =>
        have hc : c ≠ b := by
          rintro rfl
          exact hne (h.key_unique hb hkey' hkey (List.find?_some hattr') (List.find?_some hattr))
        rw [Option.bind_some, Option.bind_some, hother c hc]
  | none =>
    obtain ⟨s₁, hcreate, hg, hevolves₁⟩ := h.createNamed_evolves ha .attribute key
    have hlive := F.push_live a .attribute s.requests
    obtain ⟨n, hn⟩ := Option.ne_none_iff_exists'.mp (hevolves₁.sound.node_ne_none hlive)
    obtain ⟨s₂, hgive, hreq, hvalue, hother, hname⟩ := giveString_label hn str hstr
    obtain ⟨s₂', hgive', hevolves₂, -⟩ := hevolves₁.sound.giveString_evolves hlive str hstr
    cases hgive.symm.trans hgive'
    have hold (c : ℕ) (hc : F.Live c) : c ≠ s.requests := by
      rintro rfl
      exact h.node_ne_none hc h.new
    have hlist : (F.push a .attribute s.requests).nodes (some (a, .attribute)) =
        s.requests :: F.nodes (some (a, .attribute)) := Function.update_self ..
    have hfind (key' : List UInt8) (hkey' : (0 : UInt8) ∉ key') :
        attrOf s₂ (F.push a .attribute s.requests) a key' =
          if key = key' then some s.requests else attrOf s F a key' := by
      have hnew : nameMatches s₂ key' s.requests = decide (key = key') := by
        rw [hname]
        exact nameMatches_new hlen hkey hg.labelNew hkey'
      rw [attrOf, hlist]
      split_ifs with hsame
      · exact List.find?_cons_of_pos (by rw [hnew, decide_eq_true hsame])
      · rw [List.find?_cons_of_neg (by rw [hnew, decide_eq_false hsame]; exact Bool.false_ne_true)]
        refine List.find?_congr fun c hc => ?_
        rw [hname, nameMatches_congr (hg.label c (hold c ⟨_, hc⟩))]
    refine ⟨s.requests, s₁, s₂, F.push a .attribute s.requests,
      h.getAttrnode_missing ha hattr hcreate, hgive, ?_, .inr ⟨rfl, rfl⟩⟩
    refine ⟨hevolves₁.trans hevolves₂, ?_, by rw [hlist]; exact List.mem_cons_self,
      .inr ⟨rfl, hlist⟩, fun i hi => Function.update_of_ne hi _ _, fun c hc => ?_, ?_, hvalue, ?_⟩
    · have hlt := hg.alloc s.requests n hn
      omega
    · rw [labelOf, hother c hc, ← labelOf, hg.label c hc]
    · rw [hfind key hkey, if_pos rfl]
    · intro key' hkey' hne
      rw [valueAt, valueAt, hfind key' hkey', if_neg (Ne.symm hne)]
      cases hattr' : attrOf s F a key' with
      | none => rfl
      | some c =>
        have hc := hold c (Sound.attrOf_live hattr')
        rw [Option.bind_some, Option.bind_some, hother c hc, value_congr (hg.label c hc)]

/-! ## Conditions -/

/-- The value that is given to a key last. -/
def lastGiven : List Condition → List UInt8 → Option (List UInt8)
  | [], _ => none
  | cond :: conds, key => (lastGiven conds key).or (if cond.1 = key then some cond.2 else none)

/-- Conditions on one key ask for one value. -/
def Consistent (conds : List Condition) : Prop :=
  ∀ cond ∈ conds, ∀ cond' ∈ conds, cond.1 = cond'.1 → cond.2 = cond'.2

instance (conds : List Condition) : Decidable (Consistent conds) := inferInstanceAs
  (Decidable (∀ cond ∈ conds, ∀ cond' ∈ conds, cond.1 = cond'.1 → cond.2 = cond'.2))

lemma mem_of_lastGiven {conds : List Condition} {key v : List UInt8}
    (h : lastGiven conds key = some v) : (key, v) ∈ conds := by
  induction conds with
  | nil => cases h
  | cons cond conds ih =>
    rw [lastGiven] at h
    cases hrest : lastGiven conds key with
    | some w =>
      rw [hrest] at h
      rw [hrest, show w = v from Option.some.inj h] at ih
      exact List.mem_cons_of_mem cond (ih rfl)
    | none =>
      rw [hrest, Option.none_or] at h
      obtain ⟨hkey, hvalue⟩ := Option.ite_none_right_eq_some.mp h
      rw [← hkey, ← Option.some.inj hvalue]
      exact List.mem_cons_self

lemma exists_lastGiven {conds : List Condition} {cond : Condition} (h : cond ∈ conds) :
    ∃ v, lastGiven conds cond.1 = some v := by
  induction conds with
  | nil => cases h
  | cons c conds ih =>
    rw [lastGiven]
    cases hrest : lastGiven conds cond.1 with
    | some w => exact ⟨w, rfl⟩
    | none =>
      rcases List.mem_cons.mp h with rfl | h
      · exact ⟨cond.2, by rw [Option.none_or, if_pos rfl]⟩
      · obtain ⟨w, hw⟩ := ih h
        rw [hrest] at hw
        cases hw

lemma consistent_iff (conds : List Condition) :
    Consistent conds ↔ ∀ cond ∈ conds, lastGiven conds cond.1 = some cond.2 := by
  constructor
  · intro h cond hcond
    obtain ⟨v, hv⟩ := exists_lastGiven hcond
    exact hv.trans (congrArg some (h (cond.1, v) (mem_of_lastGiven hv) cond hcond rfl))
  · intro h cond hcond cond' hcond' hkey
    have heq := h cond hcond
    rw [hkey, h cond' hcond'] at heq
    exact (Option.some.inj heq).symm

/-- Keys and values of a segment that fits in `tmp`. -/
def Short (conds : List Condition) : Prop :=
  ∀ cond ∈ conds, (0 : UInt8) ∉ cond.1 ∧ cond.1.length < 256 ∧ (0 : UInt8) ∉ cond.2 ∧
    cond.2.length + 1 < 2 ^ 32

/-- The attributes of the node `x` got values that meet the conditions, as far as later ones do not
replace them. -/
structure CondsSet (s : State) (F : Shape) (x : ℕ) (conds : List Condition) (s' : State)
    (F' : Shape) : Prop where
  evolves : Evolves s F s' F'
  requests : s.requests ≤ s'.requests
  attrs : ∀ b ∈ F'.nodes (some (x, .attribute)), b ∈ F.nodes (some (x, .attribute)) ∨ s.requests ≤ b
  keeps : ∀ b ∈ F.nodes (some (x, .attribute)), b ∈ F'.nodes (some (x, .attribute))
  nodes : ∀ i, i ≠ some (x, .attribute) → F'.nodes i = F.nodes i
  label : ∀ c, c ∉ F'.nodes (some (x, .attribute)) → labelOf s' c = labelOf s c
  value : ∀ key, (0 : UInt8) ∉ key → valueAt s' F' x key =
    ((lastGiven conds key).map (· ++ [0])).or (valueAt s F x key)

lemma Sound.setConditions (h : Sound s F) {x : ℕ} (hx : F.Live x) {conds : List Condition}
    (hconds : Short conds) :
    ∃ s' F', createConditions served s x conds = some s' ∧ CondsSet s F x conds s' F' := by
  induction conds generalizing s F with
  | nil =>
    exact ⟨s, F, rfl, .refl h, le_rfl, fun b hb => .inl hb, fun b hb => hb, fun i _ => rfl,
      fun c _ => rfl, fun key _ => rfl⟩
  | cons cond conds ih =>
    obtain ⟨⟨hkey, hlen, hno, hvalue⟩, hconds⟩ := List.forall_mem_cons.mp hconds
    obtain ⟨b, s₁, s₂, F₂, hget, hgive, hset, -⟩ := h.setAttr hx hkey hlen cond.2 hvalue
    obtain ⟨s', F', hrest, hset'⟩ := ih hset.evolves.sound (hset.evolves.live x hx) hconds
    obtain ⟨n, hn, hblock⟩ := Option.bind_eq_some_iff.mp hset.value
    refine ⟨s', F', ?_, hset.evolves.trans hset'.evolves, hset.requests.trans hset'.requests,
      fun c hc => ?_, fun c hc => hset'.keeps c ?_, fun i hi => (hset'.nodes i hi).trans
        (hset.nodes i hi), fun c hc => ?_, fun key hzero => ?_⟩
    · rw [createConditions, hget, Option.bind_eq_bind, Option.bind_some]
      simp only [hgive, hn, hblock, hrest, Option.bind_eq_bind, Option.bind_some]
    · rcases hset'.attrs c hc with hc | hc
      · rcases hset.attrs with heq | ⟨hb, heq⟩
        · exact .inl (heq ▸ hc)
        · rw [heq] at hc
          rcases List.mem_cons.mp hc with rfl | hc
          · exact .inr hb.ge
          · exact .inl hc
      · exact .inr (hset.requests.trans hc)
    · rcases hset.attrs with heq | ⟨-, heq⟩
      · rwa [heq]
      · rw [heq]
        exact List.mem_cons_of_mem b hc
    · have hcb : c ≠ b := by
        rintro rfl
        exact hc (hset'.keeps c hset.mem)
      rw [hset'.label c hc, hset.label c hcb]
    · rw [hset'.value key hzero, lastGiven]
      cases lastGiven conds key with
      | some v => rfl
      | none =>
        rw [Option.map_none, Option.none_or, Option.none_or]
        split_ifs with hsame
        · rw [← hsame, hset.valueAt_self, Option.map_some, Option.some_or]
        · rw [hset.other key hzero (Ne.symm hsame), Option.map_none, Option.none_or]

/-- The node meets the conditions exactly if they agree with each other. -/
lemma CondsSet.all_iff (stray : List UInt8 → List UInt8 → Bool) {x : ℕ} {conds : List Condition}
    (h : CondsSet s F x conds s' F') (hconds : Short conds) :
    conds.all (condMet stray s' F' x) = true ↔ Consistent conds := by
  rw [consistent_iff, List.all_eq_true]
  refine forall₂_congr fun cond hcond => ?_
  obtain ⟨hkey, -, hno, -⟩ := hconds cond hcond
  obtain ⟨v, hv⟩ := exists_lastGiven hcond
  have hv0 := (hconds _ (mem_of_lastGiven hv)).2.2.1
  rw [condMet_eq, h.value cond.1 hkey, hv, Option.map_some, Option.some_or, compared,
    strcmp_block hv0 hno, Option.getD_some, decide_eq_true_eq, Option.some.injEq]

/-! ## Depths -/

/-- How many steps a node is below the siblings of the root. -/
inductive Depth (F : Shape) : ℕ → ℕ → Prop
  | top {a : ℕ} (h : a ∈ F.nodes none) : Depth F a 0
  | child {a b d : ℕ} (h : Depth F a d) (hb : b ∈ F.nodes (some (a, .node))) : Depth F b (d + 1)

lemma Depth.live {a d : ℕ} (h : Depth F a d) : F.Live a := by
  cases h with
  | top h => exact ⟨_, h⟩
  | child h hb => exact ⟨_, hb⟩

/-- A node that has a depth is in no list of attributes. -/
lemma Depth.notMem_attrs (hF : Sound s F) {a d : ℕ} (h : Depth F a d) (b : ℕ) :
    a ∉ F.nodes (some (b, .attribute)) := by
  intro hb
  cases h with
  | top h => cases hF.family.apart _ _ a h hb
  | child h ha => cases hF.family.apart _ _ a ha hb

lemma Depth.unique (hF : Sound s F) {a d e : ℕ} (h : Depth F a d) (h' : Depth F a e) : d = e := by
  induction h generalizing e with
  | top h =>
    cases h' with
    | top h' => rfl
    | child h' hb => cases hF.family.apart _ _ _ h hb
  | child h hb ih =>
    cases h' with
    | top h' => cases hF.family.apart _ _ _ hb h'
    | child h' hb' =>
      cases hF.family.apart _ _ _ hb hb'
      rw [ih h']

lemma Depth.mono (hsub : ∀ i a, a ∈ F.nodes i → a ∈ F'.nodes i) {a d : ℕ} (h : Depth F a d) :
    Depth F' a d := by
  induction h with
  | top h => exact .top (hsub _ _ h)
  | child h hb ih => exact .child ih (hsub _ _ hb)

/-! ## What stays in sight -/

/-- The searches from the nodes of less than a depth see the same as before. -/
structure Agrees (s : State) (F : Shape) (s' : State) (F' : Shape) (d : ℕ) : Prop where
  nodes : ∀ b e, Depth F b e → e < d → F'.nodes (some (b, .node)) = F.nodes (some (b, .node))
  name : ∀ b e, Depth F b e → ∀ name, nameMatches s' name b = nameMatches s name b
  value : ∀ b e, Depth F b e → e ≤ d → ∀ key, (0 : UInt8) ∉ key →
    valueAt s' F' b key = valueAt s F b key

lemma Agrees.childOf_eq (stray : List UInt8 → List UInt8 → Bool) {d : ℕ} (h : Agrees s F s' F' d)
    {a e : ℕ} (ha : Depth F a e) (he : e < d) (name : List UInt8) {conds : List Condition}
    (hconds : Short conds) : childOf stray s' F' a name conds = childOf stray s F a name conds := by
  rw [childOf, childOf, h.nodes a e ha he]
  refine List.find?_congr fun b hb => ?_
  rw [h.name b (e + 1) (.child ha hb)]
  congr 1
  rw [Bool.eq_iff_iff, List.all_eq_true, List.all_eq_true]
  refine forall₂_congr fun cond hcond => ?_
  rw [condMet_eq, condMet_eq, h.value b (e + 1) (.child ha hb) he cond.1 (hconds cond hcond).1]

/-- Nodes were created at the depth `d + 1` or deeper. -/
structure Keeps (s : State) (F : Shape) (s' : State) (F' : Shape) (d : ℕ) : Prop where
  evolves : Evolves s F s' F'
  requests : s.requests ≤ s'.requests
  top : F'.nodes none = F.nodes none
  label : ∀ b < s.requests, labelOf s' b = labelOf s b
  nodes : ∀ b e, Depth F b e → e < d → F'.nodes (some (b, .node)) = F.nodes (some (b, .node))
  attrs : ∀ b, F.Live b → F'.nodes (some (b, .attribute)) = F.nodes (some (b, .attribute))
  keeps : ∀ i a, a ∈ F.nodes i → a ∈ F'.nodes i

lemma Sound.live_lt (h : Sound s F) {a : ℕ} (ha : F.Live a) : a < s.requests := by
  obtain ⟨n, hn⟩ := Option.ne_none_iff_exists'.mp (h.node_ne_none ha)
  exact h.alloc a n hn

lemma Keeps.refl (h : Sound s F) (d : ℕ) : Keeps s F s F d :=
  ⟨.refl h, le_rfl, rfl, fun _ _ => rfl, fun _ _ _ _ => rfl, fun _ _ => rfl, fun _ _ ha => ha⟩

lemma Keeps.agrees (hF : Sound s F) {d : ℕ} (h : Keeps s F s' F' d) : Agrees s F s' F' d where
  nodes := h.nodes
  name b _ hb name := nameMatches_congr (h.label b (hF.live_lt hb.live)) name
  value b e hb _ key _ :=
    valueAt_congr (h.attrs b hb.live) (fun c hc => h.label c (hF.live_lt ⟨_, hc⟩)) key

lemma Keeps.trans {d e : ℕ} (h : Keeps s F s' F' d) (h' : Keeps s' F' s'' F'' e) (hde : d ≤ e) :
    Keeps s F s'' F'' d where
  evolves := h.evolves.trans h'.evolves
  requests := h.requests.trans h'.requests
  top := h'.top.trans h.top
  label b hb := by rw [h'.label b (lt_of_lt_of_le hb h.requests), h.label b hb]
  nodes b k hb hk := by
    rw [h'.nodes b k (hb.mono h.keeps) (lt_of_lt_of_le hk hde), h.nodes b k hb hk]
  attrs b hb := by rw [h'.attrs b (h.evolves.live b hb), h.attrs b hb]
  keeps i a ha := h'.keeps i a (h.keeps i a ha)

lemma Sound.root_eq (h : Sound s F) (h' : Sound s' F') (htop : F'.nodes none = F.nodes none) :
    s'.xml.nodeRoot = s.xml.nodeRoot := by
  rw [← h.root, ← h'.root, h.head_eq, h'.head_eq, htop]

/-! ## Creating a child -/

/-- The child `x` of `a` was created for a segment. -/
structure ChildSet (stray : List UInt8 → List UInt8 → Bool) (s : State) (F : Shape) (a : ℕ)
    (seg : Segment) (x : ℕ) (s' : State) (F' : Shape) : Prop where
  new : x = s.requests
  siblings : F'.nodes (some (a, .node)) = x :: F.nodes (some (a, .node))
  childless : F'.nodes (some (x, .node)) = []
  attrs : ∀ b ∈ F'.nodes (some (x, .attribute)), s.requests ≤ b
  named : nameMatches s' seg.name x = true
  met : seg.conds.all (condMet stray s' F' x) = true ↔ Consistent seg.conds

/-- A name and conditions that fit in `tmp`. -/
structure Segment.Fits (seg : Segment) : Prop where
  name : (0 : UInt8) ∉ seg.name
  length : seg.name.length < 256
  conds : Short seg.conds

lemma Sound.createChild (h : Sound s F) (stray : List UInt8 → List UInt8 → Bool) {a d : ℕ}
    (ha : Depth F a d) {seg : Segment} (hseg : seg.Fits)
    (hchild : childOf stray s F a seg.name seg.conds = none) :
    ∃ x s' F', searchChildnode served stray s a seg.name seg.conds true = some (some x, s') ∧
      Keeps s F s' F' d ∧ ChildSet stray s F a seg x s' F' := by
  obtain ⟨s₁, hcreate, hg, hevolves₁⟩ := h.createNamed_evolves ha.live .node seg.name
  have hlive := F.push_live a .node s.requests
  obtain ⟨s₂, F₂, hconds, hset⟩ := hevolves₁.sound.setConditions hlive hseg.conds
  have hnew : ¬F.Live s.requests := fun hlive => h.node_ne_none hlive h.new
  have hnil (t : BXML_NODE_TYPE) : F.nodes (some (s.requests, t)) = [] := by
    by_contra hne
    exact hnew (h.owner _ t hne)
  have hpush : (F.push a .node s.requests).nodes (some (a, .node)) =
      s.requests :: F.nodes (some (a, .node)) := Function.update_self ..
  have hother (i : ListId) (hi : i ≠ some (a, .node)) :
      (F.push a .node s.requests).nodes i = F.nodes i := Function.update_of_ne hi _ _
  have hane : a ≠ s.requests := fun heq => hnew (heq ▸ ha.live)
  -- the attributes of the new node are new
  have hattrs : ∀ b ∈ F₂.nodes (some (s.requests, .attribute)), s.requests ≤ b := by
    intro b hb
    rcases hset.attrs b hb with hb | hb
    · rw [hother _ (by simp), hnil] at hb
      cases hb
    · have hlt := hevolves₁.sound.live_lt hlive
      omega
  have hxattr : s.requests ∉ F₂.nodes (some (s.requests, .attribute)) := by
    intro hx
    have hin : s.requests ∈ F₂.nodes (some (a, .node)) := by
      rw [hset.nodes _ (by simp), hpush]
      exact List.mem_cons_self
    cases hset.evolves.sound.family.apart _ _ _ hx hin
  refine ⟨s.requests, s₂, F₂, ?_, ?_, rfl, ?_, ?_, hattrs, ?_, hset.all_iff stray hseg.conds⟩
  · rw [searchChildnode, h.findChild_eq stray ha.live, Option.bind_eq_bind, Option.bind_some, hchild]
    simp only [if_true, hcreate, hconds, Option.bind_eq_bind, Option.bind_some]
  · refine ⟨hevolves₁.trans hset.evolves, ?_, ?_, fun b hb => ?_, fun b e hb he => ?_,
      fun b hb => ?_, fun i b hb => ?_⟩
    · have hlt := hevolves₁.sound.live_lt hlive
      have hle := hset.requests
      omega
    · rw [hset.nodes _ (by simp), hother _ (by simp)]
    · rw [hset.label b fun hmem => absurd (hattrs b hmem) (by omega), hg.label b (by omega)]
    · have hba : b ≠ a := by
        rintro rfl
        exact absurd (hb.unique h ha) (by omega)
      rw [hset.nodes _ (by simp), hother _ (by simpa using hba)]
    · have hbx : b ≠ s.requests := fun heq => hnew (heq ▸ hb)
      rw [hset.nodes _ (by simpa using hbx), hother _ (by simp)]
    · have hmem : b ∈ (F.push a .node s.requests).nodes i :=
        (Shape.mem_insert (List.nil_append _).symm).mpr (.inl hb)
      by_cases hi : i = some (s.requests, .attribute)
      · rw [hi] at hmem ⊢
        exact hset.keeps b hmem
      · rwa [hset.nodes i hi]
  · rw [hset.nodes _ (by simp), hpush]
  · rw [hset.nodes _ (by simp), hother _ (by simpa using hane.symm), hnil]
  · rw [nameMatches_congr (hset.label _ hxattr), nameMatches_new hseg.length hseg.name hg.labelNew
      hseg.name, decide_eq_true rfl]

/-- The next search for the segment finds the new child, if its conditions agree. -/
lemma ChildSet.childOf_eq (hF : Sound s F) {stray : List UInt8 → List UInt8 → Bool} {a d x : ℕ}
    {seg : Segment} (h : ChildSet stray s F a seg x s' F') (hk : Keeps s F s' F' d)
    (hchild : childOf stray s F a seg.name seg.conds = none) :
    childOf stray s' F' a seg.name seg.conds =
      if Consistent seg.conds then some x else none := by
  have hold : (F.nodes (some (a, .node))).find? (fun b =>
      nameMatches s' seg.name b && seg.conds.all (condMet stray s' F' b)) = none := by
    rw [← hchild, childOf]
    refine List.find?_congr fun b hb => ?_
    have hlive : F.Live b := ⟨_, hb⟩
    have hmet : condMet stray s' F' b = condMet stray s F b := by
      funext cond
      rw [condMet_eq, condMet_eq, valueAt_congr (hk.attrs b hlive)
        (fun c hc => hk.label c (hF.live_lt ⟨_, hc⟩)) cond.1]
    rw [nameMatches_congr (hk.label b (hF.live_lt hlive)), hmet]
  rw [childOf, h.siblings]
  split_ifs with hagree
  · exact List.find?_cons_of_pos (by rw [h.named, h.met.mpr hagree]; rfl)
  · rw [List.find?_cons_of_neg, hold]
    rw [Bool.and_eq_true, not_and]
    exact fun _ hall => hagree (h.met.mp hall)

end Sgos.BxmlPath
