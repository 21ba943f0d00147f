import Sgos.XmlRead
import Sgos.BxmlParse

/-!
# What the XML reader builds

New attributes enter their list in front and new siblings behind. The reader of a printed text
therefore builds the elements with every list of attributes in the opposite order, provided that
no name of an attribute has only one character.
-/
namespace Sgos.Xml
open ByteBuffer CString Bxml

variable {malloc : ℕ → Bool} {c a : ℕ} {n m : BXML_NODE} {s s₁ s₂ : State}

/-- What happens to a node that is newer than `s` does not concern the growth of `c`. -/
lemma grown_behind (h : Grown c n s s₁) (h' : Grown a m s₁ s₂) (hc : c < s.requests)
    (ha : s.requests ≤ a) : Grown c n s s₂ where
  xml_eq := h'.xml_eq.trans h.xml_eq
  requests_le := h.requests_le.trans h'.requests_le
  node_eq := by
    obtain ⟨pre, hpre⟩ := h.node_eq
    obtain ⟨pre', hpre'⟩ := h'.same c (Nat.lt_of_lt_of_le hc h.requests_le) (by omega) _ hpre
    exact ⟨pre', hpre'⟩
  same b hb hbc := (h.same b hb hbc).trans
    (h'.same b (Nat.lt_of_lt_of_le hb h.requests_le) (by omega))

lemma grown_setNode (s : State) (a : ℕ) (m : BXML_NODE) (k : ℕ) :
    Grown a m s (({ s with requests := s.requests + k } : State).setNode a m) where
  xml_eq := rfl
  requests_le := Nat.le_add_right ..
  node_eq := ⟨m.nodePre, by simp [State.setNode]⟩
  same := fun b _ hb n hn => ⟨n.nodePre, by simp [State.setNode, hb, hn]⟩

/-- The node after `setName`. -/
def named (n : BXML_NODE) (name : List UInt8) : BXML_NODE :=
  { n with nameLen := .ofNat name.length, name := some (name ++ [0]) }

/-- The node after `setValue`. -/
def valued (n : BXML_NODE) (value : List UInt8) : BXML_NODE :=
  { n with valueLen := .ofNat value.length, value := some (value ++ [0]) }

lemma setName_eq (hmalloc : ∀ k, malloc k = true) (hn : s.node a = some n) {name : List UInt8}
    (hlen : name.length ≤ 255) :
    ∃ s', setName malloc s (some a) name = some s' ∧ Grown a (named n name) s s' := by
  have hbyte : (UInt8.ofNat name.length).toNat = name.length := by
    rw [UInt8.toNat_ofNat']
    omega
  refine ⟨_, ?_, grown_setNode s a _ 1⟩
  simp only [setName, State.modify, hn, hbyte, Option.bind_eq_bind, Option.bind_some,
    Option.map_some]
  rw [copyString_eq hmalloc _ _ (by omega)]
  simp [State.setNode, named]

lemma setValue_eq (hmalloc : ∀ k, malloc k = true) (hn : s.node a = some n) {value : List UInt8}
    (hlen : value.length + 1 < 2 ^ 32) :
    ∃ s', setValue malloc s (some a) value = some s' ∧ Grown a (valued n value) s s' := by
  refine ⟨_, ?_, grown_setNode s a _ 1⟩
  simp only [setValue, State.modify, hn, Option.bind_eq_bind, Option.bind_some, Option.map_some]
  rw [copyString_eq hmalloc _ _ hlen]
  simp [State.setNode, valued]

lemma named_valued_holds (n : BXML_NODE) {name value : List UInt8} (hname : name.length ≤ 255)
    (hvalue : value.length + 1 < 2 ^ 32) : (valued (named n name) value).Holds name value where
  name_eq := by
    have hlen : (UInt8.ofNat name.length).toNat = name.length := by
      rw [UInt8.toNat_ofNat']
      omega
    simpa only [valued, named, hlen] using bytesAt_append name [0]
  value_eq := by
    have hlen : (UInt32.ofNat value.length).toNat = value.length := by
      rw [UInt32.toNat_ofNat']
      omega
    simpa only [valued, hlen] using bytesAt_append value [0]

/-- One attribute enters the list of the current node in front. -/
lemma parse_attribute (hmalloc : ∀ k, malloc k = true) (hroot : s.xml.nodeRoot ≠ none)
    (hc : c < s.requests) (hn : s.node c = some n) {acc : List (List UInt8 × List UInt8)}
    (hacc : RepIn s.node (Set.Ioo c s.requests) n.nodeAttr (attrForest acc))
    {name value : List UInt8} (hattr : IsAttribute (name, value)) (hlong : 2 ≤ name.length)
    (hname : name.length ≤ 255) (hvalue : value.length + 1 < 2 ^ 32) (before : UInt8)
    (rest : List UInt8) :
    ∃ s', parse malloc ⟨.attributeName, some c, before, [], s⟩
        (space :: (name ++ equals :: quote :: (value ++ quote :: rest))) =
          parse malloc ⟨.attributeName, some c, quote, [], s'⟩ rest ∧
      Grown c { n with nodeAttr := some s.requests } s s' ∧
      RepIn s'.node (Set.Ioo c s'.requests) (some s.requests)
        (attrForest ((name, value) :: acc)) := by
  obtain ⟨s₁, hcreate, hxml₁, hreq₁, hnew₁, hc₁, hsame₁⟩ :=
    createFirst_eq hmalloc .attribute hroot hc hn hacc
  obtain ⟨s₂, hsetName, hg₂⟩ := setName_eq hmalloc hnew₁ hname
  obtain ⟨pre₂, hnew₂⟩ := hg₂.node_eq
  obtain ⟨s₃, hsetValue, hg₃⟩ := setValue_eq hmalloc hnew₂ hvalue
  obtain ⟨pre₃, hnew₃⟩ := hg₃.node_eq
  have hg₁ : Grown c { n with nodeAttr := some s.requests } s s₁ :=
    { xml_eq := hxml₁
      requests_le := by omega
      node_eq := ⟨n.nodePre, hc₁⟩
      same := hsame₁ }
  have hg := grown_behind (grown_behind hg₁ hg₂ hc le_rfl) hg₃ hc le_rfl
  have hreq : s.requests < s₃.requests := by
    have h₂ := hg₂.requests_le
    have h₃ := hg₃.requests_le
    omega
  have hparent : parentOf s₃ (some s.requests) = some (some c) := by
    simp [parentOf, hnew₃, valued, named, zeroNode]
  refine ⟨s₃, ?_, hg, s.requests, _, rfl, ⟨hc, hreq⟩, hnew₃, ?_, rfl, rfl, hg.rep hacc⟩
  · rw [parse_longName _ _ _ hattr.1 hlong, createAttrnode, hcreate, Option.bind_some, attributeOf,
      hsetName, Option.bind_some, parse_attributeValue _ _ hattr.2.1 hattr.2.2, hsetValue,
      Option.bind_some, hparent, Option.bind_some]
  · have hholds := named_valued_holds
      { zeroNode with nodeNext := n.nodeAttr, nodeParent := some c } hname hvalue
    exact ⟨hholds.name_eq, hholds.value_eq⟩

/-- The attributes of a tag enter the list of the current node one by one. -/
lemma parse_attributes (hmalloc : ∀ k, malloc k = true) {attrs : List (List UInt8 × List UInt8)}
    (hattrs : ∀ attr ∈ attrs, IsAttribute attr) (hlong : ∀ attr ∈ attrs, 2 ≤ attr.1.length)
    (hsized : ∀ attr ∈ attrs, attr.1.length ≤ 255 ∧ attr.2.length + 1 < 2 ^ 32)
    (hroot : s.xml.nodeRoot ≠ none) (hc : c < s.requests) (hn : s.node c = some n)
    {acc : List (List UInt8 × List UInt8)}
    (hacc : RepIn s.node (Set.Ioo c s.requests) n.nodeAttr (attrForest acc)) (before : UInt8)
    (rest : List UInt8) :
    ∃ s' head before', parse malloc ⟨.attributeName, some c, before, [], s⟩
        (attrsText attrs ++ rest) =
          parse malloc ⟨.attributeName, some c, before', [], s'⟩ rest ∧
      Grown c { n with nodeAttr := head } s s' ∧
      RepIn s'.node (Set.Ioo c s'.requests) head (attrForest (attrs.reverse ++ acc)) := by
  induction attrs generalizing s n acc before with
  | nil =>
    refine ⟨s, n.nodeAttr, before, rfl, ⟨rfl, le_rfl, ⟨n.nodePre, hn⟩, fun b _ _ => .refl _ b⟩, ?_⟩
    simpa using hacc
  | cons attr attrs ih =>
    obtain ⟨name, value⟩ := attr
    obtain ⟨hattr, hattrs⟩ := List.forall_mem_cons.mp hattrs
    obtain ⟨hlong₁, hlong⟩ := List.forall_mem_cons.mp hlong
    obtain ⟨⟨hname, hvalue⟩, hsized⟩ := List.forall_mem_cons.mp hsized
    have htext : attrsText ((name, value) :: attrs) ++ rest =
        space :: (name ++ equals :: quote :: (value ++ quote :: (attrsText attrs ++ rest))) := by
      simp [attrsText_cons]
    obtain ⟨s₁, hparse₁, hg₁, hrep₁⟩ := parse_attribute hmalloc hroot hc hn hacc hattr hlong₁ hname
      hvalue before (attrsText attrs ++ rest)
    obtain ⟨pre, hn₁⟩ := hg₁.node_eq
    obtain ⟨s₂, head, before', hparse₂, hg₂, hrep₂⟩ := ih hattrs hlong hsized
      (by rwa [hg₁.xml_eq]) (Nat.lt_of_lt_of_le hc hg₁.requests_le) hn₁ hrep₁ quote
    refine ⟨s₂, head, before', by rw [htext, hparse₁, hparse₂], ?_, ?_⟩
    · obtain ⟨pre₂, hn₂⟩ := hg₂.node_eq
      exact { hg₁.trans hg₂ with node_eq := ⟨pre₂, hn₂⟩ }
    · rw [List.reverse_cons, List.append_assoc]
      exact hrep₂

/-- The name of a node agrees with the same name in a closing tag. -/
lemma endsTag_named {name : List UInt8} (hname : name.length ≤ 255)
    (hlen : n.nameLen = .ofNat name.length) (hblock : n.name = some (name ++ [0])) :
    endsTag n (slash :: name) = some true := by
  have hbyte : n.nameLen.toNat = name.length := by
    rw [hlen, UInt8.toNat_ofNat']
    omega
  have hprefix := strncmp_prefix name [] [0]
  rw [List.append_nil] at hprefix
  rw [endsTag, if_pos rfl, hbyte, hblock, Nat.min_self]
  exact hprefix

/-- The node of an element when its tag has been read: a name and attributes. -/
structure Opened (n : BXML_NODE) (name : List UInt8) (parent : Option ℕ) : Prop where
  nameLen_eq : n.nameLen = .ofNat name.length
  name_eq : n.name = some (name ++ [0])
  valueLen_eq : n.valueLen = 0
  value_eq : n.value = none
  next_eq : n.nodeNext = none
  child_eq : n.nodeChild = none
  parent_eq : n.nodeParent = parent

lemma Opened.holds {name : List UInt8} {parent : Option ℕ} (h : Opened n name parent)
    (hname : name.length ≤ 255) : n.Holds name [] where
  name_eq := by
    have hlen : (UInt8.ofNat name.length).toNat = name.length := by
      rw [UInt8.toNat_ofNat']
      omega
    rw [h.nameLen_eq, h.name_eq, hlen]
    exact bytesAt_append name [0]
  value_eq := by
    rw [h.valueLen_eq, h.value_eq]
    rfl

lemma Opened.valued_holds {name value : List UInt8} {parent : Option ℕ} (h : Opened n name parent)
    (hname : name.length ≤ 255) (hvalue : value.length + 1 < 2 ^ 32) :
    (valued n value).Holds name value where
  name_eq := (h.holds hname).name_eq
  value_eq := (named_valued_holds n hname hvalue).value_eq

/-- The value and the closing tag of an element without children, or the end of a short tag. -/
lemma parse_leafText (hmalloc : ∀ k, malloc k = true) (hn : s.node a = some n)
    {name value : List UInt8} {parent : Option ℕ} (hopened : Opened n name parent)
    (hname : IsName name) (hlen : name.length ≤ 255) (hvalue : ∀ d ∈ value, Plain d)
    (hsized : value.length + 1 < 2 ^ 32) (attrs : List (List UInt8 × List UInt8)) (before : UInt8)
    (rest : List UInt8) :
    ∃ s' n' before' word, parse malloc ⟨.attributeName, some a, before, [], s⟩
        (Elements.leafText name value attrs ++ rest) =
          parse malloc ⟨.outsideTag, some a, before', word, s'⟩ rest ∧
      Grown a n' s s' ∧ n'.Holds name value ∧ n'.nodeAttr = n.nodeAttr ∧
      n'.nodeChild = n.nodeChild ∧ n'.nodeNext = n.nodeNext ∧ n'.nodeParent = n.nodeParent := by
  have hsame : Grown a n s s := ⟨rfl, le_rfl, ⟨n.nodePre, hn⟩, fun b _ _ => .refl _ b⟩
  by_cases hcond : attrs = [] ∨ value ≠ []
  · have htext : Elements.leafText name value attrs ++ rest =
        greater :: (value ++ (closeText name ++ rest)) := by
      rw [Elements.leafText, if_pos hcond]
      simp
    by_cases hpos : 0 < value.length
    · obtain ⟨s₁, hset, hg⟩ := setValue_eq hmalloc hn hsized
      obtain ⟨pre, hn₁⟩ := hg.node_eq
      refine ⟨s₁, valued n value, less, slash :: name ++ [greater] ++ [newline], ?_, hg,
        hopened.valued_holds hlen hsized, rfl, rfl, rfl, rfl⟩
      rw [htext, parse_body, parse_leaf _ _ _ hname hvalue, if_pos hpos, hset, Option.bind_some]
      exact parse_tagEnd hn₁ (endsTag_named hlen hopened.nameLen_eq hopened.name_eq) _ _
    · obtain rfl : value = [] := List.length_eq_zero_iff.mp (by omega)
      refine ⟨s, n, less, slash :: name ++ [greater] ++ [newline], ?_, hsame, hopened.holds hlen,
        rfl, rfl, rfl, rfl⟩
      rw [htext, parse_body, parse_leaf _ _ _ hname hvalue, if_neg hpos, Option.bind_some]
      exact parse_tagEnd hn (endsTag_named hlen hopened.nameLen_eq hopened.name_eq) _ _
  · obtain rfl : value = [] := by
      by_contra hne
      exact hcond (.inr hne)
    have htext : Elements.leafText name [] attrs ++ rest =
        space :: slash :: greater :: newline :: rest := by
      rw [Elements.leafText, if_neg hcond]
      rfl
    refine ⟨s, n, space, [slash, greater, newline], ?_, hsame, hopened.holds hlen, rfl, rfl, rfl,
      rfl⟩
    rw [htext, parse_shortTag]

/-- A list of siblings is read from its first tag on. -/
def Reads (malloc : ℕ → Bool) (e : Elements) : Prop :=
  ∀ (level a : ℕ) (pre parent : Option ℕ) (s : State) (rest : List UInt8),
    s.xml.nodeRoot ≠ none → s.requests = a + 1 →
    s.node a = some { zeroNode with nodePre := pre, nodeParent := parent } →
    ∃ s' last m before word,
      parse malloc ⟨.tagName, some a, less, [], s⟩ (e.tagText level ++ rest) =
        parse malloc ⟨.outsideTag, some last, before, word, s'⟩ rest ∧
      s'.node last = some m ∧ m.nodeParent = parent ∧ s'.xml = s.xml ∧
      s.requests ≤ s'.requests ∧ (∀ b < a, SameAt s.node s'.node b) ∧
      RepIn s'.node (Set.Ico a s'.requests) (some a) e.flip.forest

/-- The children of an element and its closing tag. -/
lemma parse_nestedText (hmalloc : ∀ k, malloc k = true) {children : Elements}
    (hreads : Reads malloc children) (hproper : children.Proper) (hne : children ≠ .nil)
    (hroot : s.xml.nodeRoot ≠ none) (ha : a < s.requests) (hn : s.node a = some n)
    {name : List UInt8} {parent : Option ℕ} (hopened : Opened n name parent)
    (hname : IsName name) (hlen : name.length ≤ 255) (level : ℕ) (before : UInt8)
    (rest : List UInt8) :
    ∃ s' before' word, parse malloc ⟨.attributeName, some a, before, [], s⟩
        (Elements.nestedText level name (children.text (level + 1)) ++ rest) =
          parse malloc ⟨.outsideTag, some a, before', word, s'⟩ rest ∧
      Grown a { n with nodeChild := some s.requests } s s' ∧
      RepIn s'.node (Set.Ioo a s'.requests) (some s.requests) children.flip.forest := by
  have hacc : RepIn s.node (Set.Ioo a s.requests) (n.head .node) .nil := hopened.child_eq
  obtain ⟨s₁, hcreate, hxml₁, hreq₁, hnew₁, ha₁, hsame₁⟩ :=
    createFirst_eq hmalloc .node hroot ha hn hacc
  have hnew : s₁.node s.requests =
      some { zeroNode with nodePre := none, nodeParent := some a } := by
    rw [hnew₁]
    change some { zeroNode with nodeNext := n.nodeChild, nodeParent := some a } = _
    rw [hopened.child_eq]
    rfl
  obtain ⟨s₂, last, m, before₂, word₂, hparse, hlast, hparent, hxml₂, hreq₂, hsame₂, hrep₂⟩ :=
    hreads (level + 1) s.requests none (some a) s₁
      (List.replicate level tab ++ (closeText name ++ rest)) (by rwa [hxml₁]) hreq₁ hnew
  obtain ⟨pre, hn₂⟩ := hsame₂ a ha _ ha₁
  have htext : Elements.nestedText level name (children.text (level + 1)) ++ rest =
      greater :: newline :: (List.replicate (level + 1) tab ++ less ::
        (children.tagText (level + 1) ++
          (List.replicate level tab ++ (closeText name ++ rest)))) := by
    simp [Elements.nestedText, Elements.text_eq hne]
  obtain ⟨d, tail, hd, htag⟩ := hproper.tagText_eq hne (level + 1)
  rw [htag] at hparse
  refine ⟨s₂, less, slash :: name ++ [greater] ++ [newline], ?_, ?_, ?_⟩
  · rw [htext, htag, List.cons_append, parse_body, parse_childnode _ _ _ _ hd, createChildnode,
      hcreate, Option.bind_some, tagOf, ← List.cons_append, hparse, parse_close _ _ _ _ _ hname]
    have hup : parentOf s₂ (some last) = some (some a) := by
      simp [parentOf, hlast, hparent]
    rw [hup, Option.bind_some]
    exact parse_tagEnd hn₂ (endsTag_named hlen hopened.nameLen_eq hopened.name_eq) _ _
  · exact
      { xml_eq := hxml₂.trans hxml₁
        requests_le := by omega
        node_eq := ⟨pre, hn₂⟩
        same := fun b hb hba => (hsame₁ b hb hba).trans (hsame₂ b hb) }
  · apply hrep₂.mono
    intro b hb
    exact ⟨Nat.lt_of_lt_of_le ha hb.1, hb.2⟩

/-- One element, given that its children are read. -/
lemma parse_element (hmalloc : ∀ k, malloc k = true) {children : Elements}
    (hreads : children ≠ .nil → Reads malloc children) (hproper : children.Proper)
    {name value : List UInt8} {attrs : List (List UInt8 × List UInt8)} (hname : IsName name)
    (hvalue : ∀ d ∈ value, Plain d) (hattrs : ∀ attr ∈ attrs, IsAttribute attr)
    (hleaf : children ≠ .nil → value = []) (hlong : ∀ attr ∈ attrs, 2 ≤ attr.1.length)
    (hlen : name.length ≤ 255) (hsized : value.length + 1 < 2 ^ 32)
    (hsizes : ∀ attr ∈ attrs, attr.1.length ≤ 255 ∧ attr.2.length + 1 < 2 ^ 32)
    (hroot : s.xml.nodeRoot ≠ none) (ha : a < s.requests) {pre parent : Option ℕ}
    (hn : s.node a = some { zeroNode with nodePre := pre, nodeParent := parent }) (level : ℕ)
    (rest : List UInt8) :
    ∃ s' n' before word, parse malloc ⟨.tagName, some a, less, [], s⟩
        ((Elements.node name value attrs children .nil).tagText level ++ rest) =
          parse malloc ⟨.outsideTag, some a, before, word, s'⟩ rest ∧
      Grown a n' s s' ∧ n'.Holds name value ∧ n'.nodeNext = none ∧ n'.nodeParent = parent ∧
      RepIn s'.node (Set.Ioo a s'.requests) n'.nodeAttr (attrForest attrs.reverse) ∧
      RepIn s'.node (Set.Ioo a s'.requests) n'.nodeChild children.flip.forest := by
  obtain ⟨body, hbody⟩ : ∃ body, body = if children = .nil then
      Elements.leafText name value attrs
    else Elements.nestedText level name (children.text (level + 1)) := ⟨_, rfl⟩
  have htext : (Elements.node name value attrs children .nil).tagText level ++ rest =
      name ++ (attrsText attrs ++ (body ++ rest)) := by
    simp [Elements.tagText, Elements.text, ← hbody]
  -- a blank or `>` ends the name
  obtain ⟨d, tail, hd, htail⟩ := Elements.afterName level name value attrs children
    (children.text (level + 1)) rest
  rw [← hbody] at htail
  obtain ⟨s₁, hset, hg₁⟩ := setName_eq hmalloc hn hlen
  obtain ⟨pre₁, hn₁⟩ := hg₁.node_eq
  have ha₁ : a < s₁.requests := Nat.lt_of_lt_of_le ha hg₁.requests_le
  have hacc : RepIn s₁.node (Set.Ioo a s₁.requests) none (attrForest []) := rfl
  obtain ⟨s₂, head, before₂, hparse₂, hg₂, hrep₂⟩ := parse_attributes hmalloc hattrs hlong hsizes
    (by rwa [hg₁.xml_eq]) ha₁ hn₁ hacc less (body ++ rest)
  obtain ⟨pre₂, hn₂⟩ := hg₂.node_eq
  have ha₂ : a < s₂.requests := Nat.lt_of_lt_of_le ha₁ hg₂.requests_le
  rw [List.append_nil] at hrep₂
  have hopened : Opened
      { named { zeroNode with nodePre := pre, nodeParent := parent } name with
        nodeAttr := head, nodePre := pre₂ } name parent := ⟨rfl, rfl, rfl, rfl, rfl, rfl, rfl⟩
  have hstart : parse malloc ⟨.tagName, some a, less, [], s⟩
      ((Elements.node name value attrs children .nil).tagText level ++ rest) =
        parse malloc ⟨.attributeName, some a, before₂, [], s₂⟩ (body ++ rest) := by
    rw [htext, htail, parse_tagName _ _ _ hname hd, hset, Option.bind_some, ← htail, hparse₂]
  have hg : Grown a { named { zeroNode with nodePre := pre, nodeParent := parent } name with
      nodeAttr := head, nodePre := pre₂ } s s₂ :=
    { hg₁.trans hg₂ with node_eq := ⟨pre₂, hn₂⟩ }
  by_cases hnil : children = .nil
  · rw [if_pos hnil] at hbody
    subst hnil
    obtain ⟨s₃, n', before, word, hparse₃, hg₃, hholds, hattr, hchild, hnext, hparent⟩ :=
      parse_leafText hmalloc hn₂ hopened hname hlen hvalue hsized attrs before₂ rest
    refine ⟨s₃, n', before, word, by rw [hstart, hbody, hparse₃], hg.trans hg₃, hholds, hnext,
      hparent, ?_, hchild⟩
    rw [hattr]
    exact hg₃.rep hrep₂
  · rw [if_neg hnil] at hbody
    obtain rfl := hleaf hnil
    obtain ⟨s₃, before, word, hparse₃, hg₃, hrep₃⟩ :=
      parse_nestedText hmalloc (hreads hnil) hproper hnil (by rwa [hg₂.xml_eq, hg₁.xml_eq]) ha₂ hn₂
        hopened hname hlen level before₂ rest
    have hholds := hopened.holds hlen
    exact ⟨s₃, _, before, word, by rw [hstart, hbody, hparse₃], hg.trans hg₃,
      ⟨hholds.name_eq, hholds.value_eq⟩, rfl, rfl, hg₃.rep hrep₂, hrep₃⟩

/-- A node behind the last of the siblings. -/
lemma createNextnode_eq (hmalloc : ∀ k, malloc k = true) (hroot : s.xml.nodeRoot ≠ none)
    (ha : a < s.requests) (hn : s.node a = some n) (hnext : n.nodeNext = none) :
    ∃ s', createNextnode malloc s (some a) = some (some s.requests, s') ∧
      s'.requests = s.requests + 1 ∧
      s'.node s.requests =
        some { zeroNode with nodePre := some a, nodeParent := n.nodeParent } ∧
      Grown a { n with nodeNext := some s.requests } s s' := by
  have hne : a ≠ s.requests := Nat.ne_of_lt ha
  have hcreate : createNode malloc s = (some s.requests,
      { s with requests := s.requests + 1 }.setNode s.requests zeroNode) := by
    simp [createNode, safeMalloc_eq hmalloc, State.setNode, hroot]
  refine ⟨{ s with
    node := Function.update (Function.update s.node a
      (some { n with nodeNext := some s.requests })) s.requests
        (some { zeroNode with nodePre := some a, nodeParent := n.nodeParent })
    requests := s.requests + 1 }, ?_, rfl, by simp, ?_⟩
  · simp [createNextnode, hcreate, setPre, State.setNode, State.modify, hne, hne.symm, hn, hnext,
      Function.update_comm hne]
  · exact
      { xml_eq := rfl
        requests_le := Nat.le_add_right ..
        node_eq := ⟨n.nodePre, by simp [hne]⟩
        same := fun b hb hba m hm => ⟨m.nodePre, by simp [hba, Nat.ne_of_lt hb, hm]⟩ }

/-- Every printed list of siblings is read, by induction on the elements. -/
lemma reads (hmalloc : ∀ k, malloc k = true) {e : Elements} (he : e.Proper) (hlong : e.LongNames)
    (hsized : e.Sized) (hne : e ≠ .nil) : Reads malloc e := by
  induction e with
  | nil => exact absurd rfl hne
  | node name value attrs children next ihc ihn =>
    intro level a pre parent s rest hroot hreq hn
    obtain ⟨hname, hvalue, hattrs, hleaf, hchildren, hnext⟩ := he
    obtain ⟨hlen, hsizev, hsizes, hsizec, hsizen⟩ := hsized
    have ha : a < s.requests := by omega
    obtain ⟨s₁, n₁, before, word, hparse, hg, hholds, hnone, hparent, hrepa, hrepc⟩ :=
      parse_element hmalloc (ihc hchildren hlong.2.1 hsizec) hchildren hname hvalue hattrs hleaf
        hlong.1 hlen hsizev hsizes hroot ha hn level (next.text level ++ rest)
    obtain ⟨pre₁, hn₁⟩ := hg.node_eq
    have hreq₁ := hg.requests_le
    have htext : (Elements.node name value attrs children next).tagText level ++ rest =
        (Elements.node name value attrs children .nil).tagText level ++
          (next.text level ++ rest) := by
      simp [Elements.tagText, Elements.text]
    have hsub : Set.Ioo a s₁.requests ⊆ Set.Ico a s₁.requests :=
      fun b hb => ⟨Nat.le_of_lt hb.1, hb.2⟩
    by_cases hnil : next = .nil
    · subst hnil
      refine ⟨s₁, a, _, before, word, by rw [htext, hparse]; rfl, hn₁, hparent, hg.xml_eq, hreq₁,
        fun b hb => hg.same b (by omega) (by omega), a, _, rfl, ⟨le_rfl, by omega⟩, hn₁,
        ⟨hholds.name_eq, hholds.value_eq⟩, hrepa.mono hsub, hrepc.mono hsub, hnone⟩
    · have ha₁ : a < s₁.requests := by omega
      obtain ⟨s₂, hcreate, hreq₂, hnew, hg₂⟩ :=
        createNextnode_eq hmalloc (by rwa [hg.xml_eq]) ha₁ hn₁ hnone
      obtain ⟨pre₂, hn₂⟩ := hg₂.node_eq
      obtain ⟨s₃, last, m, before₃, word₃, hparse₃, hlast, hparent₃, hxml₃, hreq₃, hsame₃,
        hrep₃⟩ := ihn hnext hlong.2.2 hsizen hnil level s₁.requests (some a) n₁.nodeParent s₂ rest
          (by rwa [hg₂.xml_eq, hg.xml_eq]) hreq₂ hnew
      obtain ⟨pre₃, hn₃⟩ := hsame₃ a ha₁ _ hn₂
      obtain ⟨d, tail, hd, htag⟩ := hnext.tagText_eq hnil level
      have hline : next.text level ++ rest =
          List.replicate level tab ++ (less :: (next.tagText level ++ rest)) := by
        simp [Elements.text_eq hnil]
      have hkeep (p : Option ℕ) (f : Forest) (h : RepIn s₁.node (Set.Ioo a s₁.requests) p f) :
          RepIn s₃.node (Set.Ico a s₃.requests) p f := by
        have h₂ : RepIn s₃.node (Set.Ioo a s₁.requests) p f := h.congr fun b hb =>
          (hg₂.same b hb.2 (Nat.ne_of_gt hb.1)).trans (hsame₃ b hb.2)
        exact h₂.mono fun b hb => ⟨Nat.le_of_lt hb.1, by have := hb.2; omega⟩
      refine ⟨s₃, last, m, before₃, word₃, ?_, hlast, hparent₃.trans hparent,
        by rw [hxml₃, hg₂.xml_eq, hg.xml_eq], by omega, ?_, a, _, rfl, ⟨le_rfl, by omega⟩, hn₃,
        ⟨hholds.name_eq, hholds.value_eq⟩, hkeep _ _ hrepa, hkeep _ _ hrepc, ?_⟩
      · rw [htag] at hparse₃
        rw [htext, hparse, hline, parse_tabs, htag, List.cons_append, parse_nextnode _ _ _ _ hd,
          hcreate, Option.bind_some, tagOf, ← List.cons_append, hparse₃]
      · intro b hb
        exact ((hg.same b (by omega) (by omega)).trans
          (hg₂.same b (by omega) (by omega))).trans (hsame₃ b (by omega))
      · apply hrep₃.mono
        intro b hb
        exact ⟨Nat.le_of_lt (Nat.lt_of_lt_of_le ha₁ hb.1), hb.2⟩

end Sgos.Xml
