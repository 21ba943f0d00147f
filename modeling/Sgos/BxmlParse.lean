import Sgos.BxmlTree

/-!
# What the binary decoder builds

New nodes enter the lists of attributes and of children in front. The decoder therefore builds
the mirror image of the forest that it reads.
-/
namespace Sgos.Bxml
open ByteBuffer

variable {malloc : ℕ → Bool}

lemma safeMalloc_eq (hmalloc : ∀ n, malloc n = true) (s : State) :
    safeMalloc malloc s = (some s.requests, { s with requests := s.requests + 1 }) := by
  rw [safeMalloc, hmalloc, if_pos rfl]

lemma copyString_eq (hmalloc : ∀ n, malloc n = true) (s : State) (bytes : List UInt8)
    (h : bytes.length + 1 < 2 ^ 32) :
    copyString malloc s (UInt32.ofNat bytes.length + 1) bytes =
      some (some (bytes ++ [0]), { s with requests := s.requests + 1 }) := by
  have hsize : (UInt32.ofNat bytes.length + 1).toNat = bytes.length + 1 := by
    rw [UInt32.toNat_add, UInt32.toNat_ofNat']
    simp only [UInt32.reduceToNat]
    omega
  rw [copyString, safeMalloc_eq hmalloc]
  simp only [hsize, Option.bind_eq_bind]
  rw [write_start _ _ (by simp), Option.bind_some, write_front rfl _ _ (by simp), Option.bind_some]
  simp

/-- The fields that `readNode` stores. -/
def BXML_NODE.fill (n : BXML_NODE) (name value : List UInt8) : BXML_NODE :=
  { n with
    nameLen := .ofNat name.length
    name := some (name ++ [0])
    valueLen := .ofNat value.length
    value := if 0 < value.length then some (value ++ [0]) else none }

lemma BXML_NODE.fill_holds (n : BXML_NODE) {name value : List UInt8} (hname : name.length ≤ 255)
    (hvalue : value.length + 1 < 2 ^ 32) : (n.fill name value).Holds name value := by
  constructor
  · have hlen : (UInt8.ofNat name.length).toNat = name.length := by
      rw [UInt8.toNat_ofNat']
      omega
    simpa only [fill, hlen] using bytesAt_append name [0]
  · have hlen : (UInt32.ofNat value.length).toNat = value.length := by
      rw [UInt32.toNat_ofNat']
      omega
    simp only [fill, hlen]
    split
    · exact bytesAt_append value [0]
    · rename_i hpos
      rw [Nat.not_lt, Nat.le_zero, List.length_eq_zero_iff] at hpos
      subst hpos
      rfl

lemma readNode_eq (hmalloc : ∀ n, malloc n = true) {s : State} {a : ℕ} {n : BXML_NODE}
    (hn : s.node a = some n) {name value : List UInt8} {attrCount childCount : ℕ}
    (hname : name.length ≤ 255) (hvalue : value.length + 1 < 2 ^ 32) (hattr : attrCount ≤ 255)
    (hchild : childCount ≤ 65535) (rest : List UInt8) :
    ∃ k, readNode malloc s a (encodeFields name value attrCount childCount ++ rest) =
      some (({ s with requests := s.requests + k } : State).setNode a (n.fill name value),
        attrCount, childCount, rest) := by
  simp only [readNode, encodeFields, List.append_assoc, Option.bind_eq_bind]
  rw [readNat_append 1 _ _ (by omega), Option.bind_some, read_append, Option.bind_some,
    copyString_eq hmalloc _ _ (by omega), Option.bind_some, readNat_append 1 _ _ (by omega),
    Option.bind_some, readNat_append 2 _ _ (by omega), Option.bind_some,
    readNat_append 4 _ _ (by omega), Option.bind_some, read_append, Option.bind_some]
  by_cases hpos : 0 < value.length
  · refine ⟨2, ?_⟩
    rw [if_pos hpos, copyString_eq hmalloc _ _ hvalue]
    simp [State.modify, hn, BXML_NODE.fill, hpos]
  · refine ⟨1, ?_⟩
    rw [if_neg hpos]
    simp [State.modify, hn, BXML_NODE.fill, hpos]

/-- What filling node `c` and reading the nodes below it does to the heap: `c` becomes `n`, the
nodes that were there keep all but their links to previous siblings. -/
structure Grown (c : ℕ) (n : BXML_NODE) (s s' : State) : Prop where
  xml_eq : s'.xml = s.xml
  requests_le : s.requests ≤ s'.requests
  node_eq : ∃ pre, s'.node c = some { n with nodePre := pre }
  same : ∀ b < s.requests, b ≠ c → SameAt s.node s'.node b

/-- A representation between `c` and the next request outlives the growth below `c`. -/
lemma Grown.rep {c : ℕ} {n : BXML_NODE} {s s' : State} {p : Option ℕ} {f : Forest}
    (hg : Grown c n s s') (h : RepIn s.node (Set.Ioo c s.requests) p f) :
    RepIn s'.node (Set.Ioo c s'.requests) p f := by
  apply RepIn.mono (h.congr fun b hb => hg.same b hb.2 (Nat.ne_of_gt hb.1))
  intro b hb
  exact ⟨hb.1, Nat.lt_of_lt_of_le hb.2 hg.requests_le⟩

/-- A new node in front of the list of `c`. -/
lemma createFirst_eq (hmalloc : ∀ n, malloc n = true) {s : State} {c : ℕ} {n : BXML_NODE}
    (type : BXML_NODE_TYPE) (hroot : s.xml.nodeRoot ≠ none) (hc : c < s.requests)
    (hn : s.node c = some n) {acc : Forest}
    (hacc : RepIn s.node (Set.Ioo c s.requests) (n.head type) acc) :
    ∃ s', createFirst malloc type s (some c) = some (some s.requests, s') ∧ s'.xml = s.xml ∧
      s'.requests = s.requests + 1 ∧
      s'.node s.requests =
        some { zeroNode with nodeNext := n.head type, nodeParent := some c } ∧
      s'.node c = some (n.setHead (some s.requests) type) ∧
      ∀ b < s.requests, b ≠ c → SameAt s.node s'.node b := by
  have hca : c ≠ s.requests := Nat.ne_of_lt hc
  have hcreate : createNode malloc s = (some s.requests,
      { s with requests := s.requests + 1 }.setNode s.requests zeroNode) := by
    simp [createNode, safeMalloc_eq hmalloc, State.setNode, hroot]
  cases hhead : n.head type with
  | none =>
    refine ⟨{ s with
      node := Function.update (Function.update s.node s.requests
        (some { zeroNode with nodeNext := none, nodeParent := some c })) c
        (some (n.setHead (some s.requests) type))
      requests := s.requests + 1 }, ?_, rfl, rfl, ?_, ?_, ?_⟩
    · simp [createFirst, hcreate, State.setNode, State.modify, hca, hn, hhead]
    · simp [hca.symm]
    · simp
    · intro b hb hbc m hm
      exact ⟨m.nodePre, by simp [hbc, Nat.ne_of_lt hb, hm]⟩
  | some first =>
    -- the old first sibling is told about its new neighbour
    obtain ⟨m, hmem, hm⟩ : ∃ m, first ∈ Set.Ioo c s.requests ∧ s.node first = some m := by
      cases acc with
      | nil => cases hhead.symm.trans hacc
      | node name value attrs children next =>
        obtain ⟨a, m, ha, hmem, hm, -⟩ := hacc
        obtain rfl := Option.some.inj (hhead.symm.trans ha)
        exact ⟨m, hmem, hm⟩
    have hfa : first ≠ s.requests := Nat.ne_of_lt hmem.2
    have hfc : first ≠ c := Nat.ne_of_gt hmem.1
    refine ⟨{ s with
      node := Function.update (Function.update (Function.update s.node first
        (some { m with nodePre := some s.requests })) s.requests
        (some { zeroNode with nodeNext := some first, nodeParent := some c })) c
        (some (n.setHead (some s.requests) type))
      requests := s.requests + 1 }, ?_, rfl, rfl, ?_, ?_, ?_⟩
    · simp [createFirst, hcreate, State.setNode, State.modify, hca, hn, hhead, hm, hfa, hfc,
        hfa.symm, hfc.symm, Function.update_comm hfa.symm]
    · simp [hca.symm]
    · simp
    · intro b hb hbc k hk
      by_cases hbf : b = first
      · subst hbf
        exact ⟨some s.requests, by
          simp [hbc, Nat.ne_of_lt hb, ← Option.some.inj (hm.symm.trans hk)]⟩
      · exact ⟨k.nodePre, by simp [hbc, hbf, Nat.ne_of_lt hb, hk]⟩

lemma Grown.trans {c : ℕ} {n n' : BXML_NODE} {s s' s'' : State} (h : Grown c n s s')
    (h' : Grown c n' s' s'') : Grown c n' s s'' where
  xml_eq := h'.xml_eq.trans h.xml_eq
  requests_le := h.requests_le.trans h'.requests_le
  node_eq := h'.node_eq
  same b hb hbc := (h.same b hb hbc).trans (h'.same b (Nat.lt_of_lt_of_le hb h.requests_le) hbc)

/-- The loop over the encoding of `f` puts the mirror image of `f` in front of a list of the
current node `c`. -/
def Parses (malloc : ℕ → Bool) (depth : ℕ) (f : Forest) : Prop :=
  ∀ (type : BXML_NODE_TYPE) (c : ℕ) (s : State) (n : BXML_NODE) (acc : Forest)
    (rest : List UInt8), s.xml.nodeCur = some c → s.xml.nodeRoot ≠ none → c < s.requests →
    s.node c = some n → RepIn s.node (Set.Ioo c s.requests) (n.head type) acc →
    ∃ s' head, parseNodes (parseBxmlNode malloc depth type) f.length s (some (f.encode ++ rest)) =
        some (s', some rest) ∧ Grown c (n.setHead head type) s s' ∧
      RepIn s'.node (Set.Ioo c s'.requests) head (f.mirrorOnto acc)

/-- A new node is filled with its name and value and the mirror images of its lists. -/
lemma fillNode_eq (hmalloc : ∀ n, malloc n = true) {depth : ℕ} {name value : List UInt8}
    {attrs children : Forest} (hattrs : Parses malloc depth attrs)
    (hchildren : Parses malloc depth children) (hname : name.length ≤ 255)
    (hvalue : value.length + 1 < 2 ^ 32) (hla : attrs.length ≤ 255)
    (hlc : children.length ≤ 65535) {s : State} {a : ℕ} {n : BXML_NODE}
    (hcur : s.xml.nodeCur = some a) (hroot : s.xml.nodeRoot ≠ none) (ha : a < s.requests)
    (hn : s.node a = some n) (hna : n.nodeAttr = none) (hnc : n.nodeChild = none)
    (rest : List UInt8) :
    ∃ s' n', fillNode malloc (parseBxmlNode malloc depth) s a
        ((Forest.node name value attrs children .nil).encode ++ rest) = some (s', some rest) ∧
      Grown a n' s s' ∧ n'.Holds name value ∧ n'.nodeNext = n.nodeNext ∧
      n'.nodeParent = n.nodeParent ∧
      RepIn s'.node (Set.Ioo a s'.requests) n'.nodeAttr attrs.mirror ∧
      RepIn s'.node (Set.Ioo a s'.requests) n'.nodeChild children.mirror := by
  obtain ⟨k, hread⟩ := readNode_eq hmalloc hn hname hvalue hla hlc
    (attrs.encode ++ (children.encode ++ rest))
  have hholds := n.fill_holds hname hvalue
  have hgread : Grown a (n.fill name value) s
      (({ s with requests := s.requests + k } : State).setNode a (n.fill name value)) :=
    { xml_eq := rfl
      requests_le := Nat.le_add_right ..
      node_eq := ⟨(n.fill name value).nodePre, by simp [State.setNode]⟩
      same := fun b _ hb m hm => ⟨m.nodePre, by simp [State.setNode, hb, hm]⟩ }
  generalize ({ s with requests := s.requests + k } : State).setNode a (n.fill name value) = s₁
    at hread hgread
  obtain ⟨pre₁, hn₁⟩ := hgread.node_eq
  obtain ⟨s₂, head₂, hparse₂, hg₂, hrep₂⟩ := hattrs .attribute a s₁ _ .nil
    (children.encode ++ rest) (by rw [hgread.xml_eq, hcur]) (by rwa [hgread.xml_eq])
    (Nat.lt_of_lt_of_le ha hgread.requests_le) hn₁ hna
  obtain ⟨pre₂, hn₂⟩ := hg₂.node_eq
  obtain ⟨s₃, head₃, hparse₃, hg₃, hrep₃⟩ := hchildren .node a s₂ _ .nil rest
    (by rw [hg₂.xml_eq, hgread.xml_eq, hcur]) (by rwa [hg₂.xml_eq, hgread.xml_eq])
    (Nat.lt_of_lt_of_le ha (hgread.requests_le.trans hg₂.requests_le)) hn₂ hnc
  refine ⟨s₃, _, ?_, (hgread.trans hg₂).trans hg₃, ⟨hholds.name_eq, hholds.value_eq⟩, rfl, rfl,
    hg₃.rep hrep₂, hrep₃⟩
  simp only [fillNode, Forest.encode, List.append_assoc, List.append_nil, hread, hparse₂, hparse₃,
    Option.bind_eq_bind, Option.bind_some]

/-- Every encoded forest is read, by induction on the forest. -/
lemma parses (hmalloc : ∀ n, malloc n = true) (f : Forest) (hf : f.Bounded)
    (hsize : f.encode.length + 1 < 2 ^ 32) {depth : ℕ} (hdepth : f.depth ≤ depth) :
    Parses malloc depth f := by
  induction f generalizing depth with
  | nil =>
    intro type c s n acc rest _ _ _ hn hacc
    refine ⟨s, n.head type, rfl, ⟨rfl, le_rfl, ⟨n.nodePre, ?_⟩, fun b _ _ => .refl _ b⟩, hacc⟩
    cases type <;> exact hn
  | node name value attrs children next iha ihc ihn =>
    intro type c s n acc rest hcur hroot hc hn hacc
    obtain ⟨hname, hla, hlc, hba, hbc, hbn⟩ := hf
    simp only [Forest.depth] at hdepth
    obtain ⟨depth, rfl⟩ : ∃ d, depth = d + 1 := ⟨depth - 1, by omega⟩
    simp only [Forest.encode, List.length_append, length_encodeFields] at hsize
    have hattrs : Parses malloc depth attrs := iha hba (by omega) (by omega)
    have hchildren : Parses malloc depth children := ihc hbc (by omega) (by omega)
    obtain ⟨s₁, hcreate, hxml₁, hreq₁, hnew₁, hc₁, hsame₁⟩ :=
      createFirst_eq hmalloc type hroot hc hn hacc
    have hv : value.length + 1 < 2 ^ 32 := by omega
    obtain ⟨s₂, m, hfill, hg, hholds, hnext, hparent, hrepa, hrepc⟩ :=
      fillNode_eq hmalloc hattrs hchildren hname hv hla hlc (s := s₁.setCur (some s.requests))
        rfl (by rwa [State.setCur, hxml₁]) (by simp [State.setCur, hreq₁]) hnew₁ rfl rfl
        (next.encode ++ rest)
    obtain ⟨pre, hm⟩ := hg.node_eq
    have hreq : s.requests + 1 ≤ s₂.requests := by simpa [State.setCur, hreq₁] using hg.requests_le
    have hup : moveUp s₂ = some (s₂.setCur (some c)) := by
      simp [moveUp, hg.xml_eq, State.setCur, hm, hparent]
    have hxml : (s₂.setCur (some c)).xml = s.xml := by
      simp [State.setCur, hg.xml_eq, hxml₁, ← hcur]
    have hold : ∀ b < s.requests, SameAt s₁.node s₂.node b := by
      intro b hb
      exact hg.same b (by simp only [State.setCur, hreq₁]; omega) (Nat.ne_of_lt hb)
    have hgrown : Grown c (n.setHead (some s.requests) type) s (s₂.setCur (some c)) :=
      { xml_eq := hxml
        requests_le := by simp only [State.setCur]; omega
        node_eq := hold c hc _ hc₁
        same := fun b hb hbc => (hsame₁ b hb hbc).trans (hold b hb) }
    -- the new node heads the list of `c`
    have hrep : RepIn s₂.node (Set.Ioo c s₂.requests) (some s.requests)
        (.node name value attrs.mirror children.mirror acc) := by
      have hsub : Set.Ioo s.requests s₂.requests ⊆ Set.Ioo c s₂.requests :=
        fun b hb => ⟨hc.trans hb.1, hb.2⟩
      refine ⟨s.requests, _, rfl, ⟨hc, by omega⟩, hm, ⟨hholds.name_eq, hholds.value_eq⟩,
        hrepa.mono hsub, hrepc.mono hsub, ?_⟩
      change RepIn s₂.node _ m.nodeNext acc
      rw [hnext]
      exact hgrown.rep hacc
    obtain ⟨pre₂, hc₂⟩ := hgrown.node_eq
    obtain ⟨s₃, head, hparse, hg₃, hrep₃⟩ := ihn hbn (by omega) (by omega : next.depth ≤ depth + 1)
      type c (s₂.setCur (some c)) _ (.node name value attrs.mirror children.mirror acc) rest rfl
      (by rwa [hxml]) (by simp only [State.setCur]; omega) hc₂ (by cases type <;> exact hrep)
    have hsplit : (Forest.node name value attrs children next).encode ++ rest =
        (Forest.node name value attrs children .nil).encode ++ (next.encode ++ rest) := by
      simp [Forest.encode]
    have hnode : parseBxmlNode malloc (depth + 1) type s
        ((Forest.node name value attrs children next).encode ++ rest) =
          some (s₂, some (next.encode ++ rest)) := by
      rw [hsplit]
      cases type <;> simp only [parseBxmlNode, createAttrnode, createChildnode, hcur, hcreate,
        Option.bind_eq_bind, Option.bind_some, hfill]
    refine ⟨s₃, head, ?_, { hgrown.trans hg₃ with node_eq := ?_ }, hrep₃⟩
    · simp only [Forest.length, parseNodes, hnode, hup, hparse, Option.bind_eq_bind,
        Option.bind_some]
    · obtain ⟨pre₃, hc₃⟩ := hg₃.node_eq
      exact ⟨pre₃, by cases type <;> exact hc₃⟩

end Sgos.Bxml
