import Sgos.XmlBuild
import Sgos.XmlNames

/-!
# The round trip of XML documents

Parsing the text that `bxml_buildxml` prints gives the same elements up to the order of
attributes, exactly when every name of an attribute has at least two characters.
-/
namespace Sgos.Xml
open ByteBuffer CString Bxml

variable {malloc : ℕ → Bool}

lemma attrs_sized {node : ℕ → Option BXML_NODE} {region : Set ℕ} {p : Option ℕ}
    {attrs : List (List UInt8 × List UInt8)} (h : RepIn node region p (attrForest attrs)) :
    ∀ attr ∈ attrs, attr.1.length ≤ 255 := by
  induction attrs generalizing p with
  | nil => exact fun attr hattr => absurd hattr List.not_mem_nil
  | cons attr attrs ih =>
    obtain ⟨a, n, -, -, -, hholds, -, -, hnext⟩ := h
    refine List.forall_mem_cons.mpr ⟨?_, ih hnext⟩
    rw [bytesAt_length hholds.name_eq]
    exact Nat.le_of_lt_succ n.nameLen.toNat_lt

lemma value_length_le_attrsText {attrs : List (List UInt8 × List UInt8)} :
    ∀ attr ∈ attrs, attr.2.length ≤ (attrsText attrs).length := by
  induction attrs with
  | nil => exact fun attr hattr => absurd hattr List.not_mem_nil
  | cons attr attrs ih =>
    have hlen : (attrsText (attr :: attrs)).length =
        attr.1.length + attr.2.length + 4 + (attrsText attrs).length := by
      rw [attrsText_cons attr.1 attr.2]
      simp only [List.length_append, List.length_cons, List.length_nil]
      omega
    refine List.forall_mem_cons.mpr ⟨by omega, fun b hb => ?_⟩
    have hb' := ih b hb
    omega

/-- The names of nodes fit in their fields, and values that were printed fit in the text. -/
lemma sized_of_rep {node : ℕ → Option BXML_NODE} {region : Set ℕ} {p : Option ℕ} {e : Elements}
    (h : RepIn node region p e.forest) (he : e.Proper) (level : ℕ)
    (hlen : (e.text level).length + 1 < 2 ^ 32) : e.Sized := by
  induction e generalizing p level with
  | nil => trivial
  | node name value attrs children next ihc ihn =>
    obtain ⟨a, n, -, -, -, hholds, hra, hrc, hrn⟩ := h
    obtain ⟨-, -, -, hleaf, hchildren, hnext⟩ := he
    have hname : name.length ≤ 255 := by
      rw [bytesAt_length hholds.name_eq]
      exact Nat.le_of_lt_succ n.nameLen.toNat_lt
    simp only [Elements.text, List.length_append, List.length_cons] at hlen
    have hvalues : ∀ attr ∈ attrs, attr.1.length ≤ 255 ∧ attr.2.length + 1 < 2 ^ 32 := by
      intro attr hattr
      have hle := value_length_le_attrsText attr hattr
      exact ⟨attrs_sized hra attr hattr, by omega⟩
    by_cases hnil : children = .nil
    · subst hnil
      have hvalue : value.length + 1 < 2 ^ 32 := by
        rw [if_pos rfl, Elements.leafText] at hlen
        split at hlen
        · simp only [List.length_append, List.length_cons] at hlen
          omega
        · rename_i hcond
          obtain rfl : value = [] := by
            by_contra hne
            exact hcond (.inr hne)
          decide
      exact ⟨hname, hvalue, hvalues, trivial, ihn hrn hnext level (by omega)⟩
    · rw [if_neg hnil] at hlen
      simp only [Elements.nestedText, List.length_append] at hlen
      obtain rfl := hleaf hnil
      exact ⟨hname, by decide, hvalues, ihc hrc hchildren (level + 1) (by omega),
        ihn hrn hnext level (by omega)⟩

/-- A document that represents elements of the text format, and a buffer of which more than the
text is used. -/
structure XmlFits (s : State) (e : Elements) (depth : ℕ) (mem : List UInt8) (memSize : ℕ) : Prop where
  rep : RepIn s.node (stringNodes s.node) s.xml.nodeRoot e.forest
  ne_nil : e ≠ .nil
  proper : e.Proper
  depth_le : e.depth ≤ depth
  text_lt : (e.text 0).length < memSize
  memSize_le : memSize ≤ mem.length
  memSize_lt : memSize < 2147483648

/-- Parsing what `bxml_buildxml` prints to `mem` yields the elements of the document up to the
order of attributes. -/
def XmlRoundTrips (malloc : ℕ → Bool) (s : State) (e : Elements) (depth : ℕ) (mem : List UInt8)
    (memSize : ℕ) : Prop :=
  ∃ mem' len s' e', bxmlBuildxml s.node depth s.xml mem memSize = some (mem', len) ∧
    bxmlParse malloc (parseXmlNode malloc) mem' = some s' ∧
    Rep s'.node s'.xml.nodeRoot e'.forest ∧ e.Alike e'

/-- A text document goes to `parse_xml_node`. -/
lemma bxmlParse_text (hmalloc : ∀ k, malloc k = true) {t rest : List UInt8}
    (hlen : 3 ≤ t.length) :
    bxmlParse malloc (parseXmlNode malloc) (less :: (t ++ rest)) =
      (parse malloc ⟨.outsideTag, none, 0, [], ⟨⟨none, none, 0, 0, 0⟩, fun _ => none, 1⟩⟩
        (less :: (t ++ rest))).map fun s => s.setCur s.xml.nodeRoot := by
  obtain ⟨magic, p, hread, hmagic⟩ : ∃ magic p,
      readNat 4 (less :: (t ++ rest)) = some (magic, p) ∧ magic ≠ BXML_MAGIC := by
    match t, hlen with
    | b :: c :: d :: t, _ =>
      refine ⟨_, _, rfl, ?_⟩
      change less.toNat + 256 * _ ≠ BXML_MAGIC
      rw [BXML_MAGIC, show less.toNat = 60 by decide]
      omega
  rw [bxmlParse, safeMalloc_eq hmalloc]
  simp only [hread, if_neg hmagic, Option.bind_eq_bind, Option.bind_some, parseXmlNode]
  rw [Option.map_eq_bind]
  rfl

variable {s : State} {e : Elements} {depth memSize : ℕ} {mem : List UInt8}

/-- The printed buffer: the text, a zero and more zeros. -/
lemma XmlFits.build (h : XmlFits s e depth mem memSize) :
    ∃ t rest, e.text 0 = less :: t ∧ 3 ≤ t.length ∧ t = e.tagText 0 ∧
      bxmlBuildxml s.node depth s.xml mem memSize =
        some (less :: (t ++ 0 :: rest), ((e.text 0).length : ℤ)) := by
  have hbuild := bxmlBuildxml_eq h.ne_nil h.rep h.proper h.depth_le h.memSize_le h.text_lt
    h.memSize_lt
  have htext : e.text 0 = less :: e.tagText 0 := by
    simpa using Elements.text_eq h.ne_nil 0
  obtain ⟨k, hk⟩ : ∃ k, memSize - (e.text 0).length = k + 1 := by
    have hlt := h.text_lt
    exact ⟨memSize - (e.text 0).length - 1, by omega⟩
  have hlen : 3 ≤ (e.tagText 0).length := by
    have hne := h.ne_nil
    have hproper := h.proper
    cases e with
    | nil => exact absurd rfl hne
    | node name value attrs children next =>
      have hname : 0 < name.length := List.length_pos_iff.mpr hproper.1.1
      simp only [Elements.tagText, List.length_append]
      split
      · rw [Elements.leafText]
        split
        · simp only [List.length_append, List.length_cons, length_closeText]
          omega
        · simp only [List.length_cons, List.length_nil]
          omega
      · simp only [Elements.nestedText, List.length_append, length_closeText]
        omega
  refine ⟨e.tagText 0, List.replicate k 0 ++ mem.drop memSize, htext, hlen, rfl, ?_⟩
  rw [hbuild, holding, hk, List.replicate_succ, htext]
  rfl

lemma XmlFits.sized (h : XmlFits s e depth mem memSize) : e.Sized := by
  have hlt := h.text_lt
  have hmem := h.memSize_lt
  exact sized_of_rep h.rep h.proper 0 (by omega)

/-- The first node of a new document. -/
lemma createNextnode_first (hmalloc : ∀ k, malloc k = true) :
    createNextnode malloc ⟨⟨none, none, 0, 0, 0⟩, fun _ => none, 1⟩ none =
      some (some 1, ⟨⟨some 1, none, 0, 0, 0⟩, Function.update (fun _ => none) 1 (some zeroNode),
        2⟩) := by
  simp [createNextnode, createNode, safeMalloc_eq hmalloc, State.setNode]

/-- A text with long names is read back. -/
lemma xmlRoundTrips_of_longNames (hmalloc : ∀ k, malloc k = true)
    (h : XmlFits s e depth mem memSize) (hlong : e.LongNames) :
    XmlRoundTrips malloc s e depth mem memSize := by
  obtain ⟨t, rest, htext, hlen, rfl, hbuild⟩ := h.build
  obtain ⟨s', last, m, before, word, hparse, -, -, hxml, -, -, hrep⟩ :=
    reads hmalloc h.proper hlong h.sized h.ne_nil 0 1 none none
      ⟨⟨some 1, none, 0, 0, 0⟩, Function.update (fun _ => none) 1 (some zeroNode), 2⟩ (0 :: rest)
      (by simp) rfl rfl
  obtain ⟨d, tail, hd, htag⟩ := h.proper.tagText_eq h.ne_nil 0
  have hstart : parse malloc ⟨.outsideTag, none, 0, [], ⟨⟨none, none, 0, 0, 0⟩, fun _ => none, 1⟩⟩
      (less :: (e.tagText 0 ++ 0 :: rest)) = some s' := by
    have hend : parse malloc ⟨.outsideTag, some last, before, word, s'⟩ (0 :: rest) = some s' := by
      rw [parse.eq_def]
      rfl
    rw [← hend, ← hparse, htag, List.cons_append, parse_nextnode _ _ _ _ hd,
      createNextnode_first hmalloc, Option.bind_some, tagOf]
  refine ⟨_, _, s'.setCur s'.xml.nodeRoot, e.flip, hbuild, ?_, ?_, e.alike_flip⟩
  · rw [bxmlParse_text hmalloc hlen, hstart, Option.map_some]
  · simp only [State.setCur, hxml]
    exact hrep.mono (Set.subset_univ _)

/-- A text that is read back has long names. -/
lemma XmlRoundTrips.longNames (hround : XmlRoundTrips malloc s e depth mem memSize)
    (hmalloc : ∀ k, malloc k = true) (h : XmlFits s e depth mem memSize) : e.LongNames := by
  obtain ⟨t, rest, htext, hlen, rfl, hbuild⟩ := h.build
  obtain ⟨mem', len, s', e', hbuild', hparse, hrep, halike⟩ := hround
  obtain ⟨rfl, -⟩ := Prod.mk.inj (Option.some.inj (hbuild.symm.trans hbuild'))
  rw [bxmlParse_text hmalloc hlen] at hparse
  obtain ⟨final, hfinal, rfl⟩ := Option.map_eq_some_iff.mp hparse
  have hend : ∀ word, Safe malloc .outsideTag word (0 :: rest) := by
    intro word cur before s final htidy hdone
    obtain ⟨A, hlinks, -⟩ := htidy
    rw [parse.eq_def] at hdone
    obtain rfl := Option.some.inj hdone
    exact ⟨A, hlinks⟩
  have hsafe := safe_elements hmalloc h.proper h.sized h.ne_nil 0 hend
  obtain ⟨d, tail, hd, htag⟩ := h.proper.tagText_eq h.ne_nil 0
  rw [htag, List.cons_append] at hsafe hfinal
  have hempty : Tidy ⟨⟨none, none, 0, 0, 0⟩, fun _ => none, 1⟩ none := by
    refine ⟨∅, ⟨fun a ha => absurd ha (Set.notMem_empty a), fun p n hn => ?_⟩, fun c hc => ?_⟩
    · cases hn
    · cases hc
  obtain ⟨A, hlinks⟩ := safe_next hmalloc 0 hd hsafe [] none 0 _ final hempty hfinal
  exact halike.longNames (hlinks.longNames hrep)

/-- The round trip is the identity, up to the order of attributes, exactly on the documents whose
attributes all have names of at least two characters. -/
theorem xmlRoundTrips_iff (hmalloc : ∀ k, malloc k = true) (h : XmlFits s e depth mem memSize) :
    XmlRoundTrips malloc s e depth mem memSize ↔ e.LongNames := by
  constructor
  · intro hround
    exact hround.longNames hmalloc h
  · intro hlong
    exact xmlRoundTrips_of_longNames hmalloc h hlong

/-- A root `a` with one attribute, whose value is `1`. -/
def oneAttribute (name : List UInt8) : State :=
  { xml := ⟨some 1, none, 1, 0, 0⟩
    node := fun p => match p with
      | 1 => some { zeroNode with nodeAttr := some 2, nameLen := 1, name := some [97, 0] }
      | 2 => some { zeroNode with
          nodeParent := some 1, nameLen := .ofNat name.length, name := some (name ++ [0])
          valueLen := 1, value := some [49, 0] }
      | _ => none
    requests := 3 }

def oneAttributeElements (name : List UInt8) : Elements :=
  .node [97] [] [(name, [49])] .nil .nil

lemma oneAttribute_fits {name : List UInt8} (hname : IsName name) (hlen : name.length ≤ 40) :
    XmlFits (oneAttribute name) (oneAttributeElements name) 2 (List.replicate 64 0) 64 where
  rep := by
    have hbyte : (UInt8.ofNat name.length).toNat = name.length := by
      rw [UInt8.toNat_ofNat']
      omega
    refine ⟨1, _, rfl, fun n hn => ?_, rfl, ⟨rfl, rfl⟩, ⟨2, _, rfl, fun n hn => ?_, rfl,
      ⟨?_, rfl⟩, rfl, rfl, rfl⟩, rfl, rfl⟩
    · obtain rfl := Option.some.inj hn
      exact ⟨fun b hb => by cases hb; rfl, fun b hb => by cases hb⟩
    · obtain rfl := Option.some.inj hn
      refine ⟨fun b hb => ?_, fun b hb => by cases hb; rfl⟩
      obtain rfl := Option.some.inj hb
      simp [hbyte]
    · simpa only [hbyte] using bytesAt_append name [0]
  ne_nil := by simp [oneAttributeElements]
  proper := by
    refine ⟨by decide +kernel, by simp, ?_, by simp, trivial, trivial⟩
    intro attr hattr
    obtain rfl := List.mem_singleton.mp hattr
    have hplain : ∀ c ∈ [(49 : UInt8)], Plain c := by decide +kernel
    exact ⟨hname, by simp, hplain⟩
  depth_le := by simp [oneAttributeElements, Elements.depth]
  text_lt := by
    simp [oneAttributeElements, Elements.text, Elements.leafText, attrsText]
    omega
  memSize_le := le_rfl
  memSize_lt := by decide

theorem xmlRoundTrips_iff_long :
    XmlRoundTrips (fun _ => true) (oneAttribute [120, 121]) (oneAttributeElements [120, 121]) 2
        (List.replicate 64 0) 64 ↔ (oneAttributeElements [120, 121]).LongNames :=
  xmlRoundTrips_iff (fun _ => rfl) (oneAttribute_fits (by decide +kernel) (by decide))

/-- `<a x="1" />` comes back as an element `a` with the value `1` and no attribute. -/
theorem not_xmlRoundTrips :
    ¬ ∀ (malloc : ℕ → Bool) (s : State) (e : Elements) (depth : ℕ) (mem : List UInt8)
      (memSize : ℕ), (∀ k, malloc k = true) → XmlFits s e depth mem memSize →
      XmlRoundTrips malloc s e depth mem memSize := by
  intro h
  have hfits := @oneAttribute_fits [120] (by decide +kernel) (by decide)
  have hround := h (fun _ => true) _ _ 2 (List.replicate 64 0) 64 (fun _ => rfl) hfits
  exact absurd (hround.longNames (fun _ => rfl) hfits) (by decide)

end Sgos.Xml
