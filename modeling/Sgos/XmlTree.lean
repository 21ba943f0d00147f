import Sgos.Xml
import Sgos.BxmlTree
import Mathlib.Data.List.Perm.Basic

/-!
# The elements that XML documents stand for

Elements have a name, a value, a list of attributes and children. The text of elements, the
conditions on their names and values, and equality up to the order of attributes.
-/
namespace Sgos.Xml
open ByteBuffer CString Bxml

/-- A list of sibling elements. An attribute is a name and a value. -/
inductive Elements
  | nil
  | node (name value : List UInt8) (attrs : List (List UInt8 × List UInt8))
      (children next : Elements)
  deriving DecidableEq, Repr

/-- Letters and digits. -/
def Alnum (c : UInt8) : Prop := 48 ≤ c ∧ c ≤ 57 ∨ 65 ≤ c ∧ c ≤ 90 ∨ 97 ≤ c ∧ c ≤ 122

instance : DecidablePred Alnum := fun c =>
  inferInstanceAs (Decidable (48 ≤ c ∧ c ≤ 57 ∨ 65 ≤ c ∧ c ≤ 90 ∨ 97 ≤ c ∧ c ≤ 122))

/-- The characters of values: those of a string that have no meaning in a tag. -/
def Plain (c : UInt8) : Prop :=
  c ≠ 0 ∧ c ≠ less ∧ c ≠ greater ∧ c ≠ slash ∧ c ≠ equals ∧ c ≠ quote

instance : DecidablePred Plain := fun c =>
  inferInstanceAs (Decidable (c ≠ 0 ∧ c ≠ less ∧ c ≠ greater ∧ c ≠ slash ∧ c ≠ equals ∧ c ≠ quote))

lemma Alnum.plain {c : UInt8} (h : Alnum c) : Plain c := by
  refine ⟨?_, ?_, ?_, ?_, ?_, ?_⟩ <;> rintro rfl <;> exact absurd h (by decide)

lemma Alnum.not_blank {c : UInt8} (h : Alnum c) : ¬Blank c := by
  rintro (rfl | rfl | rfl | rfl) <;> exact absurd h (by decide)

/-- A name: letters and digits, at least one. -/
def IsName (name : List UInt8) : Prop := name ≠ [] ∧ ∀ c ∈ name, Alnum c

instance : DecidablePred IsName := fun name =>
  inferInstanceAs (Decidable (name ≠ [] ∧ ∀ c ∈ name, Alnum c))

/-- An attribute with a name and a value that is not empty. -/
def IsAttribute (attr : List UInt8 × List UInt8) : Prop :=
  IsName attr.1 ∧ attr.2 ≠ [] ∧ ∀ c ∈ attr.2, Plain c

instance : DecidablePred IsAttribute := fun attr =>
  inferInstanceAs (Decidable (IsName attr.1 ∧ attr.2 ≠ [] ∧ ∀ c ∈ attr.2, Plain c))

lemma IsName.zero_notMem {name : List UInt8} (h : IsName name) : (0 : UInt8) ∉ name := by
  intro hmem
  exact (h.2 0 hmem).plain.1 rfl

/-- ` name="value"` for each attribute. -/
def attrsText (attrs : List (List UInt8 × List UInt8)) : List UInt8 :=
  attrs.flatMap fun attr => space :: attr.1 ++ [equals, quote] ++ attr.2 ++ [quote]

/-- `</name>` and the end of the line. -/
def closeText (name : List UInt8) : List UInt8 := [less, slash] ++ name ++ [greater, newline]

/-- The attributes as a forest of leaves. -/
def attrForest (attrs : List (List UInt8 × List UInt8)) : Forest :=
  attrs.foldr (fun attr next => .node attr.1 attr.2 .nil .nil next) .nil

namespace Elements

/-- The nodes that stand for elements. -/
def forest : Elements → Forest
  | nil => .nil
  | node name value attrs children next =>
    .node name value (attrForest attrs) children.forest next.forest

/-- The end of an element without children. -/
def leafText (name value : List UInt8) (attrs : List (List UInt8 × List UInt8)) : List UInt8 :=
  if attrs = [] ∨ value ≠ [] then greater :: value ++ closeText name
  else [space, slash, greater, newline]

/-- The end of an element with children, whose text is `inner`. -/
def nestedText (level : ℕ) (name inner : List UInt8) : List UInt8 :=
  [greater, newline] ++ inner ++ List.replicate level tab ++ closeText name

/-- The lines of elements that are indented by `level` tabs. -/
def text : ℕ → Elements → List UInt8
  | _, nil => []
  | level, node name value attrs children next =>
    List.replicate level tab ++ (less :: (name ++ (attrsText attrs ++
      ((if children = nil then leafText name value attrs
        else nestedText level name (text (level + 1) children)) ++ text level next))))

/-- The text behind the first `<`. -/
def tagText (level : ℕ) : Elements → List UInt8
  | nil => []
  | node name value attrs children next =>
    name ++ (attrsText attrs ++ ((if children = nil then leafText name value attrs
      else nestedText level name (text (level + 1) children)) ++ text level next))

/-- Names and values as the text format needs them; only nodes without children have a value. -/
def Proper : Elements → Prop
  | nil => True
  | node name value attrs children next =>
    IsName name ∧ (∀ c ∈ value, Plain c) ∧ (∀ attr ∈ attrs, IsAttribute attr) ∧
      (children ≠ nil → value = []) ∧ children.Proper ∧ next.Proper

instance decidableProper : DecidablePred Proper
  | nil => inferInstanceAs (Decidable True)
  | node name value attrs children next =>
    have := decidableProper children
    have := decidableProper next
    inferInstanceAs (Decidable (IsName name ∧ (∀ c ∈ value, Plain c) ∧
      (∀ attr ∈ attrs, IsAttribute attr) ∧ (children ≠ nil → value = []) ∧
        children.Proper ∧ next.Proper))

/-- The same elements up to the order of attributes. -/
def Alike : Elements → Elements → Prop
  | nil, nil => True
  | node name value attrs children next, node name' value' attrs' children' next' =>
    name = name' ∧ value = value' ∧ attrs.Perm attrs' ∧ children.Alike children' ∧
      next.Alike next'
  | _, _ => False

/-- Every name of an attribute has at least two characters. -/
def LongNames : Elements → Prop
  | nil => True
  | node _ _ attrs children next =>
    (∀ attr ∈ attrs, 2 ≤ attr.1.length) ∧ children.LongNames ∧ next.LongNames

instance decidableLongNames : DecidablePred LongNames
  | nil => inferInstanceAs (Decidable True)
  | node _ _ attrs children next =>
    have := decidableLongNames children
    have := decidableLongNames next
    inferInstanceAs (Decidable ((∀ attr ∈ attrs, 2 ≤ attr.1.length) ∧ children.LongNames ∧
      next.LongNames))

/-- The calls of the printer that are open at a time, and the lengths of the lists of
attributes. -/
def depth : Elements → ℕ
  | nil => 0
  | node _ _ attrs children next => max attrs.length (max children.depth next.depth) + 1

/-- Every list of attributes in the opposite order. -/
def flip : Elements → Elements
  | nil => nil
  | node name value attrs children next => node name value attrs.reverse children.flip next.flip

/-- The text of elements is tabs, `<` and the text behind it. -/
lemma text_eq {e : Elements} (hne : e ≠ nil) (level : ℕ) :
    e.text level = List.replicate level tab ++ less :: e.tagText level := by
  cases e with
  | nil => exact absurd rfl hne
  | node name value attrs children next => rfl

/-- What follows the first `<` starts with a letter or a digit. -/
lemma Proper.tagText_eq {e : Elements} (he : e.Proper) (hne : e ≠ nil) (level : ℕ) :
    ∃ c tail, Alnum c ∧ e.tagText level = c :: tail := by
  cases e with
  | nil => exact absurd rfl hne
  | node name value attrs children next =>
    obtain ⟨⟨hname, halnum⟩, -⟩ := he
    cases name with
    | nil => exact absurd rfl hname
    | cons c name => exact ⟨c, _, halnum c List.mem_cons_self, rfl⟩

lemma alike_flip (e : Elements) : e.Alike e.flip := by
  induction e with
  | nil => trivial
  | node name value attrs children next ihc ihn =>
    exact ⟨rfl, rfl, (List.reverse_perm attrs).symm, ihc, ihn⟩

/-- The length of names does not depend on the order of attributes. -/
lemma Alike.longNames {e e' : Elements} (h : e.Alike e') (he : e'.LongNames) : e.LongNames := by
  induction e generalizing e' with
  | nil => trivial
  | node name value attrs children next ihc ihn =>
    cases e' with
    | nil => exact h.elim
    | node name' value' attrs' children' next' =>
      obtain ⟨-, -, hperm, hchildren, hnext⟩ := h
      exact ⟨fun attr hattr => he.1 attr (hperm.mem_iff.mp hattr), ihc hchildren he.2.1,
        ihn hnext he.2.2⟩

/-- Names that fit in `name_len` and values that fit in `value_len`. -/
def Sized : Elements → Prop
  | nil => True
  | node name value attrs children next =>
    name.length ≤ 255 ∧ value.length + 1 < 2 ^ 32 ∧
      (∀ attr ∈ attrs, attr.1.length ≤ 255 ∧ attr.2.length + 1 < 2 ^ 32) ∧ children.Sized ∧
      next.Sized

end Elements

lemma attrsText_cons (name value : List UInt8) (attrs : List (List UInt8 × List UInt8)) :
    attrsText ((name, value) :: attrs) =
      space :: name ++ [equals, quote] ++ value ++ [quote] ++ attrsText attrs := rfl

/-- A blank or `>` follows the name of an element. -/
lemma Elements.afterName (level : ℕ) (name value : List UInt8)
    (attrs : List (List UInt8 × List UInt8)) (children : Elements) (inner rest : List UInt8) :
    ∃ c tail, (c = space ∨ c = greater) ∧
      attrsText attrs ++ ((if children = nil then leafText name value attrs
        else nestedText level name inner) ++ rest) = c :: tail := by
  cases attrs with
  | cons attr attrs => exact ⟨space, _, .inl rfl, rfl⟩
  | nil =>
    by_cases hnil : children = nil
    · rw [if_pos hnil]
      exact ⟨greater, _, .inr rfl, rfl⟩
    · rw [if_neg hnil]
      exact ⟨greater, _, .inr rfl, rfl⟩

lemma zero_notMem_attrsText {attrs : List (List UInt8 × List UInt8)}
    (h : ∀ attr ∈ attrs, IsAttribute attr) : (0 : UInt8) ∉ attrsText attrs := by
  intro hmem
  obtain ⟨attr, hattr, hc⟩ := List.mem_flatMap.mp hmem
  obtain ⟨hname, -, hvalue⟩ := h attr hattr
  have hn := hname.zero_notMem
  have hv : (0 : UInt8) ∉ attr.2 := fun hc => (hvalue 0 hc).1 rfl
  simp only [List.cons_append, List.mem_cons, List.mem_append, List.not_mem_nil, hn, hv] at hc
  revert hc
  decide

lemma zero_notMem_closeText {name : List UInt8} (h : IsName name) :
    (0 : UInt8) ∉ closeText name := by
  have hn := h.zero_notMem
  simp only [closeText, List.cons_append, List.mem_cons, List.mem_append, List.not_mem_nil, hn]
  decide

namespace Elements

lemma zero_notMem_leafText {name value : List UInt8} (attrs : List (List UInt8 × List UInt8))
    (hname : IsName name) (hvalue : ∀ c ∈ value, Plain c) :
    (0 : UInt8) ∉ leafText name value attrs := by
  have hv : (0 : UInt8) ∉ value := fun hc => (hvalue 0 hc).1 rfl
  have hc := zero_notMem_closeText hname
  rw [leafText]
  split
  · simp only [List.cons_append, List.mem_cons, List.mem_append, hv, hc]
    decide
  · decide

/-- The text is a string. -/
lemma Proper.zero_notMem {e : Elements} (h : e.Proper) (level : ℕ) :
    (0 : UInt8) ∉ e.text level := by
  induction e generalizing level with
  | nil => exact List.not_mem_nil
  | node name value attrs children next ihc ihn =>
    obtain ⟨hname, hvalue, hattrs, -, hchildren, hnext⟩ := h
    have htabs : (0 : UInt8) ∉ List.replicate level tab := by
      intro hmem
      exact absurd (List.eq_of_mem_replicate hmem) (by decide)
    have hbody : (0 : UInt8) ∉ (if children = nil then leafText name value attrs
        else nestedText level name (text (level + 1) children)) := by
      split
      · exact zero_notMem_leafText attrs hname hvalue
      · simp only [nestedText, List.mem_append, List.mem_cons, List.not_mem_nil, ihc hchildren,
          htabs, zero_notMem_closeText hname]
        decide
    rw [text]
    simp only [List.mem_append, List.mem_cons, htabs, hname.zero_notMem,
      zero_notMem_attrsText hattrs, hbody, ihn hnext]
    decide

end Elements

/-! ## Representation on the heap -/

/-- A string of the given length and the zero behind it. -/
def Terminated (block : Option (List UInt8)) (len : ℕ) : Prop :=
  ∀ bytes, block = some bytes → bytes[len]? = some 0

/-- The nodes whose name and value are closed by a zero. -/
def stringNodes (node : ℕ → Option BXML_NODE) : Set ℕ :=
  {a | ∀ n, node a = some n → Terminated n.name n.nameLen.toNat ∧
    Terminated n.value n.valueLen.toNat}

/-- A terminated block starts with its string. -/
lemma cstring_of_terminated {block : Option (List UInt8)} {len : ℕ} {bytes : List UInt8}
    (h : Terminated block len) (hbytes : bytesAt block len = some bytes)
    (hzero : (0 : UInt8) ∉ bytes) {b : List UInt8} (hb : block = some b) :
    cstring b = some bytes := by
  have hlen := h b hb
  obtain ⟨hlt, hget⟩ := List.getElem?_eq_some_iff.mp hlen
  have htake : b.take len = bytes := by
    subst hb
    unfold bytesAt at hbytes
    split at hbytes
    · rename_i h0
      rw [h0, List.take_zero]
      exact Option.some.inj hbytes
    · rw [Option.bind_some, if_pos (Nat.le_of_lt hlt)] at hbytes
      exact Option.some.inj hbytes
  have hsplit : b = bytes ++ 0 :: b.drop (len + 1) := by
    rw [← htake, ← hget, ← List.drop_eq_getElem_cons hlt, List.take_append_drop]
  rw [hsplit]
  exact cstring_append hzero _

end Sgos.Xml
