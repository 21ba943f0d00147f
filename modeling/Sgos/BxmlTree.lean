import Sgos.Bxml
import Mathlib.Data.Set.Basic
import Mathlib.Order.Interval.Set.Defs

/-!
# The trees that BXML documents stand for

A tree has a name, a value, attributes and children; lists of siblings are forests. The byte
format of a tree, the mirror image that reverses every list of siblings, and what it means that a
node on the heap represents a tree.
-/
namespace Sgos.Bxml
open ByteBuffer

/-- A list of sibling nodes, each with its attributes and its children. -/
inductive Forest
  | nil
  | node (name value : List UInt8) (attrs children next : Forest)
  deriving DecidableEq, Repr

structure Tree where
  name : List UInt8
  value : List UInt8
  attrs : Forest
  children : Forest
  deriving DecidableEq, Repr

namespace Forest

def length : Forest → ℕ
  | nil => 0
  | node _ _ _ _ next => next.length + 1

/-- The nesting of attributes and children. -/
def depth : Forest → ℕ
  | nil => 0
  | node _ _ attrs children next => max (max attrs.depth children.depth + 1) next.depth

/-- Every list of siblings in the opposite order, in front of `acc`. -/
def mirrorOnto : Forest → Forest → Forest
  | nil, acc => acc
  | node name value attrs children next, acc =>
    next.mirrorOnto (node name value (attrs.mirrorOnto nil) (children.mirrorOnto nil) acc)

def mirror (f : Forest) : Forest := f.mirrorOnto nil

/-- Names of at most 255 bytes, at most 255 attributes and at most 65535 children. -/
def Bounded : Forest → Prop
  | nil => True
  | node name _ attrs children next =>
    name.length ≤ 255 ∧ attrs.length ≤ 255 ∧ children.length ≤ 65535 ∧
      attrs.Bounded ∧ children.Bounded ∧ next.Bounded

instance decidableBounded : DecidablePred Bounded
  | nil => inferInstanceAs (Decidable True)
  | node name _ attrs children next =>
    have := decidableBounded attrs
    have := decidableBounded children
    have := decidableBounded next
    inferInstanceAs (Decidable (name.length ≤ 255 ∧ attrs.length ≤ 255 ∧
      children.length ≤ 65535 ∧ attrs.Bounded ∧ children.Bounded ∧ next.Bounded))

end Forest

/-- The fields of a node in front of its attributes. -/
def encodeFields (name value : List UInt8) (attrCount childCount : ℕ) : List UInt8 :=
  littleEndian 1 name.length ++ (name ++ (littleEndian 1 attrCount ++
    (littleEndian 2 childCount ++ (littleEndian 4 value.length ++ value))))

def Forest.encode : Forest → List UInt8
  | nil => []
  | node name value attrs children next =>
    encodeFields name value attrs.length children.length ++
      (attrs.encode ++ (children.encode ++ next.encode))

namespace Tree

def forest (t : Tree) : Forest := .node t.name t.value t.attrs t.children .nil

def mirror (t : Tree) : Tree := { t with attrs := t.attrs.mirror, children := t.children.mirror }

def Bounded (t : Tree) : Prop := t.forest.Bounded

instance : DecidablePred Bounded := fun t => inferInstanceAs (Decidable t.forest.Bounded)

def encode (t : Tree) : List UInt8 := t.forest.encode

/-- The size of the binary document. -/
def size (t : Tree) : ℕ := BXML_HEADER_SIZE + t.encode.length

end Tree

@[simp] lemma length_encodeFields (name value : List UInt8) (attrCount childCount : ℕ) :
    (encodeFields name value attrCount childCount).length = 8 + name.length + value.length := by
  simp only [encodeFields, List.length_append, length_littleEndian]
  omega

/-- Each level of nesting takes at least eight bytes. -/
lemma Forest.depth_le (f : Forest) : 8 * f.depth ≤ f.encode.length := by
  induction f with
  | nil => simp [depth]
  | node name value attrs children next iha ihc ihn =>
    simp only [depth, encode, List.length_append, length_encodeFields]
    omega

/-! ## Representation on the heap -/

/-- What the fields of a node say about its name and its value. -/
structure BXML_NODE.Holds (n : BXML_NODE) (name value : List UInt8) : Prop where
  name_eq : bytesAt n.name n.nameLen.toNat = some name
  value_eq : bytesAt n.value n.valueLen.toNat = some value

/-- The list of siblings at `p` represents a forest with nodes in `region`. -/
def RepIn (node : ℕ → Option BXML_NODE) (region : Set ℕ) : Option ℕ → Forest → Prop
  | p, .nil => p = none
  | p, .node name value attrs children next => ∃ a n, p = some a ∧ a ∈ region ∧ node a = some n ∧
      n.Holds name value ∧ RepIn node region n.nodeAttr attrs ∧
      RepIn node region n.nodeChild children ∧ RepIn node region n.nodeNext next

def Rep (node : ℕ → Option BXML_NODE) (p : Option ℕ) (f : Forest) : Prop :=
  RepIn node Set.univ p f

/-- The node at `p` represents a tree; its siblings do not matter. -/
def RepTree (node : ℕ → Option BXML_NODE) (p : ℕ) (t : Tree) : Prop :=
  ∃ n, node p = some n ∧ n.Holds t.name t.value ∧ Rep node n.nodeAttr t.attrs ∧
    Rep node n.nodeChild t.children

lemma bytesAt_length {block : Option (List UInt8)} {len : ℕ} {bytes : List UInt8}
    (h : bytesAt block len = some bytes) : bytes.length = len := by
  unfold bytesAt at h
  split at h
  · rename_i hlen
    obtain rfl := Option.some.inj h
    exact hlen.symm
  · obtain ⟨b, rfl, hb⟩ := Option.bind_eq_some_iff.mp h
    split at hb
    · rename_i hle
      obtain rfl := Option.some.inj hb
      exact List.length_take_of_le hle
    · cases hb

/-- A block that starts with the bytes yields them. -/
lemma bytesAt_append (bytes rest : List UInt8) :
    bytesAt (some (bytes ++ rest)) bytes.length = some bytes := by
  cases bytes with
  | nil => rfl
  | cons b bs => simp [bytesAt]

lemma BXML_NODE.Holds.unique {n : BXML_NODE} {name name' value value' : List UInt8}
    (h : n.Holds name value) (h' : n.Holds name' value') : name = name' ∧ value = value' :=
  ⟨Option.some.inj (h.name_eq.symm.trans h'.name_eq),
    Option.some.inj (h.value_eq.symm.trans h'.value_eq)⟩

variable {node node' : ℕ → Option BXML_NODE} {region region' : Set ℕ} {p : Option ℕ}

lemma RepIn.mono {f : Forest} (h : RepIn node region p f) (hsub : region ⊆ region') :
    RepIn node region' p f := by
  induction f generalizing p with
  | nil => exact h
  | node name value attrs children next iha ihc ihn =>
    obtain ⟨a, n, hp, ha, hn, hholds, hattrs, hchildren, hnext⟩ := h
    exact ⟨a, n, hp, hsub ha, hn, hholds, iha hattrs, ihc hchildren, ihn hnext⟩

/-- At `a` the two heaps hold the same node, up to its link to the previous sibling. -/
def SameAt (node node' : ℕ → Option BXML_NODE) (a : ℕ) : Prop :=
  ∀ n, node a = some n → ∃ pre, node' a = some { n with nodePre := pre }

lemma SameAt.refl (node : ℕ → Option BXML_NODE) (a : ℕ) : SameAt node node a :=
  fun n hn => ⟨n.nodePre, hn⟩

lemma SameAt.trans {node'' : ℕ → Option BXML_NODE} {a : ℕ} (h : SameAt node node' a)
    (h' : SameAt node' node'' a) : SameAt node node'' a := by
  intro n hn
  obtain ⟨pre, hpre⟩ := h n hn
  obtain ⟨pre', hpre'⟩ := h' _ hpre
  exact ⟨pre', hpre'⟩

/-- A representation reads no links to previous siblings, and nothing outside of its region. -/
lemma RepIn.congr {f : Forest} (h : RepIn node region p f)
    (hsame : ∀ a ∈ region, SameAt node node' a) : RepIn node' region p f := by
  induction f generalizing p with
  | nil => exact h
  | node name value attrs children next iha ihc ihn =>
    obtain ⟨a, n, hp, ha, hn, hholds, hattrs, hchildren, hnext⟩ := h
    obtain ⟨pre, hpre⟩ := hsame a ha n hn
    exact ⟨a, _, hp, ha, hpre, ⟨hholds.name_eq, hholds.value_eq⟩, iha hattrs, ihc hchildren,
      ihn hnext⟩

/-- A list of siblings represents at most one forest. -/
lemma RepIn.unique {f g : Forest} (h : RepIn node region p f) (h' : RepIn node region' p g) :
    f = g := by
  induction f generalizing p g with
  | nil =>
    cases g with
    | nil => rfl
    | node name value attrs children next =>
      obtain ⟨a, n, hp, -⟩ := h'
      cases hp.symm.trans h
  | node name value attrs children next iha ihc ihn =>
    obtain ⟨a, n, hp, -, hn, hholds, hattrs, hchildren, hnext⟩ := h
    cases g with
    | nil => cases hp.symm.trans h'
    | node name' value' attrs' children' next' =>
      obtain ⟨b, m, hb, -, hm, hholds', hattrs', hchildren', hnext'⟩ := h'
      obtain rfl := Option.some.inj (hp.symm.trans hb)
      obtain rfl := Option.some.inj (hn.symm.trans hm)
      obtain ⟨rfl, rfl⟩ := hholds.unique hholds'
      rw [iha hattrs hattrs', ihc hchildren hchildren', ihn hnext hnext']

lemma RepTree.unique {a : ℕ} {t t' : Tree} (h : RepTree node a t) (h' : RepTree node a t') :
    t = t' := by
  obtain ⟨n, hn, hholds, hattrs, hchildren⟩ := h
  obtain ⟨m, hm, hholds', hattrs', hchildren'⟩ := h'
  obtain rfl := Option.some.inj (hn.symm.trans hm)
  obtain ⟨hname, hvalue⟩ := hholds.unique hholds'
  have ha := RepIn.unique hattrs hattrs'
  have hc := RepIn.unique hchildren hchildren'
  cases t
  cases t'
  simp_all

end Sgos.Bxml
