import Sgos.BxmlPathTree

/-!
# Texts that the XML reader gets through

`parse_xml_node` takes any text, follows the pointers it has without a check, and puts a new node
behind any other. Beside the reader stands a scan of the text alone, with a stack of the names that
are open. It fails where the reader follows a null pointer or leaves its buffers, and where a new
node would be put in front of another one.
-/
namespace Sgos.XmlScan
open ByteBuffer CString Bxml Xml Relation
open BxmlPath (nextOf preOf headOf served rooted)

/-! ## Trees -/

def upOf (s : State) (a : ℕ) : Option ℕ := (s.node a).bind BXML_NODE.nodeParent

/-- The links between parents, children, attributes and siblings agree. Every node is reached from
the first of its siblings, which its parent points at, and no node lies below itself: a parent is
older than what is below it. -/
structure WellFormed (s : State) : Prop where
  siblings : ∀ a b, nextOf s a = some b ↔ preOf s b = some a
  parents : ∀ a b, nextOf s a = some b → upOf s b = upOf s a
  heads : ∀ p t b, headOf s p t = some b → upOf s b = some p ∧ preOf s b = none
  apart : ∀ p b, headOf s p .attribute = some b → headOf s p .node ≠ some b
  listed : ∀ a n, s.node a = some n → ∃ b, preOf s b = none ∧
    ReflTransGen (fun x y => nextOf s x = some y) b a ∧
      ∀ p, n.nodeParent = some p → ∃ t, headOf s p t = some b
  older : ∀ a p, upOf s a = some p → p < a
  root : ∀ r, s.xml.nodeRoot = some r → s.node r ≠ none ∧ preOf s r = none ∧ upOf s r = none

/-- Nodes are blocks that were requested. -/
def Allocated (s : State) : Prop := ∀ a n, s.node a = some n → a < s.requests

/-- The reader ends at the end of the text, and leaves a tree. -/
def ReadsWell (s : State) (text : List UInt8) : Prop :=
  ∃ s', parseXmlNode served s (text ++ [0]) = some s' ∧ WellFormed s'

/-! ## The scan -/

/-- An element or attribute that is open: its name, and whether it has a next sibling, attributes
and children. -/
structure Tag where
  name : List UInt8
  next : Bool
  attr : Bool
  child : Bool
  deriving DecidableEq, Repr

namespace Tag

def has (tag : Tag) : BXML_NODE_TYPE → Bool
  | .attribute => tag.attr
  | .node => tag.child

def give (tag : Tag) : BXML_NODE_TYPE → Tag
  | .attribute => { tag with attr := true }
  | .node => { tag with child := true }

end Tag

/-- `stack` has the node that the reader is at and what is above it. -/
structure Scan where
  state : PARSE_STATE
  stack : List Tag
  before : UInt8
  word : List UInt8
  deriving DecidableEq, Repr

namespace Scan

def skip (q : Scan) (c : UInt8) : Scan := { q with word := q.word ++ [c] }

def mark (q : Scan) (c : UInt8) : Scan := { q with before := c, word := [] }

/-- The name of the node has eight bits for its length. -/
def setName (q : Scan) : Option Scan :=
  match q.stack with
  | [] => none
  | tag :: stack =>
    if q.word.length < 256 then some { q with stack := { tag with name := q.word } :: stack }
    else none

/-- A node gets a value. -/
def setValue (q : Scan) : Option Scan :=
  match q.stack with
  | [] => none
  | _ :: _ => some q

/-- A node is left. -/
def moveUp (q : Scan) : Option Scan :=
  match q.stack with
  | [] => none
  | _ :: stack => some { q with stack }

/-- A new sibling, which must be the last one. -/
def createNextnode (q : Scan) : Option Scan :=
  match q.stack with
  | [] => some { q with stack := [⟨[], false, false, false⟩] }
  | tag :: stack =>
    if tag.next then none else some { q with stack := ⟨[], false, false, false⟩ :: stack }

/-- A new first child or attribute. -/
def createFirst (q : Scan) (type : BXML_NODE_TYPE) : Scan :=
  match q.stack with
  | [] => { q with stack := [⟨[], false, false, false⟩] }
  | tag :: stack =>
    { q with stack := ⟨[], tag.has type, false, false⟩ :: tag.give type :: stack }

def outsideTag (q : Scan) (c : UInt8) (rest : List UInt8) : Option Scan :=
  if c = less then do
    let next ← rest.head?
    if next = slash then do
      let q ← q.moveUp
      some ({ q with state := .tagEnd }.mark c)
    else if next = question then some ({ q with state := .header }.mark c)
    else if next = exclamation then some ({ q with state := .comment }.mark c)
    else do
      let q ← { q with state := .tagName }.createNextnode
      some (q.mark c)
  else some (q.skip c)

def header (q : Scan) (c : UInt8) : Scan :=
  (if c = greater then { q with state := .outsideTag } else q).skip c

def tagName (q : Scan) (c : UInt8) : Option Scan :=
  if c = greater ∨ Blank c ∨ c = slash then do
    let q ← if 0 < q.word.length then q.setName else some q
    some ({ q with state := if c = greater then .text else .attributeName }.mark c)
  else some (q.skip c)

def text (q : Scan) (c : UInt8) (rest : List UInt8) : Option Scan :=
  if c = less then do
    let next ← rest.head?
    if next = slash then do
      let q ← if 0 < q.word.length then q.setValue else some q
      some ({ q with state := .tagEnd }.mark c)
    else some (({ q with state := .tagName }.createFirst .node).mark c)
  else some (q.skip c)

/-- Whether the word is a slash and agrees with the name as far as the shorter one goes. -/
def ends (tag : Tag) : List UInt8 → Option Bool
  | [] => some false
  | c :: word =>
    if c = slash then strncmp word (tag.name ++ [0]) (min tag.name.length word.length)
    else some false

def tagEnd (q : Scan) (c : UInt8) : Option Scan :=
  if c = greater then
    match q.stack with
    | [] => none
    | tag :: _ => do
      if ← ends tag q.word then some ({ q with state := .outsideTag }.skip c) else some (q.skip c)
  else some (q.skip c)

def attributeName (q : Scan) (c : UInt8) : Option Scan :=
  if Blank c ∨ c = equals then do
    let state := if c = equals then .attributeValue else .attributeName
    let q ← if 1 < q.word.length then (q.createFirst .attribute).setName else some q
    some ({ q with state := state }.mark c)
  else if c = greater then some ({ q with state := .text }.mark c)
  else some (q.skip c)

def attributeValue (q : Scan) (c : UInt8) : Option Scan :=
  if c = quote then
    if q.before = quote then do
      let q ← if 0 < q.word.length then q.setValue else some q
      let q ← { q with state := .attributeName }.moveUp
      some (q.mark c)
    else some (q.mark c)
  else some (q.skip c)

def char (q : Scan) (c : UInt8) (rest : List UInt8) : Option Scan :=
  match q.state with
  | .outsideTag => q.outsideTag c rest
  | .header | .comment => some (q.header c)
  | .tagName => q.tagName c
  | .text => q.text c rest
  | .tagEnd => q.tagEnd c
  | .attributeName => q.attributeName c
  | .attributeValue => q.attributeValue c

/-- A slash in a tag takes the character behind it along. -/
def shortEnd (q : Scan) (c c' : UInt8) : Scan :=
  ((if c' = greater then { q with state := .outsideTag } else q).skip c).skip c'

end Scan

/-- Whether the scan of a text with a zero behind it gets to the zero. -/
def scans : Scan → List UInt8 → Bool
  | _, [] => false
  | q, c :: rest =>
    if c = 0 then true
    else if q.state = .attributeName ∧ c = slash then
      match rest with
      | [] => false
      | c' :: rest => scans (q.shortEnd c c') rest
    else
      match q.char c rest with
      | none => false
      | some q => scans q rest

/-- The scan of a text finds nothing wrong. -/
def Balanced (text : List UInt8) : Prop := scans ⟨.outsideTag, [], 0, []⟩ (text ++ [0]) = true

instance (text : List UInt8) : Decidable (Balanced text) :=
  inferInstanceAs (Decidable (_ = true))

end Sgos.XmlScan
