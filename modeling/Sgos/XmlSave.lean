import Sgos.Xml
import Sgos.TextBuffer

/-!
# Saving XML text

`do_save` of `tools/ld2/bxml.c` with the printer of `Sgos.Xml`, which is the same there. Beside it
stand the documents that a heap holds and the parts that their text consists of: what the printer
counts for each of them and what it writes.
-/
namespace Sgos.XmlSave
open ByteBuffer CString TextBuffer Bxml Xml

/-! ## The saver

`fresh` is what a new block of memory contains; memory and files are there. -/
section Saver
variable (fresh : (size : ℕ) → {bytes : List UInt8 // bytes.length = size})

/-- The loop over `i`: the document in a buffer that `build` finds large enough, if there is one
among the next `count` sizes. -/
def buildLoop (build : List UInt8 → ℕ → Option (List UInt8 × ℤ)) :
    (count : ℕ) → (size : ℕ) → Option (Option (List UInt8 × ℤ))
  | 0, _ => some none
  | count + 1, size => do
    let (buf, ret) ← build (fresh (size + 1)).1 size
    if ret < 0 then buildLoop build count (size * 10) else some (some (buf, ret))

/-- The result and the contents of the file. `build` and `put` are what the two values of `is_bxml`
select. -/
def doSave (build : List UInt8 → ℕ → Option (List UInt8 × ℤ))
    (put : List UInt8 → ℤ → Option (List UInt8)) : Option (ℤ × List UInt8) := do
  match ← buildLoop fresh build 5 (1024 * 4) with
  | none => some (-BXML_BUFF_TOO_SMALL, [])
  | some (buf, ret) => some (0, ← put buf ret)

/-- `fputs` writes the string in the buffer. -/
def bxmlSavexml (node : ℕ → Option BXML_NODE) (depth : ℕ) (xml : BXML_DATA) :
    Option (ℤ × List UInt8) :=
  doSave fresh (bxmlBuildxml node depth xml) fun buf _ => cstring buf

end Saver

/-! ## Documents -/

/-- The strings of a node, where its pointers are not null, and the length it states. -/
structure Label where
  name : Option (List UInt8)
  valueLen : UInt32
  value : Option (List UInt8)
  deriving DecidableEq, Repr

/-- A list of siblings. -/
inductive Document
  | nil
  | node (label : Label) (attrs : List Label) (children next : Document)
  deriving DecidableEq, Repr

/-- The strings at the pointers of a node. -/
structure Label.Of (l : Label) (n : BXML_NODE) : Prop where
  name_eq : Option.Rel (fun block text => cstring block = some text) n.name l.name
  valueLen_eq : n.valueLen = l.valueLen
  value_eq : Option.Rel (fun block text => cstring block = some text) n.value l.value

/-- The nodes of a list of attributes. -/
def ShowsAttrs (node : ℕ → Option BXML_NODE) : Option ℕ → List Label → Prop
  | p, [] => p = none
  | p, l :: attrs => ∃ a n, p = some a ∧ node a = some n ∧ l.Of n ∧ ShowsAttrs node n.nodeNext attrs

/-- The nodes of a list of siblings, with all that is below them. -/
def Shows (node : ℕ → Option BXML_NODE) : Option ℕ → Document → Prop
  | p, .nil => p = none
  | p, .node l attrs children next => ∃ a n, p = some a ∧ node a = some n ∧ l.Of n ∧
      ShowsAttrs node n.nodeAttr attrs ∧ Shows node n.nodeChild children ∧
      Shows node n.nodeNext next

/-! ## The text -/

/-- What the printer counts for a part of the text, and the part, unless a name in it is null. -/
structure Part where
  count : ℕ
  text : Option (List UInt8)
  deriving DecidableEq, Repr

namespace Label

def nameLength (l : Label) : ℕ := (l.name.getD []).length

/-- Tabs, `<` and the name. -/
def openPart (level : ℕ) (l : Label) : Part :=
  ⟨l.nameLength + 1 + level, l.name.map fun name => List.replicate level tab ++ less :: name⟩

/-- ` name="value"` -/
def attrPart (l : Label) : Part :=
  ⟨l.nameLength + l.valueLen.toNat + 4, l.name.map fun name =>
    space :: name ++ [equals, quote] ++ l.value.getD [less, 78, 85, 76, 76, greater] ++ [quote]⟩

/-- Tabs and `</name>`. -/
def closePart (level : ℕ) (l : Label) : Part :=
  ⟨l.nameLength + 4 + level, l.name.map fun name =>
    List.replicate level tab ++ ([less, slash] ++ name ++ [greater, newline])⟩

/-- The end of an element without children. -/
def leafParts (l : Label) (attrs : List Label) : List Part :=
  if attrs = [] ∨ 0 < l.valueLen then
    [⟨1, some [greater]⟩, ⟨l.valueLen.toNat, some (l.value.getD [])⟩, l.closePart 0]
  else [⟨4, some [space, slash, greater, newline]⟩]

end Label

namespace Document

/-- The parts of the text of a list of siblings, in their order. -/
def parts : ℕ → Document → List Part
  | _, nil => []
  | level, node l attrs children next =>
    l.openPart level :: (attrs.map Label.attrPart ++
      (if children = nil then l.leafParts attrs
        else ⟨2, some [greater, newline]⟩ :: (parts (level + 1) children ++ [l.closePart level])) ++
      parts level next)

/-- The calls of the printer that are open at a time, and the lengths of the lists of
attributes. -/
def depth : Document → ℕ
  | nil => 0
  | node _ attrs children next => max attrs.length (max children.depth next.depth) + 1

end Document

/-- All parts together. -/
def wholeText (ps : List Part) : List UInt8 := ps.flatMap fun p => p.text.getD []

/-- What is counted for all parts together. -/
def counted : List Part → ℕ
  | [] => 0
  | p :: ps => p.count + counted ps

def Document.text (doc : Document) : List UInt8 := wholeText (doc.parts 0)

/-- Of the size `len`, every part that is not empty leaves a positive rest, in 32 bits. -/
def Room : ℤ → List Part → Prop
  | _, [] => True
  | len, p :: ps => (p.text.getD [] ≠ [] → 0 < toInt32 (len - p.count)) ∧
      Room (toInt32 (len - p.count)) ps

instance decidableRoom : ∀ len ps, Decidable (Room len ps)
  | _, [] => .isTrue trivial
  | len, p :: ps => @instDecidableAnd _ _ inferInstance (decidableRoom (toInt32 (len - p.count)) ps)

/-- The text of the parts that leave a positive rest. -/
def roomyText : ℤ → List Part → List UInt8
  | _, [] => []
  | len, p :: ps => (if 0 < toInt32 (len - p.count) then p.text.getD [] else []) ++
      roomyText (toInt32 (len - p.count)) ps

/-- The sizes that are tried, from `size` on. -/
def triedSize (size : ℕ) : ℕ → ℕ
  | 0 => size
  | i + 1 => triedSize (size * 10) i

/-- No name is null; and either the count of the text is no negative number in 32 bits and there is
room for every part in the first buffer, or it is negative and no buffer is overrun. -/
structure Savable (ps : List Part) : Prop where
  named : ∀ p ∈ ps, p.text ≠ none
  room : 0 ≤ toInt32 (counted ps) → Room 4096 ps ∧ (wholeText ps).length ≤ 4096
  within : toInt32 (counted ps) < 0 →
    ∀ i < 5, (roomyText (triedSize 4096 i) ps).length ≤ triedSize 4096 i

end Sgos.XmlSave
