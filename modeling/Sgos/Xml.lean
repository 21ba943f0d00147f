import Sgos.Bxml
import Sgos.CString

/-!
# XML text of BXML documents

The reader `parse_xml_node` and the printer `bxml_buildxml` of `apps/msg/bxml.c`. The reader is a
loop over the characters with eight states; its pointers `v` and `p` are kept as the text between
them. The printer appends strings to a buffer and counts the bytes that are left.
-/
namespace Sgos.Xml
open ByteBuffer CString Bxml

def tab : UInt8 := '\t'.toUInt8
def newline : UInt8 := '\n'.toUInt8
def carriageReturn : UInt8 := '\r'.toUInt8
def space : UInt8 := ' '.toUInt8
def exclamation : UInt8 := '!'.toUInt8
def quote : UInt8 := '"'.toUInt8
def slash : UInt8 := '/'.toUInt8
def less : UInt8 := '<'.toUInt8
def equals : UInt8 := '='.toUInt8
def greater : UInt8 := '>'.toUInt8
def question : UInt8 := '?'.toUInt8

def Blank (c : UInt8) : Prop := c = space ∨ c = carriageReturn ∨ c = newline ∨ c = tab

instance : DecidablePred Blank := fun c =>
  inferInstanceAs (Decidable (c = space ∨ c = carriageReturn ∨ c = newline ∨ c = tab))

inductive PARSE_STATE
  | outsideTag | tagName | tagEnd | text | attributeName | attributeValue | header | comment
  deriving DecidableEq, Repr

/-! ## The reader

`malloc` says which requests the allocator serves. -/
section Reader
variable (malloc : ℕ → Bool)

/-- `if( p ) p->node_pre = nod;` -/
def setPre (s : State) (p : Option ℕ) (nod : ℕ) : Option State :=
  match p with
  | none => some s
  | some p => s.modify p fun m => { m with nodePre := some nod }

/-- A new node behind `cur`. -/
def createNextnode (s : State) (cur : Option ℕ) : Option (Option ℕ × State) :=
  match createNode malloc s with
  | (none, s) => some (none, s)
  | (some nod, s) =>
    match cur with
    | none => some (some nod, s)
    | some cur => do
      let s ← s.modify nod fun m => { m with nodePre := some cur }
      let n ← s.node cur
      let s ← setPre s n.nodeNext nod
      let s ← s.modify cur fun m => { m with nodeNext := some nod }
      let s ← s.modify nod fun m => { m with nodeParent := n.nodeParent }
      some (some nod, s)

/-- The word between `v` and `p` becomes the name of `cur`. -/
def setName (s : State) (cur : Option ℕ) (word : List UInt8) : Option State := do
  let cur ← cur
  let nameLen := UInt8.ofNat word.length
  let s ← s.modify cur fun n => { n with nameLen := nameLen }
  let (name, s) ← copyString malloc s (UInt32.ofNat nameLen.toNat + 1) word
  s.modify cur fun n => { n with name := name }

/-- The word between `v` and `p` becomes the value of `cur`. -/
def setValue (s : State) (cur : Option ℕ) (word : List UInt8) : Option State := do
  let cur ← cur
  let valueLen := UInt32.ofNat word.length
  let s ← s.modify cur fun n => { n with valueLen := valueLen }
  let (value, s) ← copyString malloc s (valueLen + 1) word
  s.modify cur fun n => { n with value := value }

/-- `cur->node_parent` -/
def parentOf (s : State) (cur : Option ℕ) : Option (Option ℕ) := do
  let n ← s.node (← cur)
  some n.nodeParent

/-- The variables of `parse_xml_node`: `before` is `*(v-1)` and `word` is the text from `v` to the
character in front of `p`. -/
structure Parser where
  state : PARSE_STATE
  cur : Option ℕ
  before : UInt8
  word : List UInt8
  xml : State

namespace Parser

/-- The character `c` at `p` is passed. -/
def skip (s : Parser) (c : UInt8) : Parser := { s with word := s.word ++ [c] }

/-- `v = p+1`, with the character `c` at `p`. -/
def mark (s : Parser) (c : UInt8) : Parser := { s with before := c, word := [] }

/-- `cur = cur->node_parent` -/
def moveUp (s : Parser) : Option Parser :=
  (parentOf s.xml s.cur).map fun parent => { s with cur := parent }

end Parser

/-- The loop goes on, or the function returns. -/
inductive Progress
  | next (s : Parser)
  | done (xml : State)

/-- `cur = create( xml, cur ); if( !cur ) return;` -/
def create (createnode : State → Option ℕ → Option (Option ℕ × State)) (s : Parser) :
    Option Progress := do
  match ← createnode s.xml s.cur with
  | (none, xml) => some (.done xml)
  | (some nod, xml) => some (.next { s with cur := some nod, xml := xml })

def readOutsideTag (s : Parser) (c : UInt8) (rest : List UInt8) : Option Progress :=
  if c = less then do
    let next ← rest.head?
    if next = slash then do
      let s ← s.moveUp
      some (.next ({ s with state := .tagEnd }.mark c))
    else if next = question then some (.next ({ s with state := .header }.mark c))
    else if next = exclamation then some (.next ({ s with state := .comment }.mark c))
    else do
      match ← create (createNextnode malloc) { s with state := .tagName } with
      | .done xml => some (.done xml)
      | .next s => some (.next (s.mark c))
  else some (.next (s.skip c))

/-- The states `Header` and `Comment`. -/
def readHeader (s : Parser) (c : UInt8) : Option Progress :=
  some (.next ((if c = greater then { s with state := .outsideTag } else s).skip c))

def readTagName (s : Parser) (c : UInt8) : Option Progress :=
  if c = greater ∨ Blank c ∨ c = slash then do
    let xml ← if 0 < s.word.length then setName malloc s.xml s.cur s.word else some s.xml
    let state := if c = greater then .text else .attributeName
    some (.next ({ s with state := state, xml := xml }.mark c))
  else some (.next (s.skip c))

def readText (s : Parser) (c : UInt8) (rest : List UInt8) : Option Progress :=
  if c = less then do
    let next ← rest.head?
    if next = slash then do
      let xml ← if 0 < s.word.length then setValue malloc s.xml s.cur s.word else some s.xml
      some (.next ({ s with state := .tagEnd, xml := xml }.mark c))
    else do
      match ← create (createChildnode malloc) { s with state := .tagName } with
      | .done xml => some (.done xml)
      | .next s => some (.next (s.mark c))
  else some (.next (s.skip c))

/-- Whether the word is a slash and a name that agrees with the name of the node, as far as the
shorter of the two goes. A null name is not read when there is nothing to compare. -/
def endsTag (n : BXML_NODE) : List UInt8 → Option Bool
  | [] => some false
  | c :: word =>
    if c = slash then strncmp word (n.name.getD []) (min n.nameLen.toNat word.length)
    else some false

def readTagEnd (s : Parser) (c : UInt8) : Option Progress :=
  if c = greater then do
    let n ← s.xml.node (← s.cur)
    if ← endsTag n s.word then some (.next ({ s with state := .outsideTag }.skip c))
    else some (.next (s.skip c))
  else some (.next (s.skip c))

/-- All characters but the slash, which takes the character behind it along. -/
def readAttributeName (s : Parser) (c : UInt8) : Option Progress :=
  if Blank c ∨ c = equals then do
    let state := if c = equals then .attributeValue else .attributeName
    if 1 < s.word.length then do
      match ← create (createAttrnode malloc) s with
      | .done xml => some (.done xml)
      | .next s => do
        let xml ← setName malloc s.xml s.cur s.word
        some (.next ({ s with state := state, xml := xml }.mark c))
    else some (.next ({ s with state := state }.mark c))
  else if c = greater then some (.next ({ s with state := .text }.mark c))
  else some (.next (s.skip c))

def readAttributeValue (s : Parser) (c : UInt8) : Option Progress :=
  if c = quote then
    if s.before = quote then do
      let xml ← if 0 < s.word.length then setValue malloc s.xml s.cur s.word else some s.xml
      let s ← { s with state := .attributeName, xml := xml }.moveUp
      some (.next (s.mark c))
    else some (.next (s.mark c))
  else some (.next (s.skip c))

/-- The body of the loop, for all but a slash behind an attribute. -/
def readChar (s : Parser) (c : UInt8) (rest : List UInt8) : Option Progress :=
  match s.state with
  | .outsideTag => readOutsideTag malloc s c rest
  | .header | .comment => readHeader s c
  | .tagName => readTagName malloc s c
  | .text => readText malloc s c rest
  | .tagEnd => readTagEnd s c
  | .attributeName => readAttributeName malloc s c
  | .attributeValue => readAttributeValue malloc s c

/-- `*(++p)` behind the slash of a short tag. -/
def readShortEnd (s : Parser) (c c' : UInt8) : Parser :=
  ((if c' = greater then { s with state := .outsideTag } else s).skip c).skip c'

/-- The loop, from the character at `p` on. -/
def parse : Parser → List UInt8 → Option State
  | _, [] => none
  | s, c :: rest =>
    if c = 0 then some s.xml
    else if s.state = .attributeName ∧ c = slash then
      match rest with
      | [] => none
      | c' :: rest => parse (readShortEnd s c c') rest
    else do
      match ← readChar malloc s c rest with
      | .done xml => some xml
      | .next s => parse s rest

def parseXmlNode (xml : State) (mem : List UInt8) : Option State :=
  parse malloc ⟨.outsideTag, none, 0, [], xml⟩ mem

end Reader

/-! ## The printer -/
section Printer
variable (node : ℕ → Option BXML_NODE)

/-- `strcat( mem, "\t" )`, `level` times. -/
def indent : ℕ → List UInt8 → ℕ → Option (List UInt8)
  | 0, mem, _ => some mem
  | level + 1, mem, q => do indent level (← strcat mem q [tab]) q

/-- What `%s` prints for a pointer. -/
def formatString : Option (List UInt8) → Option (List UInt8)
  | none => some [less, 78, 85, 76, 76, greater]
  | some block => cstring block

/-- `sprintf( mem, "%s…", mem, … )`: the string at `q` stays and `text` follows it. -/
def printBehind (mem : List UInt8) (q : ℕ) (text : List UInt8) : Option (List UInt8) := do
  let old ← cstring (mem.drop q)
  sprintf mem q (old ++ text)

/-- The loop over the attributes, at most `bound` of them. -/
def buildAttributes : ℕ → Option ℕ → List UInt8 → ℕ → ℤ → Option (List UInt8 × ℤ)
  | _, none, mem, _, len => some (mem, len)
  | 0, some _, _, _, _ => none
  | bound + 1, some p, mem, q, len => do
    let n ← node p
    let name ← cstring (← n.name)
    let len := toInt32 (len - (name.length + n.valueLen.toNat + 4 : ℕ))
    let mem ← if 0 < len then do
        let value ← formatString n.value
        printBehind mem q (space :: name ++ [equals, quote] ++ value ++ [quote])
      else some mem
    buildAttributes bound n.nodeNext mem q len

/-- `sprintf( mem, "%s</%s>\n", mem, nod->name )` -/
def buildClose (mem : List UInt8) (q : ℕ) (name : List UInt8) : Option (List UInt8) :=
  printBehind mem q ([less, slash] ++ name ++ [greater, newline])

/-- `if( len>0 && nod->value ) strcat( mem, nod->value );` -/
def buildValue (n : BXML_NODE) (mem : List UInt8) (q : ℕ) (len : ℤ) : Option (List UInt8) :=
  match n.value with
  | some block => if 0 < len then do strcat mem q (← cstring block) else some mem
  | none => some mem

/-- The body of a node without children. -/
def buildLeaf (n : BXML_NODE) (name : List UInt8) (mem : List UInt8) (q : ℕ) (len : ℤ) :
    Option (List UInt8 × ℤ) :=
  if n.nodeAttr = none ∨ 0 < n.valueLen then do
    let len := toInt32 (len - 1)
    let mem ← if 0 < len then strcat mem q [greater] else some mem
    let len := toInt32 (len - n.valueLen.toNat)
    let mem ← buildValue n mem q len
    let len := toInt32 (len - (name.length + 4 : ℕ))
    let mem ← if 0 < len then buildClose mem q name else some mem
    some (mem, len)
  else do
    let len := toInt32 (len - 4)
    let mem ← if 0 < len then strcat mem q [space, slash, greater, newline] else some mem
    some (mem, len)

/-- `mem+strlen(mem)` -/
def stringEnd (mem : List UInt8) (q : ℕ) : Option ℕ :=
  (cstring (mem.drop q)).map fun text => q + text.length

/-- The body of a node with children, which `build` prints. -/
def buildNested (build : ℕ → ℕ → List UInt8 → ℕ → ℤ → Option (List UInt8 × ℤ)) (child level : ℕ)
    (name : List UInt8) (mem : List UInt8) (q : ℕ) (len : ℤ) : Option (List UInt8 × ℤ) := do
  let len := toInt32 (len - 2)
  let mem ← if 0 < len then strcat mem q [greater, newline] else some mem
  let (mem, len) ← build child (level + 1) mem (← stringEnd mem q) len
  let len := toInt32 (len - (name.length + 4 + level : ℕ))
  let mem ← if 0 < len then do buildClose (← indent level mem q) q name else some mem
  some (mem, len)

/-- Tabs, `<` and the name. -/
def buildOpen (level : ℕ) (name : List UInt8) (mem : List UInt8) (q : ℕ) :
    Option (List UInt8) := do
  let mem ← indent level mem q
  let mem ← strcat mem q [less]
  strcat mem q name

/-- Lines 358 to 397 of `build_xml_node`: one node and what is below it. -/
def buildNode (build : ℕ → ℕ → List UInt8 → ℕ → ℤ → Option (List UInt8 × ℤ)) (bound : ℕ)
    (n : BXML_NODE) (level : ℕ) (mem : List UInt8) (q : ℕ) (memSize : ℤ) :
    Option (List UInt8 × ℤ) := do
  let name ← cstring (← n.name)
  let len := toInt32 (memSize - (name.length + 1 + level : ℕ))
  let mem ← if 0 < len then buildOpen level name mem q else some mem
  let (mem, len) ← buildAttributes node bound n.nodeAttr mem q len
  match n.nodeChild with
  | some child => buildNested build child level name mem q len
  | none => buildLeaf n name mem q len

/-- Lines 398 to 400 of `build_xml_node`: the next sibling. -/
def buildNext (build : ℕ → ℕ → List UInt8 → ℕ → ℤ → Option (List UInt8 × ℤ)) (level : ℕ)
    (mem : List UInt8) (q : ℕ) (len : ℤ) : Option ℕ → Option (List UInt8 × ℤ)
  | some next => do build next level mem (← stringEnd mem q) len
  | none => some (mem, len)

/-- The string at offset `q` of the buffer is extended by a node and its siblings. `depth` bounds
the nesting of calls and the lists of attributes. -/
def buildXmlNode : ℕ → ℕ → ℕ → List UInt8 → ℕ → ℤ → Option (List UInt8 × ℤ)
  | 0, _, _, _, _, _ => none
  | depth + 1, nod, level, mem, q, memSize => do
    let n ← node nod
    let (mem, len) ← buildNode node (buildXmlNode depth) depth n level mem q memSize
    buildNext (buildXmlNode depth) level mem q len n.nodeNext

/-- The text of a document in the buffer `mem`, said to have `memSize` bytes. -/
def bxmlBuildxml (depth : ℕ) (xml : BXML_DATA) (mem : List UInt8) (memSize : ℕ) :
    Option (List UInt8 × ℤ) := do
  let mem ← write mem 0 (List.replicate memSize 0)
  let root ← xml.nodeRoot
  let (mem, len) ← buildXmlNode node depth root 0 mem 0 memSize
  some (mem, toInt32 (memSize - len))

end Printer

end Sgos.Xml
