import Sgos.ByteBuffer
import Mathlib.Logic.Function.Basic

/-!
# BXML documents

The nodes of `apps/msg/bxml.c`, the binary encoder `bxml_build` and the binary decoder
`bxml_parse`. Nodes are blocks of the heap that point at each other; a pointer is the number of
the request that allocated the block. A `none` result is an access outside of a buffer or through
a null pointer.
-/
namespace Sgos.Bxml
open ByteBuffer

def BXML_MAGIC : ℕ := 0x4C4D5842

/-- `sizeof(struct BXML_HEADER)`: magic, version, flag and nine reserved bytes. -/
def BXML_HEADER_SIZE : ℕ := 16

def BXML_BUFF_TOO_SMALL : ℤ := 0x102

inductive BXML_NODE_TYPE
  | attribute | node
  deriving DecidableEq, Repr

structure BXML_NODE where
  nodeAttr : Option ℕ
  nodeNext : Option ℕ
  nodePre : Option ℕ
  nodeChild : Option ℕ
  nodeParent : Option ℕ
  nameLen : UInt8
  valueLen : UInt32
  name : Option (List UInt8)
  value : Option (List UInt8)
  deriving DecidableEq, Repr

structure BXML_DATA where
  nodeRoot : Option ℕ
  nodeCur : Option ℕ
  version : UInt16
  flag : UInt8
  error : UInt8
  deriving DecidableEq, Repr

/-- A document, the nodes on the heap and the number of requests made to the allocator. -/
structure State where
  xml : BXML_DATA
  node : ℕ → Option BXML_NODE
  requests : ℕ

namespace BXML_NODE

/-- The list of the given kind that a node heads. -/
def head (n : BXML_NODE) : BXML_NODE_TYPE → Option ℕ
  | .attribute => n.nodeAttr
  | .node => n.nodeChild

def setHead (n : BXML_NODE) (p : Option ℕ) : BXML_NODE_TYPE → BXML_NODE
  | .attribute => { n with nodeAttr := p }
  | .node => { n with nodeChild := p }

end BXML_NODE

namespace State

def setNode (s : State) (p : ℕ) (n : BXML_NODE) : State :=
  { s with node := Function.update s.node p (some n) }

def setCur (s : State) (p : Option ℕ) : State := { s with xml := { s.xml with nodeCur := p } }

/-- Write through a pointer. -/
def modify (s : State) (p : ℕ) (f : BXML_NODE → BXML_NODE) : Option State :=
  (s.node p).map fun n => s.setNode p (f n)

end State

def seterr (s : State) : State := { s with xml := { s.xml with error := 1 } }

/-! ## The binary decoder

`malloc` says which requests the allocator serves. -/
section Decoder
variable (malloc : ℕ → Bool)

def safeMalloc (s : State) : Option ℕ × State :=
  (if malloc s.requests then some s.requests else none, { s with requests := s.requests + 1 })

/-- The contents of a node after `memset`. -/
def zeroNode : BXML_NODE := ⟨none, none, none, none, none, 0, 0, none, none⟩

def createNode (s : State) : Option ℕ × State :=
  match safeMalloc malloc s with
  | (none, s) => (none, seterr s)
  | (some nod, s) =>
    let s := s.setNode nod zeroNode
    (some nod, if s.xml.nodeRoot = none then { s with xml := { s.xml with nodeRoot := some nod } }
      else s)

/-- The new node becomes the first of the list that `cur` heads. -/
def createFirst (type : BXML_NODE_TYPE) (s : State) (cur : Option ℕ) :
    Option (Option ℕ × State) :=
  match createNode malloc s with
  | (none, s) => some (none, s)
  | (some nod, s) =>
    match cur with
    | none => some (some nod, s)
    | some cur => do
      let n ← s.node cur
      let s ← s.modify nod fun m => { m with nodeNext := n.head type }
      let s ← match n.head type with
        | none => some s
        | some first => s.modify first fun m => { m with nodePre := some nod }
      let s ← s.modify nod fun m => { m with nodeParent := some cur }
      let s ← s.modify cur fun m => m.setHead (some nod) type
      some (some nod, s)

def createChildnode : State → Option ℕ → Option (Option ℕ × State) := createFirst malloc .node

def createAttrnode : State → Option ℕ → Option (Option ℕ × State) := createFirst malloc .attribute

/-- A copy of `bytes` with a closing zero in a new block of `size` bytes. -/
def copyString (s : State) (size : UInt32) (bytes : List UInt8) :
    Option (Option (List UInt8) × State) :=
  match safeMalloc malloc s with
  | (none, s) => some (none, s)
  | (some _, s) => do
    let block ← write (List.replicate size.toNat 0) 0 bytes
    let block ← write block bytes.length [0]
    some (some block, s)

/-- Lines 294 to 315 of `parse_bxml_node`: fill `cur` and return the two counts. -/
def readNode (s : State) (cur : ℕ) (p : List UInt8) :
    Option (State × ℕ × ℕ × List UInt8) := do
  let (nameLen, p) ← readNat 1 p
  let (bytes, p) ← read nameLen p
  let (name, s) ← copyString malloc s (UInt32.ofNat nameLen + 1) bytes
  let (attrCount, p) ← readNat 1 p
  let (childCount, p) ← readNat 2 p
  let (valueLen, p) ← readNat 4 p
  let (bytes, p) ← read valueLen p
  let (value, s) ← if 0 < valueLen then copyString malloc s (UInt32.ofNat valueLen + 1) bytes
    else some (none, s)
  let s ← s.modify cur fun n =>
    { n with nameLen := .ofNat nameLen, name := name, valueLen := .ofNat valueLen, value := value }
  some (s, attrCount, childCount, p)

/-- `if( xml->node_cur ) xml->node_cur = xml->node_cur->node_parent;` -/
def moveUp (s : State) : Option State :=
  match s.xml.nodeCur with
  | none => some s
  | some cur => (s.node cur).map fun n => s.setCur n.nodeParent

/-- Run `parse` at most `count` times, as long as it returns a position. -/
def parseNodes (parse : State → List UInt8 → Option (State × Option (List UInt8))) :
    ℕ → State → Option (List UInt8) → Option (State × Option (List UInt8))
  | count + 1, s, some p => do
    let (s, p) ← parse s p
    let s ← moveUp s
    parseNodes parse count s p
  | _, s, p => some (s, p)

/-- Lines 294 to 327 of `parse_bxml_node`: the fields of `cur`, its attributes and its
children. -/
def fillNode (parse : BXML_NODE_TYPE → State → List UInt8 → Option (State × Option (List UInt8)))
    (s : State) (cur : ℕ) (p : List UInt8) : Option (State × Option (List UInt8)) := do
  let (s, attrCount, childCount, p) ← readNode malloc s cur p
  let (s, p) ← parseNodes (parse .attribute) attrCount s (some p)
  parseNodes (parse .node) childCount s p

/-- `depth` bounds the nesting of calls. -/
def parseBxmlNode : ℕ → BXML_NODE_TYPE → State → List UInt8 →
    Option (State × Option (List UInt8))
  | 0, _, _, _ => none
  | depth + 1, type, s, p => do
    let (cur, s) ← match type with
      | .attribute => createAttrnode malloc s s.xml.nodeCur
      | .node => createChildnode malloc s s.xml.nodeCur
    let s := s.setCur cur
    match cur with
    | none => some (s, none)
    | some cur => fillNode malloc (parseBxmlNode depth) s cur p

/-- A new document from the bytes at `mem`. A text document goes to `parseXmlNode`. The calls
nest at most once for each eight bytes. -/
def bxmlParse (parseXmlNode : State → List UInt8 → Option State) (mem : List UInt8) :
    Option State :=
  match safeMalloc malloc ⟨⟨none, none, 0, 0, 0⟩, fun _ => none, 0⟩ with
  | (none, _) => none
  | (some _, s) => do
    let (magic, p) ← readNat 4 mem
    let s ← if magic = BXML_MAGIC then do
        let (version, p) ← readNat 2 p
        let (flag, _) ← readNat 1 p
        let s := { s with xml := { s.xml with version := .ofNat version, flag := .ofNat flag } }
        let (_, body) ← read BXML_HEADER_SIZE mem
        let (s, _) ← parseBxmlNode malloc mem.length .node s body
        some s
      else parseXmlNode s mem
    some (s.setCur s.xml.nodeRoot)

end Decoder

/-! ## The binary encoder -/
section Encoder
variable (node : ℕ → Option BXML_NODE)

/-- The first `len` bytes of a block; a copy of no bytes accepts a null pointer. -/
def bytesAt (block : Option (List UInt8)) (len : ℕ) : Option (List UInt8) :=
  if len = 0 then some []
  else block.bind fun bytes => if len ≤ bytes.length then some (bytes.take len) else none

/-- A value stored in an `int`. -/
def toInt32 (z : ℤ) : ℤ := z.bmod (2 ^ 32)

/-- The length of a list of siblings, at most `bound`. -/
def countNodes : ℕ → Option ℕ → Option ℕ
  | bound + 1, some p => do
    let n ← node p
    let count ← countNodes bound n.nodeNext
    some (count + 1)
  | _, _ => some 0

/-- Lines 450 to 462 of `build_bxml_node`: write one node at `q`. -/
def writeNode (n : BXML_NODE) (attrCount childCount : ℕ) (mem : List UInt8) (q : ℕ) :
    Option (List UInt8 × ℕ) := do
  let mem ← write mem q (littleEndian 1 n.nameLen.toNat)
  let q := q + 1
  let mem ← write mem q (← bytesAt n.name n.nameLen.toNat)
  let q := q + n.nameLen.toNat
  let mem ← write mem q (littleEndian 1 attrCount)
  let q := q + 1
  let mem ← write mem q (littleEndian 2 childCount)
  let q := q + 2
  let mem ← write mem q (littleEndian 4 n.valueLen.toNat)
  let q := q + 4
  let mem ← write mem q (← bytesAt n.value n.valueLen.toNat)
  some (mem, q + n.valueLen.toNat)

/-- Run `build` on at most `bound` siblings; `len` bytes of the buffer are left at `q`, and a
negative `len` ends the loop. -/
def buildNodes (build : ℕ → List UInt8 → ℕ → ℤ → Option (List UInt8 × ℤ)) :
    ℕ → Option ℕ → List UInt8 → ℕ → ℤ → Option (List UInt8 × ℕ × ℤ)
  | bound + 1, some p, mem, q, len => do
    let (mem, ret) ← build p mem q len
    if ret < 0 then some (mem, q, ret)
    else do
      let n ← node p
      buildNodes build bound n.nodeNext mem (q + (len - ret)).toNat ret
  | _, _, mem, q, len => some (mem, q, len)

/-- `depth` bounds the nesting of calls. -/
def buildBxmlNode : ℕ → ℕ → List UInt8 → ℕ → ℤ → Option (List UInt8 × ℤ)
  | 0, _, _, _, _ => none
  | depth + 1, nod, mem, q, memSize => do
    let n ← node nod
    let len := toInt32 (memSize - 8 - n.nameLen.toNat - n.valueLen.toNat)
    if len < 0 then some (mem, -BXML_BUFF_TOO_SMALL)
    else do
      let attrCount ← countNodes node 256 n.nodeAttr
      let childCount ← countNodes node 65536 n.nodeChild
      let (mem, q) ← writeNode n attrCount childCount mem q
      let (mem, q, len) ← buildNodes node (buildBxmlNode depth) 256 n.nodeAttr mem q len
      if len < 0 then some (mem, len)
      else do
        let (mem, _, len) ← buildNodes node (buildBxmlNode depth) 65536 n.nodeChild mem q len
        some (mem, len)

def writeHeader (xml : BXML_DATA) (mem : List UInt8) : Option (List UInt8) := do
  let mem ← write mem 0 (littleEndian 4 BXML_MAGIC)
  let mem ← write mem 4 (littleEndian 2 xml.version.toNat)
  write mem 6 (littleEndian 1 xml.flag.toNat)

/-- The bytes of a document in the buffer `mem`, said to have `memSize` bytes. -/
def bxmlBuild (depth : ℕ) (xml : BXML_DATA) (mem : List UInt8) (memSize : ℕ) :
    Option (List UInt8 × ℤ) := do
  let mem ← write mem 0 (List.replicate memSize 0)
  if memSize < BXML_HEADER_SIZE then some (mem, -BXML_BUFF_TOO_SMALL)
  else do
    let len : ℤ := memSize - BXML_HEADER_SIZE
    let mem ← writeHeader xml mem
    let root ← xml.nodeRoot
    let (mem, len) ← buildBxmlNode node depth root mem BXML_HEADER_SIZE len
    if len < 0 then some (mem, len) else some (mem, memSize - len)

end Encoder

end Sgos.Bxml
