import Sgos.Xml

/-!
# Paths into BXML documents

`apps/msg/bxml.c` finds the node at a path, creating what is missing, and reads and writes the
value there. Paths, names and strings are texts: the bytes in front of the closing zero. A `none`
result is an access through a null pointer or outside of a block.
-/
namespace Sgos.BxmlPath
open ByteBuffer CString Bxml Xml

def ampersand : UInt8 := '&'.toUInt8
def dot : UInt8 := '.'.toUInt8
def colon : UInt8 := ':'.toUInt8

/-- Whether the string in a block is `text`. -/
def strcmp (block text : List UInt8) : Option Bool :=
  strncmp block (text ++ [0]) (text.length + 1)

/-- What is in front of the first `c` and what is behind it. -/
def strchr (c : UInt8) : List UInt8 → Option (List UInt8 × List UInt8)
  | [] => none
  | b :: text => if b = c then some ([], text) else (strchr c text).map fun r => (b :: r.1, r.2)

/-- The key and the value of a condition. -/
abbrev Condition := List UInt8 × List UInt8

/-- The loop over the characters of the conditions, with room for some more of them; `word` is the
text from `v` to the character in front of `p`. A word without `=` is left out. -/
def readConditions : ℕ → List UInt8 → List UInt8 → List Condition
  | 0, _, _ => []
  | _ + 1, word, [] => (strchr equals word).toList
  | room + 1, word, c :: rest =>
    if c = ampersand then
      match strchr equals word with
      | none => readConditions (room + 1) [] rest
      | some cond => cond :: readConditions room [] rest
    else readConditions (room + 1) (word ++ [c]) rest

/-- The size of `conds`. -/
def MAX_CONDITIONS : ℕ := 16

/-- The size of `tmp`. -/
def MAX_SEGMENT : ℕ := 256

/-! ## Nodes with a name

`malloc` says which requests the allocator serves. `stray` is the result of comparing a value that
has no closing zero with a string, which goes on in the memory behind the value. -/
section Paths
variable (malloc : ℕ → Bool) (stray : List UInt8 → List UInt8 → Bool)

/-- The node gets a name; `name_len` has eight bits. -/
def giveName (s : State) (nod : ℕ) (name : List UInt8) : Option State := do
  let nameLen := UInt8.ofNat name.length
  let s ← s.modify nod fun n => { n with nameLen := nameLen }
  let (block, s) ← copyString malloc s (UInt32.ofNat nameLen.toNat + 1) (name.take nameLen.toNat)
  s.modify nod fun n => { n with name := block }

/-- A new node with a name at the front of a list. -/
def createNamed (type : BXML_NODE_TYPE) (s : State) (parent : ℕ) (name : List UInt8) :
    Option (ℕ × State) := do
  let (nod, s) ← createFirst malloc type s (some parent)
  let nod ← nod
  let s ← giveName malloc s nod name
  some (nod, s)

/-- The node gets a string as its value. -/
def giveString (s : State) (nod : ℕ) (str : List UInt8) : Option State := do
  let valueLen := UInt32.ofNat str.length
  let s ← s.modify nod fun n => { n with valueLen := valueLen }
  let (block, s) ← copyString malloc s (valueLen + 1) str
  s.modify nod fun n => { n with value := block }

/-- The first node of a list that `found` accepts; `bound` bounds the length of the list. -/
def findNode (s : State) (found : ℕ → BXML_NODE → Option Bool) :
    (bound : ℕ) → Option ℕ → Option (Option ℕ)
  | _, none => some none
  | 0, some _ => none
  | bound + 1, some nod => do
    let n ← s.node nod
    if ← found nod n then some (some nod) else findNode s found bound n.nodeNext

def nameIs (name : List UInt8) (n : BXML_NODE) : Option Bool := n.name.bind fun b => strcmp b name

/-- The loop of `get_attrnode`. -/
def findAttr (s : State) (parent : ℕ) (name : List UInt8) : Option (Option ℕ) := do
  let n ← s.node parent
  findNode s (fun _ => nameIs name) s.requests n.nodeAttr

def getAttrnode (s : State) (parent : ℕ) (name : List UInt8) (create : Bool) :
    Option (Option ℕ × State) := do
  match ← findAttr s parent name with
  | some nod => some (some nod, s)
  | none =>
    if create then do
      let (nod, s) ← createNamed malloc .attribute s parent name
      some (some nod, s)
    else some (none, s)

/-! ## Children -/

/-- Whether the attributes of a node meet all conditions. -/
def meets (s : State) (nod : ℕ) : List Condition → Option Bool
  | [] => some true
  | (key, value) :: conds => do
    match ← findAttr s nod key with
    | none => some false
    | some attr => do
      let a ← s.node attr
      match a.value with
      | none => some false
      | some block =>
        if (strcmp block value).getD (stray block value) then meets s nod conds else some false

/-- The new node gets attributes that meet the conditions. -/
def createConditions (s : State) (nod : ℕ) : List Condition → Option State
  | [] => some s
  | (key, value) :: conds => do
    let (attr, s) ← getAttrnode malloc s nod key true
    let attr ← attr
    let s ← giveString malloc s attr value
    -- `strcpy` takes the new block without asking for it
    let _ ← (← s.node attr).value
    createConditions s nod conds

/-- `...`, `..` and `.`, which need no search. -/
def specialNode (n : BXML_NODE) (parent : ℕ) (name : List UInt8) : Option ℕ :=
  if name = [dot, dot, dot] then some (n.nodeChild.getD parent)
  else if name = [dot, dot] then some (n.nodeParent.getD parent)
  else if name = [dot] then some parent
  else none

/-- The child with the name that meets the conditions. -/
def findChild (s : State) (parent : ℕ) (name : List UInt8) (conds : List Condition) :
    Option (Option ℕ) := do
  let n ← s.node parent
  findNode s (fun nod n => do if ← nameIs name n then meets stray s nod conds else some false)
    s.requests n.nodeChild

/-- The search of `get_childnode`, and what it creates when nothing is found. -/
def searchChildnode (s : State) (parent : ℕ) (name : List UInt8) (conds : List Condition)
    (create : Bool) : Option (Option ℕ × State) := do
  match ← findChild stray s parent name conds with
  | some nod => some (some nod, s)
  | none =>
    if create then do
      let (nod, s) ← createNamed malloc .node s parent name
      let s ← createConditions malloc s nod conds
      some (some nod, s)
    else some (none, s)

def getChildnode (s : State) (parent : ℕ) (name : List UInt8) (condition : Option (List UInt8))
    (create : Bool) : Option (Option ℕ × State) :=
  match condition with
  | none => do
    let n ← s.node parent
    match specialNode n parent name with
    | some nod => some (some nod, s)
    | none => searchChildnode malloc stray s parent name [] create
  | some text =>
    searchChildnode malloc stray s parent name (readConditions MAX_CONDITIONS [] text) create

/-! ## Paths -/

/-- `if( nod ) nod = get_attrnode( xml, nod, m+1, create );` -/
def enterAttr (s : State) (nod : Option ℕ) (attr : List UInt8) (create : Bool) :
    Option (Option ℕ × State) :=
  match nod with
  | none => some (none, s)
  | some nod => getAttrnode malloc s nod attr create

/-- Lines 675 to 699 of `parse_path`: one segment, from the node `nod` on. -/
def enter (s : State) (nod : ℕ) (segment : List UInt8) (create : Bool) :
    Option (Option ℕ × State) :=
  if 0 < segment.length ∧ segment.length < MAX_SEGMENT then
    match strchr question segment with
    | some (name, condition) =>
      if name ≠ [] then getChildnode malloc stray s nod name (some condition) create
      else do
        let n ← s.node nod
        match n.nodeParent with
        | none => some (some nod, s)
        | some parent => do
          let name ← cstring (← n.name)
          getChildnode malloc stray s parent name (some condition) create
    | none =>
      match strchr colon segment with
      | some (name, attr) => do
        let (nod, s) ←
          if name ≠ [] then getChildnode malloc stray s nod name none create else some (some nod, s)
        enterAttr malloc s nod attr create
      | none => getChildnode malloc stray s nod segment none create
  else some (some nod, s)

/-- The loop of `parse_path`; `word` is the text from `v` to the character in front of `p`. -/
def walk (create : Bool) : State → Option ℕ → (word : List UInt8) → List UInt8 →
    Option (Option ℕ × State)
  | s, none, _, _ => some (none, s)
  | s, some nod, word, [] => enter malloc stray s nod word create
  | s, some nod, word, c :: rest =>
    if c = slash then do
      let (nod, s) ← enter malloc stray s nod word create
      walk create s nod [] rest
    else walk create s (some nod) (word ++ [c]) rest

def parsePath (s : State) (path : List UInt8) (create : Bool) : Option (Option ℕ × State) :=
  match path with
  | c :: rest =>
    if c = slash then walk malloc stray create s s.xml.nodeRoot [] rest
    else walk malloc stray create s s.xml.nodeCur [] path
  | [] => walk malloc stray create s s.xml.nodeCur [] path

/-! ## Operations -/

def bxmlRedirect (s : State) (path : List UInt8) (create : Bool) : Option (ℤ × State) := do
  match ← parsePath malloc stray s path create with
  | (some nod, s) => some (1, s.setCur (some nod))
  | (none, s) => some (0, s)

/-- The value gets a copy of the bytes, without a zero behind it. -/
def bxmlWrite (s : State) (path buf : List UInt8) : Option State := do
  match ← parsePath malloc stray s path true with
  | (some nod, s) => do
    let s ← s.modify nod fun n => { n with valueLen := UInt32.ofNat buf.length }
    match safeMalloc malloc s with
    | (some _, s) => s.modify nod fun n => { n with value := some buf }
    | (none, s) => s.modify nod fun n => { n with value := none }
  | (none, s) => some s

/-- The block that `bxml_readstr` points at. -/
def bxmlReadstr (s : State) (path : List UInt8) : Option (Option (List UInt8)) := do
  match ← parsePath malloc stray s path false with
  | (some nod, s) => do
    let n ← s.node nod
    some n.value
  | (none, _) => some none

def bxmlWritestr (s : State) (path str : List UInt8) : Option State := do
  match ← parsePath malloc stray s path true with
  | (some nod, s) => giveString malloc s nod str
  | (none, s) => some s

def bxmlMovenext (s : State) : Option (ℤ × State) :=
  match s.xml.nodeCur with
  | none => some (0, s)
  | some cur => do
    let n ← s.node cur
    match n.nodeNext with
    | some nod => some (1, s.setCur (some nod))
    | none => some (0, s)

def bxmlMknode (s : State) (name : List UInt8) : Option (ℤ × State) :=
  match s.xml.nodeCur with
  | none => some (-1, s)
  | some cur => do
    match ← createNextnode malloc s (some cur) with
    | (some nod, s) => do
      let s ← giveName malloc s nod name
      some (1, s.setCur (some nod))
    | (none, s) => some (0, s)

/-- A string in an address space of 32 bits. -/
abbrev Text := {text : List UInt8 // text.length + 1 < 2 ^ 32}

/-- The calls that change a document or its current node. -/
inductive Event
  | redirect (path : List UInt8)
  | write (path buf : List UInt8)
  | writestr (path : List UInt8) (str : Text)
  | movenext
  | mknode (name : List UInt8)
  deriving DecidableEq, Repr

/-- The state after a call; `redirect` creates what is missing. -/
def call (s : State) : Event → Option State
  | .redirect path => (bxmlRedirect malloc stray s path true).map Prod.snd
  | .write path buf => bxmlWrite malloc stray s path buf
  | .writestr path str => bxmlWritestr malloc stray s path str.1
  | .movenext => (bxmlMovenext s).map Prod.snd
  | .mknode name => (bxmlMknode malloc s name).map Prod.snd

end Paths

end Sgos.BxmlPath
