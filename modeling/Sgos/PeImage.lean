import Sgos.ByteBuffer
import Sgos.CString
import Sgos.GuardedRun
import Mathlib.Logic.Function.Basic

/-!
# The images of loaded modules

`PeLoadLibrary` of `apps/wprocess/peloader.cpp` with `LinkModuleToSpace` and `GetProcedureAddress`
of `apps/wprocess/module.cpp`, over the bytes of the images. Places in an image are counted from
`LoadAddress`, with 32 bits, and an access outside of the image has no result. A run goes from one
turn of a loop to the next, and the calls that nest while imports are loaded are kept on a stack.
-/
namespace Sgos.PeImage
open ByteBuffer CString

def MAX_MODULE : ℕ := 128
def MAX_IMPORT_MODULES : UInt32 := 64
def PATH_LEN : ℕ := 256
def SGOS_PATH : List UInt8 := "/diskc/sgos".toList.map Char.toUInt8
def slash : UInt8 := '/'.toUInt8
def IMAGE_DOS_SIGNATURE : ℕ := 0x5A4D
def F_EXEC : ℕ := 2
def ERR_NOIMP : Int32 := 2
def ERR_WRONGARG : Int32 := 3
def ERR_NOMEM : Int32 := 1
def SIZEOF_DOSHDR : ℕ := 64
def SIZEOF_FILEHDR : ℕ := 20
def SIZEOF_OPTHDR : ℕ := 176
def SIZEOF_SECHDR : ℕ := 40

/-! ## Memory -/

/-- The `width` bytes at a place. -/
def load (width : ℕ) (image : List UInt8) (place : UInt32) : Option ℕ :=
  (readNat width (image.drop place.toNat)).map Prod.fst

def load32 (image : List UInt8) (place : UInt32) : Option UInt32 :=
  (load 4 image place).map UInt32.ofNat

/-- Where nothing is copied nothing is accessed. -/
def store (image : List UInt8) (place : UInt32) (bytes : List UInt8) : Option (List UInt8) :=
  if bytes = [] then some image else write image place.toNat bytes

def store32 (image : List UInt8) (place value : UInt32) : Option (List UInt8) :=
  store image place (littleEndian 4 value.toNat)

def strcmp : List UInt8 → List UInt8 → Option Bool
  | c :: cs, d :: ct => if c ≠ d then some false else if c = 0 then some true else strcmp cs ct
  | _, _ => none

def tolower (c : UInt8) : UInt8 := if 65 ≤ c ∧ c ≤ 90 then c + 32 else c

/-- Whether strings are found equal: of two strings of which one goes on this is said as well. The
second one is a text, the zero behind it left out. -/
def strnicmp : List UInt8 → List UInt8 → Option Bool
  | [], _ => none
  | c :: s1, s2 =>
    if c = 0 then some true
    else match s2 with
      | [] => some true
      | d :: s2 => if tolower c ≠ tolower d then some false else strnicmp s1 s2

/-- A copy of the text at `src`, of `count` bytes at most. -/
def strncpy (src : List UInt8) (count : ℕ) : Option (List UInt8) :=
  if 0 ∈ src.take count ∨ count ≤ src.length then some ((src.take count).takeWhile (· ≠ 0))
  else none

/-! ## Files -/

/-- A position behind the end is cut off at the end; a negative count reads nothing. -/
def fsReadFile (file : List UInt8) (pos count : UInt32) : List UInt8 :=
  if count.toNat < 2147483648 then (file.drop pos.toNat).take count.toNat else []

/-- What a variable holds when `bytes` have been read over its front. -/
def fill (size : ℕ) (bytes : List UInt8) (stack : ℕ → UInt8) : List UInt8 :=
  (List.range size).map fun i => (bytes[i]?).getD (stack i)

/-- The field of `width` bytes at an offset of a header. -/
def field (width : ℕ) (header : List UInt8) (offset : ℕ) : ℕ :=
  ofLittleEndian ((header.drop offset).take width)

def field32 (header : List UInt8) (offset : ℕ) : UInt32 := UInt32.ofNat (field 4 header offset)

/-- The name that is opened. Where it is copied behind `SGOS_PATH`, into `p`, that has `PATH_LEN`
bytes. The second attempt is never made, as `fb>=0` holds of every pointer. -/
def searchAndOpenFile (path : List UInt8) : Option (List UInt8) :=
  if path.head? = some slash then strncpy path PATH_LEN
  else do
    let text ← cstring path
    let p := SGOS_PATH ++ slash :: text
    if p.length < PATH_LEN then some p else none

/-! ## Modules -/

/-- The fields of `IMAGE_OPTIONAL_HEADER` that are used; the directories are those of the exports
and of the imports. -/
structure OptionalHeader where
  magic : ℕ
  addressOfEntryPoint : UInt32
  imageBase : UInt32
  sizeOfImage : UInt32
  sizeOfStackReserve : UInt32
  numberOfRvaAndSizes : UInt32
  exportRva : UInt32
  exportSize : UInt32
  importRva : UInt32
  deriving DecidableEq, Repr

def optionalHeader (opthdr : List UInt8) : OptionalHeader where
  magic := field 2 opthdr 0
  addressOfEntryPoint := field32 opthdr 16
  imageBase := field32 opthdr 28
  sizeOfImage := field32 opthdr 56
  sizeOfStackReserve := field32 opthdr 72
  numberOfRvaAndSizes := field32 opthdr 92
  exportRva := field32 opthdr 96
  exportSize := field32 opthdr 100
  importRva := field32 opthdr 104

/-- `image` is what lies at `LoadAddress`; `importModules` says whether there is an array for the
imports, and `loadedInformation` has the spaces and the addresses there. -/
structure PeModule where
  moduleId : UInt32
  path : List UInt8
  reference : UInt16
  image : List UInt8
  imageBase : UInt32
  entryAddress : UInt32
  stackLimit : UInt32
  header : OptionalHeader
  importModules : Bool
  loadedInformation : List (UInt32 × UInt32)

def PeModule.getLoadedInformation (m : PeModule) (space : UInt32) : Option UInt32 :=
  (m.loadedInformation.find? fun mi => mi.1 = space).map Prod.snd

/-- A call of `PeLoadLibrary` that reads sections: `left` of them are left, the header of the next
one at `pos`. -/
structure Loading where
  space : UInt32
  path : List UInt8
  file : List UInt8
  header : OptionalHeader
  left : ℕ
  pos : UInt32
  image : List UInt8

/-- A call of `LinkModuleToSpace` at an import; `duplicate` is what was copied to the space. -/
structure Linking where
  mo : ℕ
  space : UInt32
  duplicate : List UInt8
  index : UInt32

/-- The loop over the lookups of an import. -/
structure Fixup where
  linking : Linking
  mo2 : ℕ
  mi2 : Option UInt32
  lookupEntry : UInt32
  addressEntry : UInt32

/-- A call of `GetProcedureAddress`, with the bytes from the name on, for a lookup or for a message.
`mi` is the address of the module in the space. -/
structure Search where
  mo : ℕ
  mi : Option UInt32
  procedureName : List UInt8
  caller : Option Fixup

/-- The pointers to the tables of the exports. -/
structure Exports where
  expName : UInt32
  expOrdinal : UInt32
  expAddress : UInt32

/-- A call that waits for another. -/
inductive Frame
  | importing (l : Linking)
  | found (mo : ℕ)
  | created (mo : ℕ)

/-- Where the thread is. A null pointer is read or written in `crashed`. -/
inductive Pc
  | idle
  | loading (space : UInt32) (path : List UInt8)
  | sections (z : Loading)
  | linking (mo : ℕ) (space : UInt32)
  | imports (l : Linking)
  | lookups (f : Fixup)
  | searching (c : Search)
  | comparing (c : Search) (x : Exports) (i : UInt32)
  | fixing (f : Fixup) (address : UInt32)
  | linked (result : Int32)
  | loaded (result : Int32)
  | crashed

structure State where
  module : ℕ → PeModule
  moduleList : List ℕ
  moduleId : UInt32
  blocks : ℕ
  frames : List Frame
  pc : Pc

namespace State

def setModule (s : State) (mo : ℕ) (m : PeModule) : State :=
  { s with module := Function.update s.module mo m }

def setImage (s : State) (mo : ℕ) (image : List UInt8) : State :=
  s.setModule mo { s.module mo with image }

def goto (s : State) (pc : Pc) : State := { s with pc }

def call (s : State) (frame : Frame) (pc : Pc) : State :=
  { s with frames := frame :: s.frames, pc }

end State

/-- The loop of `GetModuleByPath`. -/
def findPath (s : State) (path : List UInt8) : List ℕ → Option (Option ℕ)
  | [] => some none
  | mo :: mos => do
    if ← strnicmp path (s.module mo).path then some (some mo) else findPath s path mos

def getModuleByPath (s : State) (path : List UInt8) : Option (Option ℕ) :=
  findPath s path s.moduleList

def getModuleById (s : State) (id : UInt32) : Option ℕ :=
  s.moduleList.find? fun mo => (s.module mo).moduleId = id

/-- The last entry of the table takes the place of the module. -/
def removeModule (l : List ℕ) (mo : ℕ) : List ℕ :=
  if mo ∈ l then (l.set (l.idxOf mo) (l.getLastD mo)).dropLast else l

/-- `FreeModule( mo, 0 )`. -/
def freeModule (s : State) (mo : ℕ) : State :=
  let m := s.module mo
  let s := s.setModule mo { m with reference := m.reference - 1 }
  if m.reference - 1 = 0 then { s with moduleList := removeModule s.moduleList mo } else s

/-! ## Calls -/

/-- What the services answer. The headers on the stack hold something before they are read. The
number of bytes that a swap exchanges is at most the size of the image; `uninitialized` is the
value of a variable that was not set. -/
structure Answer where
  file : Option (List UInt8)
  doshdr : ℕ → UInt8
  coffhdr : ℕ → UInt8
  opthdr : ℕ → UInt8
  imageBlock : Bool
  moduleBlock : Bool
  arrayBlock : Bool
  infoBlock : Bool
  granted : Bool
  duplicated : Bool
  uninitialized : Int32
  swapped : ℕ

def pageAlign (a : UInt32) : UInt32 :=
  if a &&& 0xFFF ≠ 0 then (a &&& 0xFFFFF000) + 0x1000 else a

/-- Lines 59 to 93 of `PeLoadLibrary`. -/
def readHeaders (a : Answer) (space : UInt32) (path : List UInt8) : Except Int32 Loading :=
  match a.file with
  | none => .error (-ERR_WRONGARG)
  | some file =>
    let doshdr := fill SIZEOF_DOSHDR (file.take SIZEOF_DOSHDR) a.doshdr
    if field 2 doshdr 0 ≠ IMAGE_DOS_SIGNATURE then .error (-0x1001)
    else
      let lfanew := field32 doshdr 60
      let coffhdr := (file.drop (lfanew + 4).toNat).take SIZEOF_FILEHDR
      let rest := (file.drop (lfanew + 4).toNat).drop SIZEOF_FILEHDR
      let coffhdr := fill SIZEOF_FILEHDR coffhdr a.coffhdr
      let usOptHdrSZ := field 2 coffhdr 16
      if field 2 coffhdr 18 &&& F_EXEC = 0 ∨ usOptHdrSZ = 0 then .error (-0x1002)
      else
        let opthdr := fill SIZEOF_OPTHDR (rest.take (min SIZEOF_OPTHDR usOptHdrSZ)) a.opthdr
        let header := optionalHeader opthdr
        if header.magic ≠ 0x10B then .error (-0x1003)
        else if a.imageBlock = false then .error (-ERR_NOMEM)
        else
          .ok ⟨space, path, file, header, field 2 coffhdr 2,
            lfanew + 4 + UInt32.ofNat SIZEOF_FILEHDR + UInt32.ofNat usOptHdrSZ,
            List.replicate (pageAlign header.sizeOfImage).toNat 0⟩

/-- The module gets the image and goes on to `LinkModuleToSpace`. -/
def install (s : State) (z : Loading) (mo : ℕ) (m : PeModule) : State :=
  let m := { m with
    image := z.image
    imageBase := z.header.imageBase
    entryAddress := z.header.imageBase + z.header.addressOfEntryPoint
    stackLimit := z.header.sizeOfStackReserve
    header := z.header }
  (s.setModule mo m).call (.created mo) (.linking mo z.space)

/-- `AllocateModule` and the lines behind it. -/
def registerModule (s : State) (a : Answer) (z : Loading) : Option State := do
  match ← getModuleByPath s z.path with
  | some mo => some (install s z mo (s.module mo))
  | none =>
    if s.moduleList.length ≥ MAX_MODULE then some (s.goto (.loaded (-ERR_NOMEM)))
    else if a.moduleBlock = false then some (s.goto .crashed)
    else do
      let path ← strncpy z.path (PATH_LEN - 1)
      let mo := s.blocks
      let s' := { s with
        moduleList := s.moduleList ++ [mo], moduleId := s.moduleId + 1, blocks := s.blocks + 1 }
      some (install s' z mo ⟨s.moduleId, path, 0, [], 0, 0, 0, z.header, a.arrayBlock, []⟩)

/-- A turn of the loop over the sections. A section that cannot be read ends the loop and nothing
else. -/
def readSection (s : State) (z : Loading) (left : ℕ) : Option State :=
  let sechdr := fsReadFile z.file z.pos (UInt32.ofNat SIZEOF_SECHDR)
  if sechdr.length ≠ SIZEOF_SECHDR then some (s.goto (.sections { z with left := 0 }))
  else do
    let ulSize := field32 sechdr 16
    let bytes := fsReadFile z.file (field32 sechdr 20) ulSize
    let image ← store z.image (field32 sechdr 12) bytes
    if bytes.length ≠ ulSize.toNat then some (s.goto (.sections { z with left := 0, image }))
    else some (s.goto (.sections { z with left, pos := z.pos + UInt32.ofNat SIZEOF_SECHDR, image }))

/-- `LinkModuleToSpace` in front of the imports. -/
def startLink (s : State) (a : Answer) (mo : ℕ) (space : UInt32) : State :=
  let m := s.module mo
  if m.getLoadedInformation space ≠ none then s.goto (.linked 0)
  else if a.infoBlock = false then s.goto (.linked (-ERR_NOMEM))
  else if m.imageBase = 0 ∨ a.granted = false then s.goto (.linked (-ERR_NOIMP))
  -- "result -ERR_UNKNOWN;" sets nothing
  else if a.duplicated = false then s.goto (.linked a.uninitialized)
  else s.goto (.imports ⟨mo, space, m.image, 0⟩)

/-- Behind the imports the images change places, as far as the swap goes. -/
def finishLink (s : State) (a : Answer) (l : Linking) : State :=
  let m := s.module l.mo
  let m := { m with
    image := l.duplicate.take a.swapped ++ m.image.drop a.swapped
    loadedInformation := (l.space, m.imageBase) :: m.loadedInformation }
  (s.setModule l.mo m).goto (.linked 0)

/-- The place of a descriptor of the import table: 20 bytes. -/
def Linking.descriptor (l : Linking) (header : OptionalHeader) : UInt32 :=
  header.importRva + 20 * l.index

/-- The head of the loop over the imports. -/
def nextImport (s : State) (a : Answer) (l : Linking) : Option State :=
  let m := s.module l.mo
  if m.header.numberOfRvaAndSizes = 0 then some (finishLink s a l)
  else do
    let name ← load32 m.image (l.descriptor m.header + 12)
    if name ≠ 0 ∧ l.index < MAX_IMPORT_MODULES then
      some (s.call (.importing l) (.loading l.space (m.image.drop name.toNat)))
    else some (finishLink s a l)

/-- The import whose `PeLoadLibrary` has returned `mo2Id`, an unsigned number: a failure is not
noticed, and without a module the null pointer is read. -/
def importLoaded (s : State) (l : Linking) (mo2Id : UInt32) : Option State :=
  match getModuleById s mo2Id with
  | none => some (s.goto .crashed)
  | some mo2 =>
    let mi2 := (s.module mo2).getLoadedInformation l.space
    let m := s.module l.mo
    if m.importModules = false then some (s.goto .crashed)
    else do
      let lookupEntry ← load32 m.image (l.descriptor m.header)
      let addressEntry ← load32 m.image (l.descriptor m.header + 16)
      some (s.goto (.lookups ⟨l, mo2, mi2, lookupEntry, addressEntry⟩))

def Fixup.next (f : Fixup) : Fixup :=
  { f with lookupEntry := f.lookupEntry + 4, addressEntry := f.addressEntry + 4 }

/-- The head of the loop over the lookups. An import by ordinal is passed over. -/
def nextLookup (s : State) (f : Fixup) : Option State := do
  let image := (s.module f.linking.mo).image
  let entry ← load32 image f.lookupEntry
  if entry = 0 then some (s.goto (.imports { f.linking with index := f.linking.index + 1 }))
  else if entry &&& 0x80000000 ≠ 0 then some (s.goto (.lookups f.next))
  else some (s.goto (.searching ⟨f.mo2, f.mi2, image.drop (entry + 2).toNat, some f⟩))

/-- `GetProcedureAddress` returns to the loop over the lookups or to a message. -/
def found (s : State) (caller : Option Fixup) (address : UInt32) : State :=
  match caller with
  | none => s.goto .idle
  | some f => s.goto (.fixing f address)

/-- `GetProcedureAddress` in front of the loop. -/
def startSearch (s : State) (c : Search) : Option State :=
  let m := s.module c.mo
  if 0 < m.header.numberOfRvaAndSizes ∧ 0 < m.header.exportSize then do
    let expName ← load32 m.image (m.header.exportRva + 32)
    let expOrdinal ← load32 m.image (m.header.exportRva + 36)
    let expAddress ← load32 m.image (m.header.exportRva + 28)
    some (s.goto (.comparing c ⟨expName, expOrdinal, expAddress⟩ 0))
  else some (found s c.caller 0)

/-- The address of the `i`th name. -/
def addressOf (s : State) (c : Search) (x : Exports) (i : UInt32) : Option State := do
  let image := (s.module c.mo).image
  let ordinal ← load 2 image (x.expOrdinal + 2 * i)
  let address ← load32 image (x.expAddress + 4 * UInt32.ofNat ordinal)
  match c.mi with
  | none => some (s.goto .crashed)
  | some mi => some (found s c.caller (mi + address))

/-- A turn of the loop over the names. -/
def compareName (s : State) (c : Search) (x : Exports) (i : UInt32) : Option State := do
  let m := s.module c.mo
  let numberOfNamePointers ← load32 m.image (m.header.exportRva + 24)
  if i < numberOfNamePointers then do
    let name ← load32 m.image (x.expName + 4 * i)
    if ← strcmp (m.image.drop name.toNat) c.procedureName then addressOf s c x i
    else some (s.goto (.comparing c x (i + 1)))
  else some (found s c.caller 0)

/-- The address is written, or a number in its place. -/
def writeAddress (s : State) (f : Fixup) (fixup : UInt32) : Option State := do
  let mo := f.linking.mo
  let value := if fixup ≠ 0 then fixup else 0x66666666
  let image ← store32 (s.module mo).image f.addressEntry value
  let s := s.setImage mo image
  some (s.goto (if fixup ≠ 0 then .lookups f.next else .linked (-66)))

/-- `LinkModuleToSpace` returns to `PeLoadLibrary`. -/
def linkReturned (s : State) (result : Int32) : State :=
  match s.frames with
  | .found mo :: fs =>
    let id := (s.module mo).moduleId.toInt32
    { s with frames := fs, pc := .loaded (if result < 0 then result else id) }
  | .created mo :: fs =>
    let id := (s.module mo).moduleId.toInt32
    if result < 0 then { freeModule s mo with frames := fs, pc := .loaded result }
    else { s with frames := fs, pc := .loaded id }
  | .importing _ :: _ => s
  | [] => s.goto .idle

/-- `PeLoadLibrary` returns to `LinkModuleToSpace` or to a message. -/
def loadReturned (s : State) (result : Int32) : Option State :=
  match s.frames with
  | .importing l :: fs => importLoaded { s with frames := fs } l result.toUInt32
  | _ :: _ => some s
  | [] => some (s.goto .idle)

/-- `PeLoadLibrary` in front of the loop over the sections. -/
def startLoad (s : State) (a : Answer) (space : UInt32) (path : List UInt8) : Option State := do
  match ← getModuleByPath s path with
  | some mo =>
    if (s.module mo).getLoadedInformation space ≠ none then
      some (s.goto (.loaded (s.module mo).moduleId.toInt32))
    else some (s.call (.found mo) (.linking mo space))
  | none => do
    let _ ← searchAndOpenFile path
    match readHeaders a space path with
    | .error code => some (s.goto (.loaded code))
    | .ok z => some (s.goto (.sections z))

/-- The next part of the calls in progress, if it accesses nothing outside of an image. -/
def advance (s : State) (a : Answer) : Option State :=
  match s.pc with
  | .idle | .crashed => some s
  | .loading space path => startLoad s a space path
  | .sections z =>
    match z.left with
    | 0 => registerModule s a z
    | left + 1 => readSection s z left
  | .linking mo space => some (startLink s a mo space)
  | .imports l => nextImport s a l
  | .lookups f => nextLookup s f
  | .searching c => startSearch s c
  | .comparing c x i => compareName s c x i
  | .fixing f fixup => writeAddress s f fixup
  | .linked result => some (linkReturned s result)
  | .loaded result => loadReturned s result

/-- The calls from outside, with texts: `PeLoadLibrary`, and `PeGetProcedureAddress` for a module
that is in the space. -/
inductive Event
  | load (space : UInt32) (path : List UInt8)
  | getProcedureAddress (space mid : UInt32) (name : List UInt8)
  | advance (a : Answer)

def peGetProcedureAddress (s : State) (space mid : UInt32) (name : List UInt8) : State :=
  match getModuleById s mid with
  | none => s
  | some mo =>
    match (s.module mo).getLoadedInformation space with
    | none => s
    | some mi => s.goto (.searching ⟨mo, some mi, name ++ [0], none⟩)

/-- A call from outside waits for the end of the calls in progress. -/
def next (s : State) : Event → Option State
  | .load space path =>
    match s.pc with
    | .idle => some (s.goto (.loading space (path ++ [0])))
    | _ => some s
  | .getProcedureAddress space mid name =>
    match s.pc with
    | .idle => some (peGetProcedureAddress s space mid name)
    | _ => some s
  | .advance a => advance s a

/-- Nothing follows an access outside of an image. -/
def step (s : Option State) (e : Event) : Option State := s.bind fun s => next s e

end Sgos.PeImage
