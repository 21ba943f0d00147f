import Sgos.GuardedRun
import Sgos.LinkedChain
import Sgos.Machine

/-!
# The registry of loaded modules

`LinkModuleToSpace` and `FreeModule` of `apps/wprocess/module.cpp` and `PeLoadLibrary` of
`apps/wprocess/peloader.cpp`. The calls that nest while imports are loaded are kept on a stack, and
a run goes from one of them to the next. A block is named by the number of its allocation. What the
services answer, and what a file holds, is part of the events; the fixed-up addresses, which nothing
here reads, are left out.
-/
namespace Sgos.ModuleRegistry
open GuardedRun LinkedChain

def MAX_MODULE : ℕ := 128
def MAX_IMPORT_MODULES : ℕ := 64
def PATH_LEN : ℕ := 256
def ERR_NOIMP : Int32 := 2

/-- The entry of an import table: a name, or a number with the top bit set. -/
inductive Lookup
  | ordinal
  | name (procedureName : List UInt8)
  deriving DecidableEq

structure Import where
  libName : List UInt8
  lookups : List Lookup
  deriving DecidableEq

/-- What the header and the tables of a loaded file say. -/
structure Image where
  imageBase : UInt32
  imageSize : UInt32
  numberOfRvaAndSizes : UInt32
  exportSize : UInt32
  exports : List (List UInt8 × UInt32)
  imports : List Import
  deriving DecidableEq

structure PeModule where
  moduleId : UInt32
  path : List UInt8
  reference : UInt16
  loadAddress : UInt32
  image : Image
  importModules : ℕ → Option ℕ
  loadedInformation : Option ℕ

/-- The `prev` and `next` of a `ModuleInSpace` are maps of the state. -/
structure ModuleInSpace where
  spaceId : UInt32
  virtualAddress : UInt32

/-- A call of `LinkModuleToSpace` behind the duplication: `virtualAddress` is that of the new
`ModuleInSpace`, `index` the import that it is at. -/
structure Linking where
  mo : ℕ
  space : UInt32
  virtualAddress : UInt32
  index : ℕ
  deriving DecidableEq

/-- A call that waits for another: `LinkModuleToSpace` for an import, or `PeLoadLibrary` for the
linking of a module that was there or of a new one. -/
inductive Frame
  | importing (l : Linking)
  | found (mo : ℕ)
  | created (mo : ℕ)
  deriving DecidableEq

/-- Where the thread is: at the start of `PeLoadLibrary` or `LinkModuleToSpace`, in the loop over
the imports, or back from `LinkModuleToSpace` or `PeLoadLibrary`. `added` says whether the call has
added its space. -/
inductive Pc
  | idle
  | loading (space : UInt32) (path : List UInt8)
  | linking (mo : ℕ) (space : UInt32)
  | imports (l : Linking)
  | linked (result : Int32) (added : Bool)
  | loaded (result : Int32)
  | crashed
  deriving DecidableEq

/-- `spaces` is what the registry is about: the spaces of each module that is registered. -/
structure State where
  module : ℕ → PeModule
  info : ℕ → ModuleInSpace
  next : ℕ → Option ℕ
  prev : ℕ → Option ℕ
  moduleList : List ℕ
  moduleId : UInt32
  blocks : ℕ
  frames : List Frame
  pc : Pc
  spaces : ℕ → Option (List UInt32)

namespace State

def setModule (s : State) (mo : ℕ) (m : PeModule) : State :=
  { s with module := Function.update s.module mo m }

def setSpaces (s : State) (mo : ℕ) (l : Option (List UInt32)) : State :=
  { s with spaces := Function.update s.spaces mo l }

def goto (s : State) (pc : Pc) : State := { s with pc }

def call (s : State) (frame : Frame) (pc : Pc) : State :=
  { s with frames := frame :: s.frames, pc }

end State

/-! ## The lists -/

def tolower (c : UInt8) : UInt8 := if 65 ≤ c ∧ c ≤ 90 then c + 32 else c

/-- Two strings of which one goes on are taken as equal, and `len` is not looked at. -/
def strnicmp (s1 s2 : List UInt8) : Bool :=
  (s1.zip s2).any fun p => tolower p.1 ≠ tolower p.2

def getModuleByPath (s : State) (path : List UInt8) : Option ℕ :=
  s.moduleList.find? fun mo => !strnicmp path (s.module mo).path

def getModuleById (s : State) (id : UInt32) : Option ℕ :=
  s.moduleList.find? fun mo => (s.module mo).moduleId = id

/-- The loop from `mi` on; a list has no more nodes than there are blocks. -/
def findSpace (info : ℕ → ModuleInSpace) (next : ℕ → Option ℕ) (space : UInt32) :
    ℕ → Option ℕ → Option ℕ
  | fuel + 1, some mi =>
      if (info mi).spaceId = space then some mi else findSpace info next space fuel (next mi)
  | _, _ => none

def getLoadedInformation (s : State) (mo : ℕ) (space : UInt32) : Option ℕ :=
  findSpace s.info s.next space s.blocks (s.module mo).loadedInformation

/-- `malloc` gives the module the next block. -/
def allocateModule (s : State) (path : List UInt8) : Option ℕ × State :=
  match getModuleByPath s path with
  | some mo => (some mo, s)
  | none =>
      if s.moduleList.length ≥ MAX_MODULE then (none, s)
      else
        let mo := s.blocks
        let m : PeModule := ⟨s.moduleId, path.take (PATH_LEN - 1), 0, 0, ⟨0, 0, 0, 0, [], []⟩,
          fun _ => none, none⟩
        (some mo, { (s.setModule mo m).setSpaces mo (some []) with
          moduleList := s.moduleList ++ [mo]
          moduleId := s.moduleId + 1
          blocks := s.blocks + 1 })

/-- The last entry of the table takes the place of the module. -/
def removeModule (l : List ℕ) (mo : ℕ) : List ℕ :=
  if mo ∈ l then (l.set (l.idxOf mo) (l.getLastD mo)).dropLast else l

def unlinkSpace (s : State) (mo mi : ℕ) : State :=
  let s := match s.prev mi with
    | some p => { s with next := Function.update s.next p (s.next mi) }
    | none => s.setModule mo { s.module mo with loadedInformation := s.next mi }
  match s.next mi with
  | some n => { s with prev := Function.update s.prev n (s.prev mi) }
  | none => s

/-- The spaces of a module that `space` frees. -/
def freed (l : List UInt32) (space : UInt32) : Option (List UInt32) :=
  if space ∈ l then if l.erase space = [] then none else some (l.erase space) else some l

/-- `-- mo->Reference`, and the end of the module at 0. -/
def releaseModule (s : State) (mo : ℕ) : State :=
  let m := s.module mo
  let s := s.setModule mo { m with reference := m.reference - 1 }
  if m.reference - 1 = 0 then { s with moduleList := removeModule s.moduleList mo } else s

def freeModule (s : State) (mo : ℕ) (space : UInt32) : State :=
  let s' :=
    if space ≠ 0 then
      match getLoadedInformation s mo space with
      | some mi => releaseModule (unlinkSpace s mo mi) mo
      | none => s
    else releaseModule s mo
  s'.setSpaces mo ((s.spaces mo).bind (freed · space))

/-! ## Calls -/

/-- Why a file cannot be loaded. A section that cannot be read does not stop `PeLoadLibrary`. -/
inductive LoadError
  | notFound | noDosHeader | notExecutable | notPe32 | noMemory
  deriving DecidableEq

def LoadError.code : LoadError → Int32
  | .notFound => -ERR_WRONGARG
  | .noDosHeader => -0x1001
  | .notExecutable => -0x1002
  | .notPe32 => -0x1003
  | .noMemory => -ERR_NOMEM

/-- What the services answer: lines 59 to 110 of `PeLoadLibrary` with the address and the image,
`malloc`, `SysAllocateMemoryAddress` and `SysDuplicateMemory`. `uninitialized` is the value of a
variable that was not set. -/
structure Answer where
  file : Except LoadError (UInt32 × Image)
  malloc : Bool
  address : UInt32
  duplicated : UInt32
  uninitialized : Int32

/-- `none` reads the null pointer `mi`. -/
def getProcedureAddress (s : State) (mo : ℕ) (mi : Option ℕ) (procedureName : List UInt8) :
    Option UInt32 :=
  let image := (s.module mo).image
  if 0 < image.numberOfRvaAndSizes ∧ 0 < image.exportSize then
    match image.exports.find? fun e => e.1 = procedureName with
    | some e => mi.map fun mi => (s.info mi).virtualAddress + e.2
    | none => some 0
  else some 0

/-- Whether all lookups of an import are found. -/
def fixupImports (s : State) (mo : ℕ) (mi : Option ℕ) : List Lookup → Option Bool
  | [] => some true
  | .ordinal :: rest => fixupImports s mo mi rest
  | .name procedureName :: rest => do
      if (← getProcedureAddress s mo mi procedureName) ≠ 0 then fixupImports s mo mi rest
      else some false

/-- The end of `LinkModuleToSpace`. The old first node keeps its `prev`, and the number of
references stays. -/
def addInfo (s : State) (l : Linking) : State :=
  let mi := s.blocks
  let m := s.module l.mo
  { (s.setModule l.mo { m with loadedInformation := some mi }).setSpaces l.mo
      ((s.spaces l.mo).map (l.space :: ·)) with
    info := Function.update s.info mi ⟨l.space, l.virtualAddress⟩
    prev := Function.update s.prev mi none
    next := Function.update s.next mi m.loadedInformation
    blocks := s.blocks + 1
    pc := .linked 0 true }

/-- The import whose `PeLoadLibrary` has returned `mo2Id`, an unsigned number: a failure is not
noticed, and without a module the null pointer is read. -/
def importLoaded (s : State) (l : Linking) (mo2Id : UInt32) : State :=
  match getModuleById s mo2Id with
  | none => s.goto .crashed
  | some mo2 =>
      let mi2 := getLoadedInformation s mo2 l.space
      let m := s.module l.mo
      let s := s.setModule l.mo
        { m with importModules := Function.update m.importModules l.index (some mo2) }
      let lookups := (m.image.imports[l.index]?.map Import.lookups).getD []
      match fixupImports s mo2 mi2 lookups with
      | none => s.goto .crashed
      | some true => s.goto (.imports { l with index := l.index + 1 })
      | some false => s.goto (.linked (-66) false)

/-- The next part of the calls in progress. -/
def advance (s : State) (a : Answer) : State :=
  match s.pc with
  | .idle | .crashed => s
  | .loading space path =>
      match getModuleByPath s path with
      | some mo =>
          if getLoadedInformation s mo space ≠ none then
            s.goto (.loaded (s.module mo).moduleId.toInt32)
          else s.call (.found mo) (.linking mo space)
      | none =>
          match a.file with
          | .error e => s.goto (.loaded e.code)
          | .ok (addr, image) =>
              match allocateModule s path with
              | (none, s) => s.goto (.loaded (-ERR_NOMEM))
              | (some mo, s) =>
                  let m := s.module mo
                  let s := s.setModule mo { m with loadAddress := addr, image }
                  s.call (.created mo) (.linking mo space)
  | .linking mo space =>
      if getLoadedInformation s mo space ≠ none then s.goto (.linked 0 false)
      else if !a.malloc then s.goto (.linked (-ERR_NOMEM) false)
      else if a.address = 0 then s.goto (.linked (-ERR_NOIMP) false)
      else if a.duplicated ≠ (s.module mo).image.imageSize then
        -- "result -ERR_UNKNOWN;" sets nothing
        s.goto (.linked a.uninitialized false)
      else s.goto (.imports ⟨mo, space, a.address, 0⟩)
  | .imports l =>
      let image := (s.module l.mo).image
      if 0 < image.numberOfRvaAndSizes ∧ l.index < MAX_IMPORT_MODULES then
        match image.imports[l.index]? with
        | some imp => s.call (.importing l) (.loading l.space imp.libName)
        | none => addInfo s l
      else addInfo s l
  | .linked result _ =>
      match s.frames with
      | .found mo :: fs =>
          let id := (s.module mo).moduleId.toInt32
          { s with frames := fs, pc := .loaded (if result < 0 then result else id) }
      | .created mo :: fs =>
          let id := (s.module mo).moduleId.toInt32
          if result < 0 then { freeModule s mo 0 with frames := fs, pc := .loaded result }
          else { s with frames := fs, pc := .loaded id }
      | .importing _ :: _ => s
      | [] => s.goto .idle
  | .loaded result =>
      match s.frames with
      | .importing l :: fs => importLoaded { s with frames := fs } l result.toUInt32
      | _ :: _ => s
      | [] => s.goto .idle

/-- Calls from outside name a registered module. -/
inductive Event
  | load (space : UInt32) (path : List UInt8)
  | link (mo : ℕ) (space : UInt32)
  | free (mo : ℕ) (space : UInt32)
  | advance (a : Answer)

def step (s : State) : Event → State
  | .load space path => if s.pc = .idle then s.goto (.loading space path) else s
  | .link mo space =>
      if s.pc = .idle ∧ mo ∈ s.moduleList then s.goto (.linking mo space) else s
  | .free mo space => if s.pc = .idle ∧ mo ∈ s.moduleList then freeModule s mo space else s
  | .advance a => advance s a

/-! ## The law -/

/-- A module is in the table until its last space frees it, `GetLoadedInformation` finds its
spaces in a well-formed list, a call of `LinkModuleToSpace` that adds no space fails, and none reads
a null pointer. -/
structure Good (s : State) : Prop where
  listed : ∀ mo, mo ∈ s.moduleList ↔ s.spaces mo ≠ none
  loaded : ∀ mo l, s.spaces mo = some l → ∀ space,
    getLoadedInformation s mo space ≠ none ↔ space ∈ l
  lists : ∀ mo l, s.spaces mo = some l →
    ∃ nodes, Chain s.next s.prev (s.module mo).loadedInformation nodes
  returns : ∀ result, s.pc = .linked result false → result < 0
  alive : s.pc ≠ .crashed

/-! ## Conditions -/

/-- The only space of a module frees it at one reference; other calls do not come to zero
references. -/
def FreeOk (s : State) (mo : ℕ) (space : UInt32) : Prop :=
  if getLoadedInformation s mo space ≠ none then (s.module mo).reference = 1
  else space = 0 → (s.module mo).reference ≠ 1

/-- Behind the last import that is linked. -/
def Finished (s : State) (l : Linking) : Prop :=
  let image := (s.module l.mo).image
  0 < image.numberOfRvaAndSizes → l.index < MAX_IMPORT_MODULES → image.imports[l.index]? = none

/-- A module is linked into a space while it is in none, a failure with an unset result is taken as
one, and the library of an import is there with a place in the space. -/
def AdvanceOk (s : State) (a : Answer) : Prop :=
  match s.pc with
  | .linking mo space => getLoadedInformation s mo space = none ∧
      (a.malloc = true → a.address ≠ 0 → a.duplicated ≠ (s.module mo).image.imageSize →
        a.uninitialized < 0)
  | .imports l => Finished s l → (s.module l.mo).loadedInformation = none
  | .linked result _ =>
      match s.frames with
      | .created mo :: _ => result < 0 →
          getLoadedInformation s mo 0 = none ∧ (s.module mo).reference ≠ 1
      | _ => True
  | .loaded result =>
      match s.frames with
      | .importing l :: _ => ∃ mo2, getModuleById s result.toUInt32 = some mo2 ∧
          getLoadedInformation s mo2 l.space ≠ none
      | _ => True
  | _ => True

def StepOk (s : State) : Event → Prop
  | .free mo space => FreeOk s mo space
  | .advance a => AdvanceOk s a
  | _ => True

/-- No module is registered yet. -/
structure Fresh (s : State) : Prop where
  moduleList : s.moduleList = []
  spaces : ∀ mo, s.spaces mo = none
  pc : s.pc = .idle

end Sgos.ModuleRegistry
