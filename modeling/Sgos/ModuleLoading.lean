import Sgos.ModuleRegistry

/-!
# The loading of a module

`PeLoadLibrary` of `apps/wprocess/peloader.cpp` and `LinkModuleToSpace` of
`apps/wprocess/module.cpp` as one call for one space, with the calls for imports inside of it. What
the services answer is given for each call of `PeLoadLibrary`, in the order of the calls. The areas
of both spaces are kept as the services are documented: an address is granted only where no area
lies. The contents of the array of imported modules, which nothing reads, and the page behind an
open file are left out.
-/
namespace Sgos.ModuleLoading
open ModuleRegistry (Image Import LoadError Lookup MAX_IMPORT_MODULES ERR_NOIMP addInfo
  allocateModule fixupImports getLoadedInformation getModuleById getModuleByPath)

/-- What the services answer in one call. `file` stands for lines 59 to 91 of `PeLoadLibrary`: what
the reads leave in the headers, and the address of the image in the own space. `sections` says which
sections are read in full; the tables of the image are what memory holds then. `uninitialized` is
the value of a variable that was not set. -/
structure Answer where
  file : Except LoadError (UInt32 × Image)
  sections : List Bool
  moduleBlock : Bool
  arrayBlock : Bool
  infoBlock : Bool
  granted : Bool
  duplicated : UInt32
  uninitialized : Int32
  swapped : UInt32

/-- `arrays` tells which modules have an array for their imports, `own` where the images of modules
are in the own space, `areas` what is allocated in the space that is loaded into. `missing` is set
where something that the load needs could not be had. -/
structure World where
  registry : ModuleRegistry.State
  arrays : ℕ → Bool
  own : List UInt32
  areas : List (UInt32 × UInt32)
  calls : ℕ
  missing : Bool

/-- A null pointer is read or written in `crashed`; `unfinished` is a call nested deeper than the
fuel. -/
inductive Outcome
  | returned (result : Int32) (w : World)
  | crashed (w : World)
  | unfinished

namespace World

def miss (w : World) : World := { w with missing := true }

/-- Whether an area lies in the range. -/
def Taken (w : World) (addr size : UInt32) : Prop :=
  ∃ x ∈ w.areas, x.1.toNat < addr.toNat + size.toNat ∧ addr.toNat < x.1.toNat + x.2.toNat

instance (w : World) (addr size : UInt32) : Decidable (w.Taken addr size) :=
  inferInstanceAs (Decidable (∃ x ∈ w.areas, _))

/-- An area of no bytes, or at 0, is refused as well. -/
def Grants (w : World) (a : Answer) (addr size : UInt32) : Prop :=
  a.granted = true ∧ addr ≠ 0 ∧ size ≠ 0 ∧ ¬w.Taken addr size

instance (w : World) (a : Answer) (addr size : UInt32) : Decidable (w.Grants a addr size) :=
  inferInstanceAs (Decidable (_ ∧ _ ∧ _ ∧ _))

def allocateAddress (w : World) (addr size : UInt32) : World :=
  { w with areas := (addr, size) :: w.areas }

/-- `SysFreeMemory` in the space that is loaded into. -/
def freeAddress (w : World) (addr : UInt32) : World :=
  { w with areas := w.areas.eraseP fun x => x.1 = addr }

/-- The end of `LinkModuleToSpace`. -/
def addInfo (w : World) (mo : ℕ) (space addr : UInt32) : World :=
  { w with registry := (ModuleRegistry.addInfo w.registry ⟨mo, space, addr, 0⟩).goto .idle }

/-- `FreeModule( mo, 0 )`. -/
def freeModule (w : World) (mo : ℕ) : World :=
  let m := w.registry.module mo
  { w with
    registry := ModuleRegistry.freeModule w.registry mo 0
    own := if m.reference - 1 = 0 then w.own.erase m.loadAddress else w.own }

end World

/-! ## The calls -/

/-- The loop over the imports. A negative result of `PeLoadLibrary` is taken for a large number. The
result says whether all procedures were found, and is -66 if not. -/
def linkImports (load : World → List UInt8 → Outcome) (space : UInt32) (mo : ℕ) :
    World → List Import → Outcome
  | w, [] => .returned 0 w
  | w, imp :: rest =>
      match load w imp.libName with
      | .returned mo2Id w =>
          match getModuleById w.registry mo2Id.toUInt32 with
          | none => .crashed w
          | some mo2 =>
              let mi2 := getLoadedInformation w.registry mo2 space
              if w.arrays mo = false then .crashed w
              else
                match fixupImports w.registry mo2 mi2 imp.lookups with
                | none => .crashed w
                | some false => .returned (-66) w.miss
                | some true =>
                    -- an import by ordinal is passed over
                    let w := if .ordinal ∈ imp.lookups then w.miss else w
                    linkImports load space mo w rest
      | outcome => outcome

/-- The imports that the loop goes through. -/
def importsOf (image : Image) : List Import :=
  if 0 < image.numberOfRvaAndSizes then image.imports.take MAX_IMPORT_MODULES else []

/-- The part behind the loop over the imports. What the swap returns is printed at most. -/
def swapModule (space : UInt32) (a : Answer) (mo : ℕ) (image : Image) : Outcome → Outcome
  | .returned result w =>
      if result < 0 then .returned result (w.freeAddress image.imageBase)
      else
        let w := if a.swapped = image.imageSize then w else w.miss
        .returned 0 (w.addInfo mo space image.imageBase)
  | outcome => outcome

def linkModuleToSpace (load : World → List UInt8 → Outcome) (space : UInt32) (a : Answer)
    (w : World) (mo : ℕ) : Outcome :=
  let image := (w.registry.module mo).image
  if getLoadedInformation w.registry mo space ≠ none then .returned 0 w
  else if a.infoBlock = false then .returned (-ERR_NOMEM) w.miss
  else if ¬w.Grants a image.imageBase image.imageSize then .returned (-ERR_NOIMP) w.miss
  else
    let w := w.allocateAddress image.imageBase image.imageSize
    if a.duplicated ≠ image.imageSize then
      -- "result -ERR_UNKNOWN;" sets nothing
      .returned a.uninitialized (w.freeAddress image.imageBase).miss
    else
      swapModule space a mo image (linkImports load space mo w (importsOf image))

/-- The part behind the section table. A section that cannot be read ends the loop over the sections
and nothing else. -/
def registerModule (load : World → List UInt8 → Outcome) (space : UInt32) (a : Answer) (w : World)
    (path : List UInt8) (addr : UInt32) (image : Image) : Outcome :=
  let w := { w with own := addr :: w.own }
  let w := if a.sections.all id then w else w.miss
  match allocateModule w.registry path with
  | (none, _) => .returned (-ERR_NOMEM) { w.miss with own := w.own.erase addr }
  | (some mo, registry) =>
      if a.moduleBlock = false then .crashed w
      else
        let m := registry.module mo
        let w := { w with
          registry := registry.setModule mo { m with loadAddress := addr, image }
          arrays := Function.update w.arrays mo a.arrayBlock }
        match linkModuleToSpace load space a w mo with
        | .returned result w =>
            if result < 0 then .returned result (w.freeModule mo)
            else .returned (w.registry.module mo).moduleId.toInt32 w
        | outcome => outcome

/-- One call of `PeLoadLibrary`, with `load` for the calls inside. -/
def loadLibrary (load : World → List UInt8 → Outcome) (space : UInt32) (a : Answer) (w : World)
    (path : List UInt8) : Outcome :=
  match getModuleByPath w.registry path with
  | some mo =>
      let id := (w.registry.module mo).moduleId.toInt32
      if getLoadedInformation w.registry mo space ≠ none then .returned id w
      else
        match linkModuleToSpace load space a w mo with
        | .returned result w => .returned (if result < 0 then result else id) w
        | outcome => outcome
  | none =>
      match a.file with
      | .error e => .returned e.code w.miss
      | .ok (addr, image) => registerModule load space a w path addr image

def peLoadLibrary (answers : ℕ → Answer) (space : UInt32) : ℕ → World → List UInt8 → Outcome
  | 0, _, _ => .unfinished
  | fuel + 1, w, path =>
      loadLibrary (peLoadLibrary answers space fuel) space (answers w.calls)
        { w with calls := w.calls + 1 } path

/-! ## What is claimed -/

/-- Modules, references, lists of spaces and the areas of both spaces are as before. -/
structure Same (w w' : World) : Prop where
  moduleList : w'.registry.moduleList = w.registry.moduleList
  reference : ∀ mo ∈ w.registry.moduleList,
    (w'.registry.module mo).reference = (w.registry.module mo).reference
  loadedInformation : ∀ mo ∈ w.registry.moduleList,
    (w'.registry.module mo).loadedInformation = (w.registry.module mo).loadedInformation
  next : ∀ mi < w.registry.blocks, w'.registry.next mi = w.registry.next mi
  prev : ∀ mi < w.registry.blocks, w'.registry.prev mi = w.registry.prev mi
  info : ∀ mi < w.registry.blocks, w'.registry.info mi = w.registry.info mi
  own : w'.own = w.own
  areas : w'.areas = w.areas

/-- Something that the load needs could not be had. A null pointer stands for a module or a block
that could not be had. -/
def Outcome.Missing : Outcome → Prop
  | .returned _ w => w.missing = true
  | .crashed _ => True
  | .unfinished => False

/-- The call has returned a negative value and has changed nothing. -/
def Failed (w : World) : Outcome → Prop
  | .returned result w' => result < 0 ∧ Same w w'
  | _ => False

/-- The call ends, and where something is missing it fails and changes nothing. -/
def FailsClean (w : World) (outcome : Outcome) : Prop :=
  outcome ≠ .unfinished ∧ (outcome.Missing → Failed w outcome)

/-! ## Conditions -/

/-- The load of an import that is registered returns, and leaves all as it is: the library is in the
space, or its memory is not duplicated and the variable that is not set happens not to be
negative. -/
def Idle (space : UInt32) (a : Answer) (w : World) (mo : ℕ) : Prop :=
  let image := (w.registry.module mo).image
  getLoadedInformation w.registry mo space ≠ none ∨
    a.infoBlock = true ∧ w.Grants a image.imageBase image.imageSize ∧
      a.duplicated ≠ image.imageSize ∧ 0 ≤ a.uninitialized

/-- A procedure is missing in the first library with one, and up to this library all are registered
and none has to be linked. -/
def ProcedureMissing (answers : ℕ → Answer) (space : UInt32) (w : World) : ℕ → List Import → Prop
  | _, [] => False
  | calls, imp :: rest =>
      ∃ mo2, getModuleByPath w.registry imp.libName = some mo2 ∧ Idle space (answers calls) w mo2 ∧
        ∃ mo3, getModuleById w.registry (w.registry.module mo2).moduleId = some mo3 ∧
          (fixupImports w.registry mo3 (getLoadedInformation w.registry mo3 space) imp.lookups =
              some false ∨
            fixupImports w.registry mo3 (getLoadedInformation w.registry mo3 space) imp.lookups =
              some true ∧ ProcedureMissing answers space w (calls + 1) rest)

/-- The link of a registered module fails before anything is linked. -/
def LinkFails (answers : ℕ → Answer) (space : UInt32) (w : World) (mo : ℕ) : Prop :=
  let a := answers w.calls
  let image := (w.registry.module mo).image
  a.infoBlock = false ∨ ¬w.Grants a image.imageBase image.imageSize ∨
    if a.duplicated ≠ image.imageSize then a.uninitialized < 0
    else w.arrays mo = true ∧ ProcedureMissing answers space
      (w.allocateAddress image.imageBase image.imageSize) (w.calls + 1) (importsOf image)

/-- The load of a new library fails before it is registered. -/
def FileFails (a : Answer) (w : World) : Prop :=
  (∃ e, a.file = .error e) ∨ ModuleRegistry.MAX_MODULE ≤ w.registry.moduleList.length

/-- What fails is missed in time. -/
def Noticed (answers : ℕ → Answer) (space : UInt32) (w : World) (path : List UInt8) : Prop :=
  match getModuleByPath w.registry path with
  | some mo => LinkFails answers space w mo
  | none => FileFails (answers w.calls) w

/-- Modules and nodes are blocks, and areas are not empty. -/
structure Tidy (w : World) : Prop where
  bounded : ∀ mo ∈ w.registry.moduleList, mo < w.registry.blocks
  nodes : ∀ mo ∈ w.registry.moduleList, ∀ mi,
    (w.registry.module mo).loadedInformation = some mi → mi < w.registry.blocks
  areas : ∀ x ∈ w.areas, x.2 ≠ 0

/-- Before a call nothing is missing, and the numbers of the modules are not negative as an
`int`. -/
structure Ok (w : World) extends Tidy w where
  numbers : ∀ mo ∈ w.registry.moduleList, 0 ≤ (w.registry.module mo).moduleId.toInt32
  missing : w.missing = false

/-- No call is nested deeper than there are addresses for areas. -/
def fuel : ℕ := 4294967297

end Sgos.ModuleLoading
