import Sgos.LinkedChain
import Sgos.Machine
import Sgos.GuardedRun

/-!
# Open files of the virtual file system

The table of `file_t` entries in `apps/fs/vfs.cpp`, opening by path and closing. The entries in use
form a tree below the root; an entry is free when its reference count is 0. Entries are named by
their index in the table.
-/
namespace Sgos.Vfs
open LinkedChain

def MAX_FILE : ℕ := 65536
def FILE_NAME_LEN : ℕ := 128
def FILE_ATTR_DIR : UInt32 := 2
def ERR_NOPATH : Int32 := 9

/-- The character that separates the components of a path. -/
def SLASH : UInt8 := 47

/-- The fields of all entries, the number of allocations so far and the root. -/
structure State where
  name : ℕ → List UInt8
  device : ℕ → Option Ptr
  flag : ℕ → UInt32
  dir : ℕ → Bool
  attr : ℕ → UInt32
  reference : ℕ → UInt16
  prev : ℕ → Option ℕ
  next : ℕ → Option ℕ
  parent : ℕ → Option ℕ
  child : ℕ → Option ℕ
  fileCount : ℕ
  root : ℕ

namespace State

def setReference (s : State) (f : ℕ) (n : UInt16) : State :=
  { s with reference := Function.update s.reference f n }

def setPrev (s : State) (f : ℕ) (x : Option ℕ) : State :=
  { s with prev := Function.update s.prev f x }

def setNext (s : State) (f : ℕ) (x : Option ℕ) : State :=
  { s with next := Function.update s.next f x }

def setParent (s : State) (f : ℕ) (x : Option ℕ) : State :=
  { s with parent := Function.update s.parent f x }

def setChild (s : State) (f : ℕ) (x : Option ℕ) : State :=
  { s with child := Function.update s.child f x }

/-- The entry is filled with zeros. -/
def clear (s : State) (f : ℕ) : State :=
  { s with
    name := Function.update s.name f []
    device := Function.update s.device f none
    flag := Function.update s.flag f 0
    dir := Function.update s.dir f false
    attr := Function.update s.attr f 0
    reference := Function.update s.reference f 0
    prev := Function.update s.prev f none
    next := Function.update s.next f none
    parent := Function.update s.parent f none
    child := Function.update s.child f none }

end State

/-- The first free entry from `id` on, with `left` entries left. -/
def firstFree (reference : ℕ → UInt16) : ℕ → ℕ → Option ℕ
  | 0, _ => none
  | left + 1, id => if reference id = 0 then some id else firstFree reference left (id + 1)

/-- `fileCount` is never lowered. -/
def falloc (s : State) : Option ℕ × State :=
  if s.fileCount ≥ MAX_FILE then (none, s)
  else
    match firstFree s.reference MAX_FILE 0 with
    | none => (none, s)
    | some f =>
      let s := { s with fileCount := s.fileCount + 1 }
      (some f, (s.clear f).setReference f 1)

def flinkto (s : State) (f parent : ℕ) : State :=
  let s := s.setParent f (some parent)
  let s := match s.child parent with
    | some c => s.setPrev c (some f)
    | none => s
  let s := s.setNext f (s.child parent)
  let s := s.setPrev f none
  s.setChild parent (some f)

def funlink (s : State) (f : ℕ) : State :=
  let s := match s.prev f, s.parent f with
    | some p, _ => s.setNext p (s.next f)
    | none, some parent => s.setChild parent (s.next f)
    | none, none => s
  let s := match s.next f with
    | some n => s.setPrev n (s.prev f)
    | none => s
  ((s.setPrev f none).setNext f none).setParent f none

/-- Give one reference to `f`, and to every file above it, back. The result is `none` when a count
is 0 already: the thread exits. `depth` bounds the files above. -/
def ffree : ℕ → State → ℕ → Option State
  | 0, _, _ => none
  | depth + 1, s, f =>
    if s.reference f = 0 then none
    else do
      let s := s.setReference f (s.reference f - 1)
      let s ← match s.parent f with
        | some parent => ffree depth s parent
        | none => some s
      if s.reference f = 0 then some ((funlink s f).setReference f 0) else some s

/-- What `fs->open` returns, and what it leaves in the file. -/
structure Answer where
  ret : Int32
  device : Option Ptr
  dir : Bool
  attr : UInt32

/-- Lines 132 to 145 of `try_open`: ask the file system for `name` below `cur`. -/
def openFile (s : State) (cur f : ℕ) (name : List UInt8) (flag : UInt32) (answer : Answer) :
    Option (Except Int32 ℕ × State) :=
  let s := { s.setParent f (some cur) with
    flag := Function.update s.flag f flag
    name := Function.update s.name f name
    device := Function.update s.device f answer.device
    dir := Function.update s.dir f answer.dir
    attr := Function.update s.attr f answer.attr }
  if answer.ret < 0 then
    (ffree MAX_FILE (s.setParent f none) f).map fun s => (.error answer.ret, s)
  else some (.ok f, flinkto s f cur)

section Open
variable (fsOpen : Ptr → Bool)

/-- The file is a directory, of a device whose file system has an open operation. There is no
result for a file without a device. -/
def searchable (s : State) (cur : ℕ) : Option Bool :=
  if !s.dir cur && s.attr cur &&& FILE_ATTR_DIR = 0 then some false
  else (s.device cur).map fsOpen

/-- Open one level. An open child of that name is used unless the entry `next` is given. -/
def tryOpen (s : State) (cur : ℕ) (next : Option ℕ) (name : List UInt8) (flag : UInt32)
    (answer : Answer) : Option (Except Int32 ℕ × State) := do
  if !(← searchable fsOpen s cur) then some (.error (-ERR_NOPATH), s)
  else
    match next with
    | some f => openFile s cur f name flag answer
    | none =>
      match search s.next (fun g => s.name g == name) MAX_FILE (s.child cur) with
      | some g => some (.ok g, s.setReference g (s.reference g + 1))
      | none =>
        match falloc s with
        | (none, _) => none
        | (some f, s) => openFile s cur f name flag answer

/-- The loop of `name_file` from the rest of the path on: `name` are the characters of the current
component, `i` counts the components, `answers i` answers for component `i`. There is no result
when a component overflows `name`. -/
def nameFile (f : ℕ) (answers : ℕ → Answer) : List UInt8 → List UInt8 → ℕ → ℕ → State →
    Option (Int32 × State)
  | [], name, parent, i, s => do
    let (result, s) ← tryOpen fsOpen s parent (some f) name (s.flag f) (answers i)
    match result with
    | .error ret => (ffree MAX_FILE s parent).map fun s => (ret, s)
    | .ok _ => some (0, s)
  | c :: path, name, parent, i, s =>
    if c = SLASH then do
      let (result, s) ← if name = [] then some (.ok s.root, s)
        else tryOpen fsOpen s parent none name (s.flag f) (answers i)
      match result with
      | .error ret => (ffree MAX_FILE s parent).map fun s => (ret, s)
      | .ok next =>
        nameFile f answers path [] next (i + 1) (s.setReference next (s.reference next + 1))
    else if name.length + 1 < FILE_NAME_LEN then nameFile f answers path (name ++ [c]) parent i s
    else none

def vfsOpen (s : State) (path : List UInt8) (flag : UInt32) (answers : ℕ → Answer) :
    Option (Except Int32 ℕ × State) :=
  match falloc s with
  | (none, s) => some (.error (-ERR_NOMEM), s)
  | (some f, s) => do
    let s := { s with flag := Function.update s.flag f flag }
    let (ret, s) ← nameFile fsOpen f answers path [] s.root 0 s
    if ret < 0 then (ffree MAX_FILE s f).map fun s => (.error ret, s) else some (.ok f, s)

end Open

def fgetfile (s : State) (id : ℤ) : Option ℕ :=
  if 0 ≤ id ∧ id < MAX_FILE ∧ s.reference id.toNat ≠ 0 then some id.toNat else none

def vfsClose (s : State) (id : ℤ) : Option (Int32 × State) :=
  match fgetfile s id with
  | none => some (-ERR_WRONGARG, s)
  | some f => (ffree MAX_FILE s f).map fun s => (0, s)

/-- The table after `vfs_init`: entry 0 is the directory of the root device. -/
def State.initial (rootDev : Ptr) : State where
  name _ := []
  device := Function.update (fun _ => none) 0 (some rootDev)
  flag _ := 0
  dir := Function.update (fun _ => false) 0 true
  attr := Function.update (fun _ => 0) 0 FILE_ATTR_DIR
  reference := Function.update (fun _ => 0) 0 1
  prev _ := none
  next _ := none
  parent _ := none
  child _ := none
  fileCount := 1
  root := 0

end Sgos.Vfs
