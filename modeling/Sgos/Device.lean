import Sgos.FsManager
import Sgos.GuardedRun

/-!
# Registered devices

`apps/fs/device.cpp` keeps a list of devices. A device whose file system was found has a file, and
the name of the file is the name of the device. A device without memory is listed as a null pointer,
one without a file system has a null file.
-/
namespace Sgos.Device
open Vfs

def MAX_DEVICE : ℕ := 256
def MAX_FS : ℕ := 16
def DEV_TYPE_ROOT : UInt32 := 0

/-- A registered device; `devFile` is null without a file system. -/
structure Dev where
  thread : UInt32
  devID : UInt32
  devFile : Option ℕ
  deriving DecidableEq

/-- The file table and the list of devices; an entry of the list is null without memory. -/
structure State where
  files : Vfs.State
  hasRoot : Bool
  deviceList : List (Option Dev)

/-- What a call of `device_register` is given and meets: whether there is memory for the device, and
what the registered file systems answer. -/
structure Call where
  type : UInt32
  thread : UInt32
  part : UInt32
  name : List UInt8
  memory : Bool
  answers : List Answer
  fs_le : answers.length ≤ MAX_FS

/-- Search the list from device `i` on. The name in the buffer of file `self` is not compared with
itself. There is no result when a null pointer is used. -/
def deviceFind (files : Vfs.State) (self : Option ℕ) (name : List UInt8) :
    List (Option Dev) → ℕ → Option (Option ℕ)
  | [], _ => some none
  | none :: _, _ => none
  | some dev :: devs, i =>
    match dev.devFile with
    | none => none
    | some f =>
      if self ≠ some f ∧ files.name f = name then some (some i)
      else deviceFind files self name devs (i + 1)

/-- Whether the device is registered already. -/
def registered (thread part : UInt32) : List (Option Dev) → Option Bool
  | [] => some false
  | none :: _ => none
  | some dev :: devs =>
    if dev.thread = thread ∧ dev.devID = part then some true else registered thread part devs

def setName (files : Vfs.State) (f : ℕ) (name : List UInt8) : Vfs.State :=
  { files with name := Function.update files.name f name }

/-- `disk` and a letter. -/
def diskName (c : UInt8) : List UInt8 := [100, 105, 115, 107, c]

/-- The digits that `%d` prints. -/
def digits (part : UInt32) : List UInt8 :=
  let n := part.toInt32.toInt
  let ds := (Nat.toDigits 10 n.natAbs).map fun c => c.toNat.toUInt8
  if n < 0 then 45 :: ds else ds

/-- What `%s:%d` prints. -/
def driverName (name : List UInt8) (part : UInt32) : List UInt8 := name ++ 58 :: digits part

/-- Try the letters from `c` on, and the name of the driver after them. There is no result when that
name overflows. -/
def nameDisk (f : ℕ) (devs : List (Option Dev)) (other : List UInt8) :
    ℕ → UInt8 → Vfs.State → Option Vfs.State
  | 0, _, files => if other.length < FILE_NAME_LEN then some (setName files f other) else none
  | left + 1, c, files => do
    let files := setName files f (diskName c)
    match ← deviceFind files (some f) (diskName c) devs 0 with
    | none => some files
    | some _ => nameDisk f devs other left (c + 1) files

/-- Name the file of a device: the letters are `c` to `z`. -/
def nameDevice (files : Vfs.State) (f : ℕ) (devs : List (Option Dev)) (c : Call) :
    Option Vfs.State :=
  if c.type = DEV_TYPE_ROOT then some (setName files f [SLASH])
  else if files.name f = [] then nameDisk f devs (driverName c.name c.part) 24 99 files
  else some files

/-- The new device, if there is one. There is no result when a null pointer is used or a name
overflows. -/
def deviceRegister (s : State) (c : Call) : Option (Option Dev × State) := do
  if ← registered c.thread c.part s.deviceList then some (none, s)
  else if s.deviceList.length ≥ MAX_DEVICE then some (none, s)
  else if !c.memory then some (none, { s with deviceList := s.deviceList ++ [none] })
  else
    let (devFile, files) ← fsDetect s.hasRoot s.files c.answers
    let dev : Dev := ⟨c.thread, c.part, devFile⟩
    let devs := s.deviceList ++ [some dev]
    match devFile with
    | none => some (some dev, ⟨files, s.hasRoot, devs⟩)
    | some f => (nameDevice files f devs c).map fun files => (some dev, ⟨files, s.hasRoot, devs⟩)

/-- The file table before `vfs_init`. -/
def noFiles : Vfs.State where
  name _ := []
  device _ := none
  flag _ := 0
  dir _ := false
  attr _ := 0
  reference _ := 0
  prev _ := none
  next _ := none
  parent _ := none
  child _ := none
  fileCount := 0
  root := 0

/-- What the file system of the root answers for its device. -/
def rootfsSetup (rootDev : Ptr) : Answer := ⟨0, some rootDev, true, FILE_ATTR_DIR⟩

/-- `vfs_init` registers the root device first. -/
def vfsInit (vfsThread : UInt32) (rootDev : Ptr) (memory : Bool) : Option State := do
  let (dev, s) ← deviceRegister ⟨noFiles, false, []⟩
    ⟨DEV_TYPE_ROOT, vfsThread, 0, [114, 111, 111, 116], memory, [rootfsSetup rootDev],
      by simp [MAX_FS]⟩
  match dev.bind Dev.devFile with
  | none => some s
  | some f => some { s with files := { s.files with root := f }, hasRoot := true }

end Sgos.Device
