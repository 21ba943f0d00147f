import Sgos.Vfs

/-!
# File systems of devices

`apps/fs/fsmanager.cpp` tries the file systems on a device. Each of them gets an entry of the file
table, right below the root once there is a root.
-/
namespace Sgos.Vfs

/-- Take an entry for the device and link it below the root. There is no result when no entry is
left: the entry is used unchecked. -/
def devFile (hasRoot : Bool) (s : State) : Option (ℕ × State) :=
  match falloc s with
  | (none, _) => none
  | (some f, s) =>
    if hasRoot then some (f, flinkto (s.setReference s.root (s.reference s.root + 1)) f s.root)
    else some (f, s)

/-- What `fs->setup` leaves in the file. -/
def State.setup (s : State) (f : ℕ) (answer : Answer) : State :=
  { s with
    device := Function.update s.device f answer.device
    dir := Function.update s.dir f answer.dir
    attr := Function.update s.attr f answer.attr }

/-- Set a file system up on a device. The result is the file of the device, or `none` when the
device has another file system. -/
def tryFs (hasRoot : Bool) (s : State) (answer : Answer) : Option (Option ℕ × State) := do
  let (f, s) ← devFile hasRoot s
  let s := s.setup f answer
  if answer.ret = 0 then some (some f, s)
  else (ffree MAX_FILE s f).map fun s => (none, s)

/-- Try the registered file systems in turn. -/
def fsDetect (hasRoot : Bool) : State → List Answer → Option (Option ℕ × State)
  | s, [] => some (none, s)
  | s, answer :: answers => do
    match ← tryFs hasRoot s answer with
    | (some f, s) => some (some f, s)
    | (none, s) => fsDetect hasRoot s answers

end Sgos.Vfs
