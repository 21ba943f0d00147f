import Sgos.Fat32

/-!
# The size and the position of a file

`fat32_setsize`, which frees the clusters behind the new end of a file or appends clusters to it,
and `vfs_seek`.
-/
namespace Sgos.Fat32
open ByteStore

def SEEK_SET : UInt32 := 0
def SEEK_CUR : UInt32 := 1
def SEEK_END : UInt32 := 2

section Volume
variable (dev : Fat32Dev)

/-- Free the clusters that the entry of `clu` and the ones behind it name. The entry of `clu` itself
is cleared only if it names another cluster. -/
def freeclu : ℕ → Store → UInt32 → Int32 × Store
  | 0, d, _ => (0, d)
  | fuel + 1, d, clu =>
    if (dev.fatAddr + clu * 4) % BLOCK_SIZE > 1020 then (-1, d)
    else
      let next := nextclu dev d clu
      if IS_FAT32CLU_INUSE next then freeclu fuel (writeWord d (entryAddr dev clu) 0) next
      else (0, d)

/-- `new_no` and `old_no`. -/
def cluCount (size : UInt32) : Int32 := (size / dev.bytPerClu + 1).toInt32

/-- The loop that lengthens a file by `no` clusters, and whether all were found. -/
def growLoop (f : File) : ℕ → Store → Bool × Store
  | 0, d => (true, d)
  | no + 1, d =>
    let (clu, d) := allocclu dev d f
    if clu ≠ 0 then growLoop f no d else (false, d)

def fat32Setsize (d : Store) (f : File) (newSize : UInt32) : Int32 × File × Store :=
  let newNo := cluCount dev newSize
  let oldNo := cluCount dev f.size
  if newNo < oldNo then
    let clu := getCluByOrder dev d f.data newNo.toInt.toNat
    let d := if clu ≠ 0 then (freeclu dev addressSpace d clu).2 else d
    (0, { f with size := newSize }, d)
  else if newNo > oldNo then
    match growLoop dev f (newNo.toInt - oldNo.toInt).toNat d with
    | (true, d) => (0, { f with size := newSize }, d)
    | (false, d) => (-1, f, d)
  else (0, { f with size := newSize }, d)

end Volume

/-- The position is cut off at the size. -/
def File.clip (f : File) : File := if f.pos > f.size then { f with pos := f.size } else f

def vfsSeek (f : File) (step pos : UInt32) : File :=
  if pos = SEEK_CUR then File.clip { f with pos := f.pos + step }
  else if pos = SEEK_SET then File.clip { f with pos := step }
  else if pos = SEEK_END then File.clip { f with pos := f.size + step }
  else f

end Sgos.Fat32
