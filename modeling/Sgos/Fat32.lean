import Sgos.ByteStore
import Sgos.Machine

/-!
# Clusters of a FAT32 volume

`apps/fs/fat32.c`: the table of clusters, and files that are read and written through it. The
bytes of the device are taken as the block cache shows them: what a buffer of a block has at `pos`
is the byte at `block * BLOCK_SIZE + pos`, and the device reads and writes succeed.
-/
namespace Sgos.Fat32
open ByteStore

def BLOCK_SIZE : UInt32 := 4096
def SECTOR_SIZE : UInt32 := 512

def IS_FAT32CLU_FREE (c : UInt32) : Bool := c = 0
def IS_FAT32CLU_INUSE (c : UInt32) : Bool := 2 ≤ c && c < 0x0fffffef
def IS_FAT32CLU_END (c : UInt32) : Bool := 0x0ffffff8 ≤ c

/-- What `fat32_init` reads from the boot sector. -/
structure BootSec where
  bytPerSec : UInt16
  secPerClu : UInt8
  secReserved : UInt16
  fats : UInt8
  secPerFat : UInt32
  rootCluster : UInt32
  ebr : UInt8

structure Fat32Dev where
  secPerFat : UInt32
  bytPerSec : UInt32
  secReserved : UInt32
  rootClu : UInt32
  fats : UInt32
  secPerClu : UInt32
  fatAddr : UInt32
  dataAddr : UInt32
  bytPerClu : UInt32
  newCluStart : UInt32

def fat32Init (boot : BootSec) : Option Fat32Dev :=
  if boot.ebr ≠ 0x28 ∧ boot.ebr ≠ 0x29 then none
  else
    let fatAddr := boot.bytPerSec.toUInt32 * boot.secReserved.toUInt32
    some {
      secPerFat := boot.secPerFat
      bytPerSec := boot.bytPerSec.toUInt32
      secReserved := boot.secReserved.toUInt32
      rootClu := boot.rootCluster
      fats := boot.fats.toUInt32
      secPerClu := boot.secPerClu.toUInt32
      fatAddr := fatAddr
      dataAddr := fatAddr + boot.fats.toUInt32 * boot.secPerFat * boot.bytPerSec.toUInt32
      bytPerClu := boot.bytPerSec.toUInt32 * boot.secPerClu.toUInt32
      newCluStart := 0 }

/-- The fields of a `file_t` that the operations on its clusters use. -/
structure File where
  data : UInt32
  size : UInt32
  pos : UInt32
  dirty : Bool
  deriving DecidableEq, Repr

/-- The address of offset `pos` in a block. -/
def address (block pos : UInt32) : ℕ := block.toNat * BLOCK_SIZE.toNat + pos.toNat

section Volume
variable (dev : Fat32Dev)

/-! ## The table of clusters -/

/-- The address of the entry of a cluster, as a block and an offset in it. -/
def entryAddr (clu : UInt32) : ℕ :=
  let read_addr := dev.fatAddr + clu * 4
  address (read_addr / BLOCK_SIZE) (read_addr % BLOCK_SIZE)

def nextclu (d : Store) (clu : UInt32) : UInt32 := readWord d (entryAddr dev clu)

/-- Follow `no` entries; 0 when the chain is shorter. -/
def getCluByOrder (d : Store) (clu : UInt32) : ℕ → UInt32
  | 0 => clu
  | no + 1 =>
    let clu := nextclu dev d clu
    if !IS_FAT32CLU_INUSE clu then 0 else getCluByOrder d clu no

/-- The inner loop of `fat32_getclu`, over the rest of a block: the address of a free entry if there
is one, else where the loop stops. `count` is not checked here. -/
def lookup (d : Store) : ℕ → UInt32 → UInt32 → Except (UInt32 × UInt32) UInt32
  | 0, read_addr, count => .error (read_addr, count)
  | n + 1, read_addr, count =>
    if IS_FAT32CLU_FREE (readWord d read_addr.toNat) then .ok read_addr
    else lookup d n (read_addr + 4) (count - 4)

def getcluLoop (d : Store) : ℕ → UInt32 → UInt32 → UInt32 × Store
  | 0, _, _ => (0, d)
  | fuel + 1, read_addr, count =>
    if count > 0 then
      match lookup d ((BLOCK_SIZE - read_addr % BLOCK_SIZE) / 4).toNat read_addr count with
      | .ok read_addr =>
        ((read_addr - dev.fatAddr) / 4, writeWord d read_addr.toNat 0xffffffff)
      | .error (read_addr, count) => getcluLoop d fuel read_addr count
    else (0, d)

/-- Take the first free cluster and mark it as the end of a chain; 0 when there is none. -/
def getclu (d : Store) : UInt32 × Store :=
  getcluLoop dev d addressSpace (dev.fatAddr + dev.newCluStart) (dev.secPerFat * dev.bytPerSec)

/-- The last cluster of the chain from `clu` on. -/
def lastclu (d : Store) : ℕ → UInt32 → UInt32
  | 0, clu => clu
  | fuel + 1, clu =>
    if IS_FAT32CLU_INUSE (nextclu dev d clu) then lastclu d fuel (nextclu dev d clu) else clu

/-- Append a new cluster to the chain of a file. -/
def allocclu (d : Store) (f : File) : UInt32 × Store :=
  let clu := lastclu dev d addressSpace f.data
  let read_addr := dev.fatAddr + clu * 4
  if read_addr % BLOCK_SIZE > BLOCK_SIZE - 4 then (0, d)
  else if IS_FAT32CLU_END (nextclu dev d clu) then
    let (new, d) := getclu dev d
    (new, writeWord d (entryAddr dev clu) new)
  else (nextclu dev d clu, d)

/-! ## The bytes of a cluster -/

/-- Where `fat32_writeclu` and `fat32_readclu` begin. -/
def cluBlock (clu : UInt32) : UInt32 :=
  (dev.dataAddr / dev.bytPerSec + (clu - 2) * dev.secPerClu) / (BLOCK_SIZE / SECTOR_SIZE)

def cluPos (clu : UInt32) : UInt32 :=
  (dev.dataAddr % BLOCK_SIZE + ((clu - 2) % BLOCK_SIZE * dev.bytPerClu) % BLOCK_SIZE) % BLOCK_SIZE

/-- Write `data` block by block. -/
def writeBlocks : ℕ → Store → UInt32 → UInt32 → List UInt8 → Store
  | 0, d, _, _, _ => d
  | fuel + 1, d, block, pos, data =>
    if data = [] then d
    else
      let write := min (BLOCK_SIZE - pos).toNat data.length
      writeBlocks fuel (writeBytes d (address block pos) (data.take write)) (block + 1) 0
        (data.drop write)

/-- Read `size` bytes block by block. -/
def readBlocks (d : Store) : ℕ → UInt32 → UInt32 → ℕ → List UInt8
  | 0, _, _, _ => []
  | fuel + 1, block, pos, size =>
    if size = 0 then []
    else
      let read := min (BLOCK_SIZE - pos).toNat size
      readBytes d (address block pos) read ++ readBlocks d fuel (block + 1) 0 (size - read)

/-- `cluData` are the `bytPerClu` bytes of a cluster. -/
def writeclu (d : Store) (clu : UInt32) (cluData : List UInt8) : Store :=
  writeBlocks cluData.length d (cluBlock dev clu) (cluPos dev clu) cluData

def readclu (d : Store) (clu : UInt32) : List UInt8 :=
  readBlocks d dev.bytPerClu.toNat (cluBlock dev clu) (cluPos dev clu) dev.bytPerClu.toNat

/-! ## Files -/

/-- The loop of `fat32_read`: whether it ends without meeting the end of the chain, and what it
puts into the buffer. -/
def readLoop (d : Store) : ℕ → UInt32 → UInt32 → UInt32 → Bool × List UInt8
  | 0, _, _, _ => (true, [])
  | fuel + 1, clu, pos, count =>
    if count > 0 then
      let read := if count < dev.bytPerClu - pos then count else dev.bytPerClu - pos
      if !IS_FAT32CLU_INUSE clu then (false, [])
      else
        let bytes := ((readclu dev d clu).drop pos.toNat).take read.toNat
        let count := count - read
        let clu := if count > 0 then nextclu dev d clu else clu
        let (ok, out) := readLoop d fuel clu 0 count
        (ok, bytes ++ out)
    else (true, [])

/-- How many clusters lie before the one at `pos`, which is passed on as an `int`. -/
def cluOrder (pos : UInt32) : ℕ := (pos / dev.bytPerClu).toInt32.toInt.toNat

/-- The return value, the bytes put into the buffer and the file after the call. -/
def fat32Read (d : Store) (f : File) (count : UInt32) : Int32 × List UInt8 × File :=
  let count := if count > f.size - f.pos then f.size - f.pos else count
  let clu := getCluByOrder dev d f.data (cluOrder dev f.pos)
  let (ok, out) := readLoop dev d count.toNat clu (f.pos % dev.bytPerClu) count
  (if ok then (UInt32.ofNat out.length).toInt32 else 0, out,
    { f with pos := f.pos + UInt32.ofNat out.length })

/-- The cluster that is written next: a new one at the end of the chain. -/
def writeTarget (d : Store) (f : File) (clu : UInt32) : Except Int32 UInt32 × Store :=
  if !IS_FAT32CLU_INUSE clu then
    if IS_FAT32CLU_END clu then
      let (tmp, d) := allocclu dev d f
      if !IS_FAT32CLU_INUSE tmp then (.error (-1), d) else (.ok tmp, d)
    else (.error 0, d)
  else (.ok clu, d)

/-- Copy `bytes` to `data + pos`. -/
def memcpy (data : List UInt8) (pos : ℕ) (bytes : List UInt8) : List UInt8 :=
  data.take pos ++ bytes ++ data.drop (pos + bytes.length)

/-- The loop of `fat32_write`. `fresh written` is what `malloc` returns behind `written` bytes. -/
def writeLoop (f : File) (fresh : UInt32 → ℕ → UInt8) :
    ℕ → Store → UInt32 → UInt32 → List UInt8 → UInt32 → Except Int32 UInt32 × Store
  | 0, d, _, _, _, written => (.ok written, d)
  | fuel + 1, d, clu, pos, buf, written =>
    if buf = [] then (.ok written, d)
    else
      let write := min (dev.bytPerClu - pos).toNat buf.length
      match writeTarget dev d f clu with
      | (.error ret, d) => (.error ret, d)
      | (.ok clu, d) =>
        let cluData := if pos ≠ 0 then readclu dev d clu
          else (List.range dev.bytPerClu.toNat).map (fresh written)
        let cluData := memcpy cluData pos.toNat (buf.take write)
        let d := writeclu dev d clu cluData
        let buf := buf.drop write
        let clu := if buf = [] then clu else nextclu dev d clu
        writeLoop f fresh fuel d clu 0 buf (written + UInt32.ofNat write)

def fat32Write (d : Store) (f : File) (buf : List UInt8) (fresh : UInt32 → ℕ → UInt8) :
    Int32 × File × Store :=
  let clu := getCluByOrder dev d f.data (cluOrder dev f.pos)
  match writeLoop dev f fresh buf.length d clu (f.pos % dev.bytPerClu) buf 0 with
  | (.error ret, d) => (ret, f, d)
  | (.ok written, d) =>
    if written = 0 then (0, f, d)
    else
      let f := { f with pos := f.pos + written }
      (written.toInt32, if f.pos > f.size then { f with size := f.pos, dirty := true } else f, d)

end Volume

end Sgos.Fat32
