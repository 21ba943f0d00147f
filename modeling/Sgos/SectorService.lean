import Sgos.MappedStore
import Sgos.RangeSwap

/-!
# The disk service

`parse` of `apps/hd/main.cpp` and `lba_rw_sectors` of `apps/hd/lba.cpp`, with the answer to
`SysSwapMemory`. A drive has its sectors ready whenever it is asked, and goes on with the sector
behind the one it was addressed at. The pages of the buffer of the service never fault.
-/
namespace Sgos.SectorService
open Paging MemoryRanges MappedStore

def BUFFER_SIZE : UInt32 := (64 : UInt32) <<< 10
def MAX_SECTORS : UInt32 := BUFFER_SIZE >>> 9

structure PARTITION_INFO where
  start : UInt32
  sectors : UInt32

/-- A byte of a frame. -/
abbrev Loc := Frame × ℕ

/-- The bytes of the frames and of the sectors of each drive, and the sectors that the service has
transferred. -/
structure System where
  mm : CopyOnWrite.State
  memory : Loc → UInt8
  disk : ℕ → ℕ → ℕ → UInt8
  accessed : List (ℕ × ℕ)

/-- Where a byte of a space lies. -/
def byteAt (s : Paging.State) (space : Ptr) (addr : UInt32) : Option Loc :=
  (s.translate space addr).map fun f => (f, addr.toNat % 4096)

/-- What does not change while the service runs: the areas, the directories of the spaces by their
ids, the partition table with what lies behind its ten entries, and the buffer. -/
structure Service where
  lists : Lists
  spaces : UInt32 → Option Ptr
  part : UInt8 → PARTITION_INFO
  space : Ptr
  bufferPage : UInt32

/-! ## The ports -/

/-- The registers of a command. -/
structure Registers where
  count : UInt8
  low : UInt8
  mid : UInt8
  high : UInt8
  head : UInt8

def registers (drive secStart secCount : UInt32) : Registers where
  count := secCount.toUInt8
  low := secStart.toUInt8
  mid := (secStart >>> 8).toUInt8
  high := (secStart >>> 16).toUInt8
  head := ((0xe0 : UInt32) ||| (drive <<< 4) ||| ((secStart &&& 0x0f000000) >>> 24)).toUInt8

namespace Registers

/-- The sector that a command addresses. -/
def lba (r : Registers) : ℕ :=
  r.low.toNat + r.mid.toNat * 256 + r.high.toNat * 65536 + (r.head &&& 0xf).toNat * 16777216

def drive (r : Registers) : ℕ := ((r.head >>> 4) &&& 1).toNat

end Registers

section Calls
variable (hd : Service)

/-- `READ_WORDS` of one sector. -/
def readWords (s : System) (drive lba : ℕ) (buf : UInt32) : System :=
  { s with
    memory := store (fun i => byteAt s.mm.paging hd.space (buf + UInt32.ofNat i)) (s.disk drive lba)
      512 s.memory
    accessed := (drive, lba) :: s.accessed }

/-- `WRITE_WORDS` of one sector. -/
def writeWords (s : System) (drive lba : ℕ) (buf : UInt32) : System :=
  let sector i := (byteAt s.mm.paging hd.space (buf + UInt32.ofNat i)).elim 0 s.memory
  { s with
    disk := Function.update s.disk drive (Function.update (s.disk drive) lba sector)
    accessed := (drive, lba) :: s.accessed }

/-- The loop over the sectors. -/
def sectors (write : Bool) (drive : ℕ) : ℕ → ℕ → UInt32 → System → System
  | 0, _, _, s => s
  | secCount + 1, lba, buf, s =>
      sectors write drive secCount (lba + 1) (buf + 512)
        (if write then writeWords hd s drive lba buf else readWords hd s drive lba buf)

/-- The loop ends when `sec_count` is 0, which is what the function returns. -/
def lbaRwSectors (dev : UInt8) (secStart secCount buf : UInt32) (write : Bool) (s : System) :
    Int32 × System :=
  let secStart := secStart + (hd.part dev).start
  let drive : UInt32 := if dev < 5 then 0 else 1
  let r := registers drive secStart secCount
  (0, sectors hd write r.drive secCount.toNat r.lba buf s)

/-- The system thread answers for the space of the service. -/
def sysSwapMemory (s : System) (destSp destAddr srcAddr siz flag : UInt32) :
    Option (UInt32 × System) :=
  match hd.spaces destSp with
  | none => some (0, s)
  | some dest => do
      let (result, mm) ← mmSwapMultiplePhysicalPages hd.lists s.mm dest destAddr hd.space srcAddr
        siz flag
      some (result, { s with mm })

inductive Command
  | readSector | writeSector
  deriving DecidableEq

/-- `Arguments[0]` to `Arguments[2]` and `Large[0]`. -/
structure Message where
  threadId : UInt32
  command : Command
  device : UInt32
  start : UInt32
  count : UInt32
  large : UInt32

def spaceId (threadId : UInt32) : UInt32 := threadId >>> 16

/-- The code of the answer. What `SysSwapMemory` returns is not looked at. -/
def parse (msg : Message) (s : System) : Option (Int32 × System) :=
  let secCount := if msg.count > MAX_SECTORS then MAX_SECTORS else msg.count
  match msg.command with
  | .readSector => do
      let (code, s) := lbaRwSectors hd msg.device.toUInt8 msg.start secCount hd.bufferPage false s
      let (_, s) ← sysSwapMemory hd s (spaceId msg.threadId) msg.large hd.bufferPage
        (secCount <<< 9) MAP_ADDRESS
      some (code, s)
  | .writeSector => do
      let (_, s) ← sysSwapMemory hd s (spaceId msg.threadId) msg.large hd.bufferPage
        (secCount <<< 9) MAP_ADDRESS
      some (lbaRwSectors hd msg.device.toUInt8 msg.start secCount hd.bufferPage true s)

end Calls

/-! ## What a request asks for -/

section Request
variable (hd : Service) (msg : Message)

/-- The drive and the partition of a device number. -/
def partition (device : UInt32) : Option (ℕ × PARTITION_INFO) :=
  if device < 10 then some (device.toNat / 5, hd.part device.toUInt8) else none

/-- A sector of a drive lies in the partition of the device. -/
def Inside (device : UInt32) (x : ℕ × ℕ) : Prop :=
  ∃ p, partition hd device = some (x.1, p) ∧ p.start.toNat ≤ x.2 ∧
    x.2 < p.start.toNat + p.sectors.toNat

/-- The directory of the caller. -/
def caller : Option Ptr := hd.spaces (spaceId msg.threadId)

/-- A byte of the buffer of the caller. -/
def callerByte (s : Paging.State) (i : ℕ) : Option Loc :=
  (caller hd msg).bind fun space => byteAt s space (msg.large + UInt32.ofNat i)

/-- A byte of the buffer of the service. -/
def bufferByte (s : Paging.State) (i : ℕ) : Option Loc :=
  byteAt s hd.space (hd.bufferPage + UInt32.ofNat i)

/-- All bytes of the requested sectors have gone from the disk to the buffer of the caller, or from
there to the disk. -/
def Transferred (s s' : System) : Prop :=
  ∀ i < msg.count.toNat * 512, ∃ drive p l, partition hd msg.device = some (drive, p) ∧
    let byte := s'.disk drive (p.start.toNat + msg.start.toNat + i / 512) (i % 512)
    match msg.command with
    | .readSector => callerByte hd msg s'.mm.paging i = some l ∧ s'.memory l = byte
    | .writeSector => callerByte hd msg s.mm.paging i = some l ∧ byte = s.memory l

/-- Whatever memory and disk hold, the request is answered, no sector outside of the partition is
accessed, and the answer is negative unless all is transferred. -/
def Served (mm : CopyOnWrite.State) : Prop :=
  ∀ memory disk, ∃ code s', parse hd msg ⟨mm, memory, disk, []⟩ = some (code, s') ∧
    (∀ x ∈ s'.accessed, Inside hd msg.device x) ∧
    (0 ≤ code → Transferred hd msg ⟨mm, memory, disk, []⟩ s')

end Request

end Sgos.SectorService
