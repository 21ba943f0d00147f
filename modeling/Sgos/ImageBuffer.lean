import Sgos.ByteOverlay
import Sgos.GuardedRun

/-!
# The buffers of the image tool

`tools/wf/buffer.c` reads and writes blocks of the partitions of a disk image through a list of
buffers that it puts back at the end. Beside it stands what the buffers are for: an image whose
blocks are read and written in place.
-/
namespace Sgos.ImageBuffer
open ByteStore GuardedRun

def BLOCK_SIZE : ℕ := 1024
def MAX_BUFFER : ℕ := 10240

/-- The bytes of a block. -/
abbrev Data := {bytes : List UInt8 // bytes.length = BLOCK_SIZE}

/-- A partition, in sectors of 512 bytes. -/
structure HD_DRIVE where
  start : UInt32
  sectors : UInt32
  deriving DecidableEq, Repr

/-- A used entry of `buffers`; the memory for the data was there. -/
structure BUFFER where
  block : UInt32
  buf : Data
  dev : UInt16

/-- The file with the image and the position in it, and the first `buffer_count` buffers. -/
structure State where
  file : Store
  pos : ℕ
  buffers : List BUFFER

/-- The number of entries of `drives`. -/
def MAX_DRIVE : ℕ := 10

/-- An image and its partitions: they lie in the file and are apart from each other. -/
structure Disk where
  drives : ℕ → HD_DRIVE
  size : ℕ
  inside : ∀ i < MAX_DRIVE, ((drives i).start.toNat + (drives i).sectors.toNat) * 512 ≤ size
  apart : ∀ i < MAX_DRIVE, ∀ j < MAX_DRIVE, i ≠ j →
    (drives i).start.toNat + (drives i).sectors.toNat ≤ (drives j).start.toNat ∨
      (drives j).start.toNat + (drives j).sectors.toNat ≤ (drives i).start.toNat

/-! ## The buffers -/
section Buffers
variable (disk : Disk)

/-- The position of a block, computed in 32 bits. -/
def position (dev : UInt16) (block : UInt32) : UInt32 :=
  (block * 2 + (disk.drives dev.toNat).start) * 512

/-- The program is compiled for 32 bits: the position is a `long`, and a negative one is refused. -/
def fseek (pos : ℕ) (offset : UInt32) : ℕ := if offset.toNat < 2147483648 then offset.toNat else pos

/-- `fread` of one block. -/
def fread (file : Store) (pos : ℕ) : Data := ⟨readBytes file pos BLOCK_SIZE, length_readBytes _ _ _⟩

def bufferRead (s : State) (dev : UInt16) (block : UInt32) : Data × State :=
  match s.buffers.find? (·.block = block) with
  | some b => (b.buf, s)
  | none =>
      let pos := fseek s.pos (position disk dev block)
      let data := fread s.file pos
      let s := { s with pos := pos + BLOCK_SIZE }
      (data, if s.buffers.length < MAX_BUFFER then
        { s with buffers := s.buffers ++ [⟨block, data, dev⟩] } else s)

/-- Copy `data` to the first buffer with the number of the block. -/
def overwrite (data : Data) (block : UInt32) : List BUFFER → List BUFFER
  | [] => []
  | b :: bs => if b.block = block then { b with buf := data } :: bs
      else b :: overwrite data block bs

/-- The result is 0 in any case. -/
def bufferWrite (s : State) (block : UInt32) (data : Data) : Int32 × State :=
  (0, { s with buffers := overwrite data block s.buffers })

/-- The file after all buffers were written to it in turn. -/
def cleanupFrom (pos : ℕ) (file : Store) : List BUFFER → Store
  | [] => file
  | b :: bs =>
      let pos := fseek pos (position disk b.dev b.block)
      cleanupFrom (pos + BLOCK_SIZE) (writeBytes file pos b.buf.1) bs

def bufferCleanup (s : State) : Store := cleanupFrom disk s.pos s.file s.buffers

inductive Event
  | read (dev : UInt16) (block : UInt32)
  | write (dev : UInt16) (block : UInt32) (data : Data)

inductive Output
  | data (d : Data)
  | code (ret : Int32)

def call (s : State) : Event → Output × State
  | .read dev block =>
      let r := bufferRead disk s dev block
      (.data r.1, r.2)
  | .write _ block data =>
      let r := bufferWrite s block data
      (.code r.1, r.2)

end Buffers

/-! ## The plain store -/
section Plain
variable (disk : Disk)

/-- Where a block lies in the image. -/
def place (dev : UInt16) (block : UInt32) : ℕ :=
  (block.toNat * 2 + (disk.drives dev.toNat).start.toNat) * 512

/-- The image is read and written in place. -/
def plainCall (image : Store) : Event → Output × Store
  | .read dev block => (.data (fread image (place disk dev block)), image)
  | .write dev block data => (.code 0, writeBytes image (place disk dev block) data.1)

/-- The number of the block is one of the partition. -/
def InPartition (dev : UInt16) (block : UInt32) : Prop :=
  dev.toNat < MAX_DRIVE ∧ block.toNat * 2 + 2 ≤ (disk.drives dev.toNat).sectors.toNat

/-- The calls for blocks of partitions. -/
def Proper : Event → Prop
  | .read dev block => InPartition disk dev block
  | .write dev block _ => InPartition disk dev block

/-- A block below 2GB; no other partition's block of the same number has a buffer, and a block that
is written has one. -/
def StepOk (s : State) : Event → Prop
  | .read dev block => place disk dev block < 2147483648 ∧
      ∀ b ∈ s.buffers, b.block = block → b.dev = dev
  | .write dev block _ => place disk dev block < 2147483648 ∧
      (∀ b ∈ s.buffers, b.block = block → b.dev = dev) ∧ ∃ b ∈ s.buffers, b.block = block

/-- A run answers all calls as the plain store does and leaves the same image in the end. -/
def Refines (image : Store) (pos : ℕ) (es : List Event) : Prop :=
  outputs (call disk) ⟨image, pos, []⟩ es = outputs (plainCall disk) image es ∧
    bufferCleanup disk (run (next (call disk)) ⟨image, pos, []⟩ es) =
      run (next (plainCall disk)) image es

end Plain

end Sgos.ImageBuffer
