import Sgos.LinkedChain
import Sgos.Machine
import Sgos.GuardedRun

/-!
# The block cache of the file-system service

`apps/fs/buffer.cpp`. A buffer is either on the list of its device, while somebody holds it, or on
the list of free buffers, which keeps the contents of the last blocks given back. `next` leads
from the head of the free list, where buffers are reused, to its tail.
-/
namespace Sgos.BlockCache
open LinkedChain

variable {Data : Type*}

/-- How a device is addressed in a message: the thread of its driver and its number there. -/
structure Device where
  thread : UInt32
  devID : UInt32
  deriving DecidableEq, Repr

/-- What came of a request: success, or failure with these contents left at the destination. -/
inductive Reply (Data : Type*)
  | ok
  | failed (left : Data)
  deriving DecidableEq, Repr

/-- The contents of the destination of a request that was to put `d` there. -/
def Reply.contents (d : Data) : Reply Data → Data
  | .ok => d
  | .failed left => left

def Reply.isOk : Reply Data → Bool
  | .ok => true
  | .failed _ => false

/-- The fields of all `buffer_t` blocks, the list heads, and the contents of the devices by the
first sector of a block. -/
structure State (Data : Type*) where
  next : Ptr → Option Ptr
  prev : Ptr → Option Ptr
  device : Ptr → Option Ptr
  block : Ptr → UInt32
  data : Ptr → Data
  dirty : Ptr → Bool
  reference : Ptr → UInt16
  freebufHead : Option Ptr
  freebufTail : Option Ptr
  firstBuffer : Ptr → Option Ptr
  disk : Device × UInt32 → Data

namespace State

def setNext (s : State Data) (p : Ptr) (x : Option Ptr) : State Data :=
  { s with next := Function.update s.next p x }

def setPrev (s : State Data) (p : Ptr) (x : Option Ptr) : State Data :=
  { s with prev := Function.update s.prev p x }

def setFirst (s : State Data) (dev : Ptr) (x : Option Ptr) : State Data :=
  { s with firstBuffer := Function.update s.firstBuffer dev x }

def setReference (s : State Data) (p : Ptr) (n : UInt16) : State Data :=
  { s with reference := Function.update s.reference p n }

def setDevice (s : State Data) (p : Ptr) (dev : Option Ptr) : State Data :=
  { s with device := Function.update s.device p dev }

end State

def BLOCK_TO_SECTOR (n : UInt32) : UInt32 := n * 8

/-- Take the first free buffer. -/
def freebufGet (s : State Data) : Option Ptr × State Data :=
  match s.freebufHead with
  | none => (none, s)
  | some buf =>
    let s := match s.next buf with
      | some n => s.setPrev n none
      | none => { s with freebufTail := none }
    (some buf, { s with freebufHead := s.next buf })

/-- Put a buffer behind the last free buffer. -/
def freebufPut (s : State Data) (buf : Ptr) : State Data :=
  let s := match s.freebufTail with
    | some t => s.setNext t (some buf)
    | none => s
  let s := s.setPrev buf s.freebufTail
  let s := s.setNext buf none
  let s := { s with freebufTail := some buf }
  match s.freebufHead with
  | none => { s with freebufHead := some buf }
  | some _ => s

/-- Take a buffer out of the free list, wherever it is. -/
def freebufRemove (s : State Data) (buf : Ptr) : State Data :=
  let s := match s.next buf with
    | some n => s.setPrev n (s.prev buf)
    | none => { s with freebufTail := s.prev buf }
  match s.prev buf with
  | some p => s.setNext p (s.next buf)
  | none => { s with freebufHead := s.next buf }

/-! ## Requests to the devices

`devs` tells how the devices are addressed. -/
section Requests
variable (devs : Ptr → Device)

/-- The contents that the requests for a buffer of the device `dev` are about. -/
def cell (s : State Data) (dev buf : Ptr) : Device × UInt32 :=
  (devs dev, BLOCK_TO_SECTOR (s.block buf))

def readBlock (s : State Data) (dev buf : Ptr) (reply : Reply Data) : State Data :=
  { s with data := Function.update s.data buf (reply.contents (s.disk (cell devs s dev buf))) }

/-- There is no result for a buffer without a device. -/
def writeBlock (s : State Data) (buf : Ptr) (reply : Reply Data) : Option (State Data) :=
  (s.device buf).map fun dev =>
    { s with disk := Function.update s.disk (cell devs s dev buf) (reply.contents (s.data buf)) }

/-- Put a buffer in front of the list of a device and hold it. -/
def attach (s : State Data) (dev buf : Ptr) : State Data :=
  let s := match s.firstBuffer dev with
    | some first => s.setPrev first (some buf)
    | none => s
  let s := s.setNext buf (s.firstBuffer dev)
  let s := s.setPrev buf none
  let s := s.setFirst dev (some buf)
  s.setReference buf (s.reference buf + 1)

/-- The buffer of the device that has the block. -/
def findHeld (s : State Data) (dev : Ptr) (block : UInt32) : Option Ptr :=
  search s.next (fun p => s.block p = block) addressSpace (s.firstBuffer dev)

/-- The free buffer that still has the block, the most recent first. -/
def findFree (s : State Data) (dev : Ptr) (block : UInt32) : Option Ptr :=
  search s.prev (fun p => s.device p = some dev ∧ s.block p = block) addressSpace s.freebufTail

/-- `write` and `read` are the replies to the requests, where they are made. The result is `none`
when a write is issued for a buffer without a device. -/
def bufferGet (s : State Data) (dev : Ptr) (block : UInt32) (write read : Reply Data) :
    Option (Option Ptr × State Data) :=
  match findHeld s dev block with
  | some buf => some (some buf, s.setReference buf (s.reference buf + 1))
  | none =>
    match findFree s dev block with
    | some buf => some (some buf, attach (freebufRemove s buf) dev buf)
    | none =>
      match freebufGet s with
      | (none, s) => some (none, s)
      | (some buf, s) => do
        let s ← if s.dirty buf then writeBlock devs s buf write else some s
        let s := { s with block := Function.update s.block buf block }
        let s := s.setDevice buf (some dev)
        let s := s.setReference buf 0
        let s := { s with dirty := Function.update s.dirty buf false }
        let s := readBlock devs s dev buf read
        match read with
        | .failed _ => some (none, freebufPut s buf)
        | .ok => some (some buf, attach s dev buf)

/-- `CHAIN_DELETE( buf, dev->firstBuffer )`; there is no result for the head of no device. -/
def chainDelete (s : State Data) (buf : Ptr) : Option (State Data) := do
  let s ← match s.prev buf with
    | some p => some (s.setNext p (s.next buf))
    | none => (s.device buf).map fun dev => s.setFirst dev (s.next buf)
  match s.next buf with
  | some n => some (s.setPrev n (s.prev buf))
  | none => some s

def bufferPut (s : State Data) (buf : Ptr) : Option (State Data) :=
  let s := s.setReference buf (s.reference buf - 1)
  if s.reference buf = 0 then (chainDelete s buf).map fun s => freebufPut s buf else some s

/-- One iteration of `buffer_sync`. -/
def syncBuffer (reply : Ptr → Reply Data) (s : State Data) (buf : Ptr) : State Data :=
  match s.device buf with
  | none => s
  | some _ =>
    let s := if s.dirty buf then (writeBlock devs s buf (reply buf)).getD s else s
    s.setDevice buf none

/-- Forget what the free buffers contain, after writing what is dirty. -/
def bufferSync (s : State Data) (reply : Ptr → Reply Data) : State Data :=
  (walk s.next (fun _ _ => false) (syncBuffer devs reply) addressSpace s s.freebufHead).1

end Requests

/-- The state before `buffer_init`: the blocks `buf` are cleared, no device has buffers. -/
def State.cleared (data : Ptr → Data) (disk : Device × UInt32 → Data) : State Data :=
  ⟨fun _ => none, fun _ => none, fun _ => none, fun _ => 0, data, fun _ => false, fun _ => 0, none,
    none, fun _ => none, disk⟩

/-- `bufs` are the blocks that `malloc` returned. -/
def bufferInit (data : Ptr → Data) (disk : Device × UInt32 → Data) (bufs : List Ptr) : State Data :=
  bufs.foldl freebufPut (State.cleared data disk)

/-! ## The cache and those who use it -/

/-- A buffer that was got for a block of a device, and not yet put. -/
structure Holder where
  buf : Ptr
  dev : Ptr
  block : UInt32
  deriving DecidableEq, Repr

/-- The cache, its holders, and what holders stored last for each block. -/
structure System (Data : Type*) where
  mem : State Data
  held : List Holder
  latest : Ptr × UInt32 → Option Data

inductive Op (Data : Type*)
  | get (dev : Ptr) (block : UInt32) (write read : Reply Data)
  | store (h : Holder) (d : Data)
  | put (h : Holder)
  | sync (reply : Ptr → Reply Data)

/-- Only a holder changes a buffer or gives it back. -/
def Proper (s : System Data) : Op Data → Prop
  | .store h _ | .put h => h ∈ s.held
  | _ => True

instance (s : System Data) : ∀ op : Op Data, Decidable (Proper s op)
  | .store h _ | .put h => inferInstanceAs (Decidable (h ∈ s.held))
  | .get _ _ _ _ | .sync _ => .isTrue trivial

section Step
variable (devs : Ptr → Device)

def step (s : System Data) : Op Data → System Data
  | .get dev block write read =>
    match bufferGet devs s.mem dev block write read with
    | none => s
    | some (none, mem) => { s with mem }
    | some (some buf, mem) => { s with mem, held := ⟨buf, dev, block⟩ :: s.held }
  | .store h d =>
    { s with
      mem := { s.mem with
        data := Function.update s.mem.data h.buf d
        dirty := Function.update s.mem.dirty h.buf true }
      latest := Function.update s.latest (h.dev, h.block) (some d) }
  | .put h =>
    match bufferPut s.mem h.buf with
    | none => s
    | some mem => { s with mem, held := s.held.erase h }
  | .sync reply => { s with mem := bufferSync devs s.mem reply }

/-- What the cache owes to the one who gets a buffer: no write is issued for a buffer without a
device, and the buffer has what was last stored for the block, or else what the device has. -/
def Law (s : System Data) : Op Data → Prop
  | .get dev block write read => ∃ result mem,
      bufferGet devs s.mem dev block write read = some (result, mem) ∧
      ∀ buf, result = some buf →
        mem.data buf = (s.latest (dev, block)).getD (mem.disk (devs dev, BLOCK_TO_SECTOR block))
  | _ => True

instance [DecidableEq Data] (s : System Data) : ∀ op : Op Data, Decidable (Law devs s op)
  | .get dev block write read =>
    match h : bufferGet devs s.mem dev block write read with
    | none => .isFalse fun ⟨_, _, he, _⟩ => nomatch h.symm.trans he
    | some (none, mem) => .isTrue ⟨none, mem, h, fun _ he => nomatch he⟩
    | some (some buf, mem) =>
      decidable_of_iff (mem.data buf =
          (s.latest (dev, block)).getD (mem.disk (devs dev, BLOCK_TO_SECTOR block)))
        ⟨fun hd => ⟨some buf, mem, h, fun _ he => Option.some.inj he ▸ hd⟩,
          fun ⟨_, _, he, hd⟩ => by
            obtain ⟨rfl, rfl⟩ := Prod.mk.inj (Option.some.inj (h.symm.trans he))
            exact hd buf rfl⟩
  | .store _ _ | .put _ | .sync _ => .isTrue trivial

/-- A get reaches no defect: the sector number does not wrap, nor does the count of holders, and
the write of a reused dirty buffer and the read succeed. -/
def getOk (m : State Data) (dev : Ptr) (block : UInt32) (write read : Reply Data) : Bool :=
  block < 536870912 &&
    match findHeld m dev block, findFree m dev block, m.freebufHead with
    | some buf, _, _ => m.reference buf != 65535
    | none, none, some buf => (!m.dirty buf || write.isOk) && read.isOk
    | _, _, _ => true

/-- The operation reaches no defect; in particular `buffer_sync` finds all free buffers clean. -/
def StepOk (s : System Data) : Op Data → Prop
  | .get dev block write read => getOk s.mem dev block write read
  | .sync _ => search s.mem.next s.mem.dirty addressSpace s.mem.freebufHead = none
  | _ => True

instance (s : System Data) : ∀ op : Op Data, Decidable (StepOk s op)
  | .get dev block write read =>
    inferInstanceAs (Decidable (getOk s.mem dev block write read = true))
  | .sync _ => inferInstanceAs (Decidable (search _ _ _ _ = none))
  | .store _ _ | .put _ => .isTrue trivial

end Step

end Sgos.BlockCache
