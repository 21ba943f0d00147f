import Sgos.GuardedRun
import Sgos.Ipc

/-!
# Keyboard handlers

The table of `apps/keyboard/dispatch.cpp`, the requests that change it, and the loop that sends a
key event to the registered threads. The loop removes a thread it cannot send to from the table
it is going through.
-/
namespace Sgos.Keyboard
open Ipc GuardedRun

def MAX_HANDLER : ℕ := 16

def Keyboard_SetHandler : UInt32 := 0x1000

def KeyboardEvent_All : UInt32 := 0
def KeyboardEvent_Character : UInt32 := 1

structure EventHandler where
  threadId : UInt32
  mode : UInt32
  command : UInt32
  deriving DecidableEq, Repr

/-- The first `handlerListCount` entries of `handlerList`. -/
abbrev Table := List EventHandler

/-! ## The table -/

/-- There is no check of the capacity: `none` is a write behind the array. -/
def addHandler (hs : Table) (tid cmd mode : UInt32) : Option Table :=
  if hs.any (·.threadId = tid) then some hs
  else if hs.length < MAX_HANDLER then some (hs ++ [⟨tid, mode, cmd⟩])
  else none

/-- The last entry takes the place of entry `i`. -/
def removeAt (hs : Table) (i : ℕ) : Table :=
  match hs.getLast? with
  | some last => (if i ≠ hs.length - 1 then hs.set i last else hs).dropLast
  | none => hs

/-- The loop of `DelHandler` from entry `i` on; it goes on after a removal. -/
def delHandlerFrom (tid : UInt32) : ℕ → ℕ → Table → Table
  | 0, _, hs => hs
  | fuel + 1, i, hs =>
      match hs[i]? with
      | none => hs
      | some h => delHandlerFrom tid fuel (i + 1) (if h.threadId = tid then removeAt hs i else hs)

def delHandler (hs : Table) (tid : UInt32) : Table := delHandlerFrom tid hs.length 0 hs

/-! ## Key events -/

def sendEvent (tid cmd keycode ascii flag : UInt32) : Message where
  threadId := tid
  time := 0
  command := cmd
  arguments := #v[keycode, ascii, flag, 0, 0, 0, 0, 0, 0, 0]
  code := 0
  large := Vector.replicate 2 0

/-- A key event, and what `Api_Send` returns for each thread. -/
structure Key where
  keycode : UInt32
  ascii : UInt32
  flag : UInt32
  ret : UInt32 → Int32

namespace Key

/-- The mode of the handler matches; there are no characters for those that want only these. -/
def wants (k : Key) (h : EventHandler) : Bool :=
  !(h.mode = KeyboardEvent_Character ∧ k.ascii = 0)

def fails (k : Key) (h : EventHandler) : Bool := k.ret h.threadId < 0

def message (k : Key) (h : EventHandler) : Message :=
  sendEvent h.threadId h.command k.keycode k.ascii k.flag

end Key

/-- The loop of `DispatchKeyboardMessage` from entry `i` on: the messages that are sent, and the
table. -/
def dispatchFrom (k : Key) : ℕ → ℕ → Table → List Message × Table
  | 0, _, hs => ([], hs)
  | fuel + 1, i, hs =>
      match hs[i]? with
      | none => ([], hs)
      | some h =>
          if k.wants h then
            let r := dispatchFrom k fuel (i + 1) (if k.fails h then delHandler hs h.threadId else hs)
            (k.message h :: r.1, r.2)
          else dispatchFrom k fuel (i + 1) hs

def dispatchKeyboardMessage (k : Key) (hs : Table) : List Message × Table :=
  dispatchFrom k hs.length 0 hs

/-! ## The service -/

/-- A turn of the message loop; a keyboard interrupt is the key events that are read from the
port. -/
inductive Event
  | message (msg : Message)
  | key (k : Key)

/-- A word of a message. -/
def argument (msg : Message) (i : ℕ) : UInt32 := msg.arguments.getD i 0

/-- `parse`, without interrupts. -/
def parse (hs : Table) (msg : Message) : Option Table :=
  if msg.command = Keyboard_SetHandler then
    if argument msg 0 = 1 then addHandler hs msg.threadId (argument msg 1) (argument msg 2)
    else some (delHandler hs msg.threadId)
  else some hs

/-- The messages that are sent, and the table. -/
def turn (hs : Table) : Event → Option (List Message × Table)
  | .message msg => (parse hs msg).map fun hs => ([], hs)
  | .key k => some (dispatchKeyboardMessage k hs)

def step (s : Option Table) (e : Event) : Option Table :=
  s.bind fun hs => (turn hs e).map Prod.snd

/-! ## The law of dispatching -/

/-- At most sixteen entries, each thread in at most one. -/
structure Lawful (hs : Table) : Prop where
  length_le : hs.length ≤ MAX_HANDLER
  nodup : (hs.map EventHandler.threadId).Nodup

/-- The messages are those for the handlers whose mode matches, in some order. -/
def Delivered (hs : Table) (sent : List Message) : Event → Prop
  | .message _ => sent = []
  | .key k => sent.Perm ((hs.filter k.wants).map k.message)

/-- A turn of the service that dispatches as it has to and leaves a lawful table. -/
def Right (s : Option Table) (e : Event) : Prop :=
  ∃ hs sent hs', s = some hs ∧ turn hs e = some (sent, hs') ∧ Lawful hs' ∧ Delivered hs sent e

/-- The number of sends that fail among the first `i` entries. -/
def failures (k : Key) (hs : Table) (i : ℕ) : ℕ :=
  (hs.take i).countP fun h => k.wants h && k.fails h

/-- When the send to an entry fails, the entry that is the last one by then is the same one, or its
mode does not match. -/
def KeyOk (k : Key) (hs : Table) : Prop :=
  ∀ i h l, hs[i]? = some h → k.wants h = true → k.fails h = true →
    i + failures k hs i + 1 < hs.length → hs[hs.length - 1 - failures k hs i]? = some l →
      k.wants l = false

/-- No new thread is registered in a full table. -/
def StepOk (s : Option Table) : Event → Prop
  | .message msg =>
      msg.command = Keyboard_SetHandler → argument msg 0 = 1 →
        ∀ hs ∈ s, hs.any (·.threadId = msg.threadId) ∨ hs.length < MAX_HANDLER
  | .key k => ∀ hs ∈ s, KeyOk k hs

end Sgos.Keyboard
