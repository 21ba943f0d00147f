import Sgos.LinkedChain
import Sgos.Machine
import Mathlib.Tactic.CasesM

/-!
# Queues of the kernel library

The linked queues of `kernel/lib/kqueue.c`. New elements enter at the front and the oldest is at
the back; `next` leads from the back to the front. `cur_num` counts the elements, `max_num` bounds
them. The nodes are blocks of the kernel heap.
-/
namespace Sgos.Queue
open LinkedChain

structure KQueueNode where
  prev : Option Ptr
  next : Option Ptr
  v : Ptr
  deriving DecidableEq, Repr

structure KQueue where
  curNum : Int32
  maxNum : Int32
  front : Option Ptr
  back : Option Ptr
  deriving DecidableEq, Repr

/-- One queue, the heap read as queue nodes, and the live blocks of the heap. -/
structure State where
  node : Ptr → KQueueNode
  queue : KQueue
  live : List Ptr

namespace State

def next (s : State) (p : Ptr) : Option Ptr := (s.node p).next
def prev (s : State) (p : Ptr) : Option Ptr := (s.node p).prev
def value (s : State) (p : Ptr) : Ptr := (s.node p).v

def modify (s : State) (p : Ptr) (f : KQueueNode → KQueueNode) : State :=
  { s with node := Function.update s.node p (f (s.node p)) }

def setNext (s : State) (p : Ptr) (x : Option Ptr) : State := s.modify p ({ · with next := x })
def setPrev (s : State) (p : Ptr) (x : Option Ptr) : State := s.modify p ({ · with prev := x })
def setValue (s : State) (p v : Ptr) : State := s.modify p ({ · with v := v })
def setFront (s : State) (x : Option Ptr) : State := { s with queue := { s.queue with front := x } }
def setBack (s : State) (x : Option Ptr) : State := { s with queue := { s.queue with back := x } }
def setCurNum (s : State) (n : Int32) : State := { s with queue := { s.queue with curNum := n } }

def acquire (s : State) (p : Ptr) : State := { s with live := p :: s.live }

/-- `MmFreeKernelMemory` on a node leaves its contents. -/
def release (s : State) (p : Ptr) : State := { s with live := s.live.erase p }

end State

/-- A size of 0 asks for a queue that is as good as unbounded. -/
def rtlCreateQueue (size : Int32) : KQueue :=
  ⟨0, if size = 0 then 0x70000000 else size, none, none⟩

/-- Link a filled node in at the front. -/
def linkFront (s : State) (nod : Ptr) : State :=
  let s := match s.queue.front, s.queue.back with
    | some f, _ => s.setNext f (some nod)
    | none, none => s.setBack (some nod)
    | none, some _ => s
  let s := s.setPrev nod s.queue.front
  let s := s.setNext nod none
  s.setFront (some nod)

/-- Link a filled node in at the back. -/
def linkBack (s : State) (nod : Ptr) : State :=
  let s := match s.queue.back, s.queue.front with
    | some b, _ => s.setPrev b (some nod)
    | none, none => s.setFront (some nod)
    | none, some _ => s
  let s := s.setPrev nod none
  let s := s.setNext nod s.queue.back
  s.setBack (some nod)

/-- The common part of the two pushes: both refuse a full queue and a missing node. -/
def pushQueue (link : State → Ptr → State) (s : State) (block : Option Ptr) (data : Ptr) :
    Int32 × State :=
  if s.queue.curNum ≥ s.queue.maxNum then (-ERR_NOMEM, s)
  else
    match mmAllocateKernelMemory s.live block with
    | none => (-ERR_NOMEM, s)
    | some nod =>
        let s := s.acquire nod
        let s := s.setValue nod data
        let s := s.setCurNum (s.queue.curNum + 1)
        (0, link s nod)

def rtlPushFrontQueue : State → Option Ptr → Ptr → Int32 × State := pushQueue linkFront

def rtlPushBackQueue : State → Option Ptr → Ptr → Int32 × State := pushQueue linkBack

/-- `cur_num` is decremented also when the queue is empty. -/
def rtlPopBackQueue (s : State) : Option Ptr × State :=
  match s.queue.back with
  | none => (none, s.setCurNum (s.queue.curNum - 1))
  | some b =>
      let p := s.value b
      let s := match s.next b with
        | some n => s.setPrev n none
        | none => s
      let s := s.setBack (s.next b)
      let s := match s.queue.back with
        | some _ => s
        | none => s.setFront none
      let s := s.setCurNum (s.queue.curNum - 1)
      (some p, s.release b)

/-- The counter is tested first; an empty queue is left as it is. -/
def rtlPopFrontQueue (s : State) : Option Ptr × State :=
  if s.queue.curNum = 0 then (none, s)
  else
    match s.queue.front with
    | none => (none, s.setCurNum (s.queue.curNum - 1))
    | some f =>
        let p := s.value f
        let s := match s.prev f with
          | some q => s.setNext q none
          | none => s
        let s := s.setFront (s.prev f)
        let s := match s.queue.front with
          | some _ => s
          | none => s.setBack none
        let s := s.setCurNum (s.queue.curNum - 1)
        (some p, s.release f)

def rtlRemoveQueueElement (s : State) (nod : Ptr) : State :=
  let s := match s.prev nod with
    | some p => s.setNext p (s.next nod)
    | none => s.setBack (s.next nod)
  let s := match s.next nod with
    | some n => s.setPrev n (s.prev nod)
    | none => s.setFront (s.prev nod)
  let s := s.setCurNum (s.queue.curNum - 1)
  s.release nod

/-- The first node from the back whose value satisfies the searcher. -/
def rtlSearchQueue (s : State) (searcher : Ptr → Bool) : Option Ptr :=
  search s.next (fun nod => searcher (s.value nod)) addressSpace s.queue.back

/-- The search for an element. -/
def rtlQuickSearchQueue (s : State) (v : Ptr) : Option Ptr := rtlSearchQueue s (· = v)

/-- What both searches return, and what they store in `*ret_nod`. -/
def searchResult (s : State) (nod : Option Ptr) : Option Ptr × Option Ptr := (nod.map s.value, nod)

end Sgos.Queue
