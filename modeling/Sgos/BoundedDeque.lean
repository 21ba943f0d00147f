import Mathlib.Data.List.Basic

/-!
# Bounded deques

A deque of at most `cap` elements. Each element comes with a handle, by which it can be removed
from wherever it is. The list runs from the back to the front.
-/
namespace Sgos.BoundedDeque

structure Deque (η α : Type*) where
  cap : ℕ
  items : List (η × α)
  bounded : items.length ≤ cap

namespace Deque
variable {η α : Type*}

def empty (cap : ℕ) : Deque η α := ⟨cap, [], Nat.zero_le _⟩

/-- A push fails exactly on a full deque. -/
def pushFront (d : Deque η α) (h : η) (a : α) : Option (Deque η α) :=
  if hlt : d.items.length < d.cap then
    some ⟨d.cap, d.items ++ [(h, a)], by simpa using Nat.succ_le_of_lt hlt⟩
  else none

def pushBack (d : Deque η α) (h : η) (a : α) : Option (Deque η α) :=
  if hlt : d.items.length < d.cap then some ⟨d.cap, (h, a) :: d.items, hlt⟩ else none

/-- The element at the front, if there is one, and the rest. -/
def popFront (d : Deque η α) : Option α × Deque η α :=
  (d.items.getLast?.map Prod.snd,
    ⟨d.cap, d.items.dropLast, Nat.le_trans (List.dropLast_sublist _).length_le d.bounded⟩)

def popBack (d : Deque η α) : Option α × Deque η α :=
  (d.items.head?.map Prod.snd,
    ⟨d.cap, d.items.tail, Nat.le_trans (List.tail_sublist _).length_le d.bounded⟩)

def remove [DecidableEq η] (d : Deque η α) (h : η) : Deque η α :=
  ⟨d.cap, d.items.eraseP (·.1 = h), Nat.le_trans List.eraseP_sublist.length_le d.bounded⟩

/-- The search starts at the back. -/
def find (d : Deque η α) (p : α → Bool) : Option (η × α) := d.items.find? fun x => p x.2

end Deque

end Sgos.BoundedDeque
