import Sgos.VirtualMemory

/-!
# The area list under insertion and removal

What the link writes of `kernel/mm/virtual.c` do to a well-formed area list.
-/
namespace Sgos.VirtualMemory
open LinkedChain

namespace State
variable (s : State) (p : Ptr) (v : Option Ptr) (a b c d : UInt32)

@[simp] theorem setNext_next : (s.setNext p v).next = Function.update s.next p v := by
  funext q; by_cases h : q = p <;> simp [setNext, write, next, Function.update, h]
@[simp] theorem setNext_prev : (s.setNext p v).prev = s.prev := by
  funext q; by_cases h : q = p <;> simp [setNext, write, prev, Function.update, h]
@[simp] theorem setNext_beg : (s.setNext p v).beg = s.beg := by
  funext q; by_cases h : q = p <;> simp [setNext, write, beg, Function.update, h]
@[simp] theorem setNext_fin : (s.setNext p v).fin = s.fin := by
  funext q; by_cases h : q = p <;> simp [setNext, write, fin, Function.update, h]
@[simp] theorem setNext_vm : (s.setNext p v).vm = s.vm := rfl
@[simp] theorem setPrev_next : (s.setPrev p v).next = s.next := by
  funext q; by_cases h : q = p <;> simp [setPrev, write, next, Function.update, h]
@[simp] theorem setPrev_prev : (s.setPrev p v).prev = Function.update s.prev p v := by
  funext q; by_cases h : q = p <;> simp [setPrev, write, prev, Function.update, h]
@[simp] theorem setPrev_beg : (s.setPrev p v).beg = s.beg := by
  funext q; by_cases h : q = p <;> simp [setPrev, write, beg, Function.update, h]
@[simp] theorem setPrev_fin : (s.setPrev p v).fin = s.fin := by
  funext q; by_cases h : q = p <;> simp [setPrev, write, fin, Function.update, h]
@[simp] theorem setPrev_vm : (s.setPrev p v).vm = s.vm := rfl
@[simp] theorem setArea_next : (s.setArea p a b c d).next = s.next := by
  funext q; by_cases h : q = p <;> simp [setArea, write, next, Function.update, h]
@[simp] theorem setArea_prev : (s.setArea p a b c d).prev = s.prev := by
  funext q; by_cases h : q = p <;> simp [setArea, write, prev, Function.update, h]
@[simp] theorem setArea_beg :
    (s.setArea p a b c d).beg = Function.update s.beg p a.toNat := by
  funext q; by_cases h : q = p <;> simp [setArea, write, beg, Function.update, h]
@[simp] theorem setArea_fin :
    (s.setArea p a b c d).fin = Function.update s.fin p (a.toNat + b.toNat) := by
  funext q; by_cases h : q = p <;> simp [setArea, write, fin, Function.update, h]
@[simp] theorem setArea_vm : (s.setArea p a b c d).vm = s.vm := rfl
@[simp] theorem setFirst_next : (s.setFirst v).next = s.next := rfl
@[simp] theorem setFirst_prev : (s.setFirst v).prev = s.prev := rfl
@[simp] theorem setFirst_beg : (s.setFirst v).beg = s.beg := rfl
@[simp] theorem setFirst_fin : (s.setFirst v).fin = s.fin := rfl
@[simp] theorem setFirst_vm :
    (s.setFirst v).vm = { s.vm with firstAllocation := v } := rfl
@[simp] theorem setLast_next : (s.setLast v).next = s.next := rfl
@[simp] theorem setLast_prev : (s.setLast v).prev = s.prev := rfl
@[simp] theorem setLast_beg : (s.setLast v).beg = s.beg := rfl
@[simp] theorem setLast_fin : (s.setLast v).fin = s.fin := rfl
@[simp] theorem setLast_vm : (s.setLast v).vm = { s.vm with lastAllocation := v } := rfl

/-- The two link maps and the two ends describe the list `xs`. -/
structure Links (s : State) (xs : List Ptr) : Prop where
  chain : Chain s.next s.prev s.vm.firstAllocation xs
  last_eq : s.vm.lastAllocation = xs.getLast?

/-- Nothing but links and ends differs. -/
structure SameAreas (s s' : State) : Prop where
  beg : s'.beg = s.beg
  fin : s'.fin = s.fin
  lower : s'.vm.lowerLimit = s.vm.lowerLimit
  upper : s'.vm.upperLimit = s.vm.upperLimit

end State
open State

variable {s : State} {v : Ptr}

theorem insertPreviousVma_sameAreas (s : State) (v : Ptr) (next : Option Ptr) :
    SameAreas s (insertPreviousVma s v next) := by
  cases next with
  | some n =>
    cases h : (s.setNext v (some n)).prev n <;>
      constructor <;> simp only [insertPreviousVma, h] <;> simp
  | none =>
    cases h : s.vm.lastAllocation <;>
      constructor <;> simp only [insertPreviousVma, setNext_vm, setPrev_vm, h] <;> simp

/-- In front of a node the chain is extended, whatever the pointer to its end is. -/
theorem insertPreviousVma_chain {pre ns : List Ptr} {n : Ptr}
    (h : Chain s.next s.prev s.vm.firstAllocation (pre ++ n :: ns)) (hv : v ∉ pre ++ n :: ns) :
    Chain (insertPreviousVma s v (some n)).next (insertPreviousVma s v (some n)).prev
      (insertPreviousVma s v (some n)).vm.firstAllocation (pre ++ v :: n :: ns) ∧
    (insertPreviousVma s v (some n)).vm.lastAllocation = s.vm.lastAllocation := by
  have hlink := h.link hv
  have hn : v ≠ n := fun he => hv (by simp [he])
  have hprev : s.prev n = pre.getLast? := h.prev_eq
  cases hp : pre.getLast? <;>
    exact ⟨by simpa [insertPreviousVma, hprev, hp, linkNext, linkPrev, linkEnd] using hlink,
      by simp [insertPreviousVma, hprev, hp]⟩

/-- `InsertPreviousVma` links the new node in front of the given one, or at the end. -/
theorem insertPreviousVma_links {pre post : List Ptr} (h : Links s (pre ++ post))
    (hv : v ∉ pre ++ post) : Links (insertPreviousVma s v post.head?) (pre ++ v :: post) := by
  cases post with
  | nil =>
    have hlink := h.chain.link hv
    have hpre : s.vm.lastAllocation = pre.getLast? := by simpa using h.last_eq
    cases hp : pre.getLast? <;>
      exact ⟨by simpa [insertPreviousVma, hpre, hp, linkNext, linkPrev, linkEnd] using hlink,
        by simp [insertPreviousVma, hpre, hp]⟩
  | cons n ns =>
    obtain ⟨hchain, hlast⟩ := insertPreviousVma_chain h.chain hv
    refine ⟨hchain, hlast.trans ?_⟩
    rw [h.last_eq, ← link_last pre (n :: ns) v]
    rfl

theorem insertFirstVma_sameAreas (s : State) (v : Ptr) : SameAreas s (insertFirstVma s v) := by
  cases h : s.vm.firstAllocation <;>
    constructor <;> simp only [insertFirstVma, setNext_vm, h] <;> simp

/-- The top-down placement extends the chain if the node's old `prev` field is null. -/
theorem insertFirstVma_chain {xs : List Ptr} (h : Chain s.next s.prev s.vm.firstAllocation xs)
    (hv : v ∉ xs) (hprev : s.prev v = none) :
    Chain (insertFirstVma s v).next (insertFirstVma s v).prev
      (insertFirstVma s v).vm.firstAllocation (v :: xs) := by
  have hlink := h.link_head hv
  have hself : Function.update s.prev v none = s.prev := by
    rw [← hprev, Function.update_eq_self]
  have hhead := h.head_eq
  cases hx : xs.head? <;>
    simpa [insertFirstVma, hhead, hx, linkNext, linkPrev, hself] using hlink

theorem insertFirstVma_last (s : State) (v : Ptr) :
    (insertFirstVma s v).vm.lastAllocation = s.vm.lastAllocation := by
  cases hf : s.vm.firstAllocation <;> simp [insertFirstVma, hf]

/-- It links its node only if the list has a last area already. -/
theorem insertFirstVma_links {xs : List Ptr} (h : Links s xs) (hv : v ∉ xs)
    (hne : s.vm.firstAllocation ≠ none) (hprev : s.prev v = none) :
    Links (insertFirstVma s v) (v :: xs) := by
  refine ⟨insertFirstVma_chain h.chain hv hprev, ?_⟩
  rw [insertFirstVma_last, h.last_eq]
  cases xs with
  | nil => exact absurd h.chain.head_eq hne
  | cons x xs => exact (List.getLast?_cons_cons).symm

theorem removeVma_sameAreas (s : State) (v : Ptr) : SameAreas s (removeVma s v) := by
  cases hp : s.prev v with
  | some p =>
    cases hn : (s.setNext p (s.next v)).next v <;>
      constructor <;> simp only [removeVma, hp, hn] <;> simp
  | none =>
    cases hn : s.next v <;>
      constructor <;> simp only [removeVma, hp, setFirst_next, hn] <;> simp

/-- The removal in `MmFreeVirtualMemory` unlinks the area. -/
theorem removeVma_links {xs : List Ptr} (h : Links s xs) (hv : v ∈ xs) :
    Links (removeVma s v) (xs.erase v) := by
  have hchain := h.chain.unlink hv
  have hlast := h.chain.unlink_last hv
  rw [← h.last_eq] at hlast
  cases hp : s.prev v with
  | none =>
    cases hn : s.next v <;>
      exact ⟨by simpa [removeVma, hp, hn, unlinkNext, unlinkPrev, unlinkEnd] using hchain,
        by simpa [removeVma, hp, hn, unlinkEnd] using hlast⟩
  | some p =>
    have hpv : v ≠ p := (h.chain.prev_ne hv hp).symm
    cases hn : s.next v <;>
      exact ⟨by simpa [removeVma, hp, hn, hpv, unlinkNext, unlinkPrev, unlinkEnd] using hchain,
        by simpa [removeVma, hp, hn, hpv, unlinkEnd] using hlast⟩

end Sgos.VirtualMemory
