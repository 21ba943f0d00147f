import Mathlib.Data.Finset.Card
import Mathlib.Data.List.Nodup

/-!
# The machine under the kernel

Pointers and sizes are 32-bit words; a null pointer is `none`. A loop of the source that follows
a chain of pointers is given fuel for every pointer there is.
-/
namespace Sgos

abbrev Ptr := UInt32

def PAGE_SIZE : UInt32 := 4096

def ERR_NOMEM : Int32 := 1
def ERR_WRONGARG : Int32 := 3
def ERR_NONE : Int32 := 4
def ERR_INVALID : Int32 := 10
def ERR_TIMEOUT : Int32 := 13

/-- The number of 32-bit words. -/
def addressSpace : ℕ := 4294967296

/-- `MmAllocateKernelMemory` as its callers rely on it: null, or a block that is not live. The
block is the allocator's choice. -/
def mmAllocateKernelMemory (live : List Ptr) (block : Option Ptr) : Option Ptr :=
  block.filter (· ∉ live)

theorem not_mem_of_allocated {live : List Ptr} {block : Option Ptr} {p : Ptr}
    (h : mmAllocateKernelMemory live block = some p) : p ∉ live := by
  obtain ⟨_, hlive⟩ := Option.filter_eq_some_iff.mp h
  simpa using hlive

theorem nodup_length_le {xs : List Ptr} (h : xs.Nodup) : xs.length ≤ addressSpace := by
  have hmap : (xs.map UInt32.toNat).Nodup := h.map (fun _ _ => UInt32.toNat_inj.mp)
  have hsub : (xs.map UInt32.toNat).toFinset ⊆ Finset.range addressSpace := by
    intro n hn
    obtain ⟨x, _, rfl⟩ := List.mem_map.mp (List.mem_toFinset.mp hn)
    exact Finset.mem_range.mpr x.toNat_lt
  have hcard := Finset.card_le_card hsub
  rwa [List.toFinset_card_of_nodup hmap, List.length_map, Finset.card_range] at hcard

theorem toNat_add_of_lt {a b : UInt32} (h : a.toNat + b.toNat < addressSpace) :
    (a + b).toNat = a.toNat + b.toNat := by
  rw [UInt32.toNat_add]
  exact Nat.mod_eq_of_lt h

theorem toNat_mul_of_lt {a b : UInt32} (h : a.toNat * b.toNat < addressSpace) :
    (a * b).toNat = a.toNat * b.toNat := by
  rw [UInt32.toNat_mul]
  exact Nat.mod_eq_of_lt h

theorem toNat_sub_of_le {a b : UInt32} (h : b.toNat ≤ a.toNat) :
    (a - b).toNat = a.toNat - b.toNat :=
  UInt32.toNat_sub_of_le _ _ (UInt32.le_iff_toNat_le.mpr h)

end Sgos
