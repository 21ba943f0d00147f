import Sgos.SpacePages
import Sgos.UserQuota

/-!
# Areas of whole pages

The areas of a user space begin and end at page boundaries, whichever placement has chosen their
addresses. So the pages of a new area are in no other, and those of an area that is given back are
in none that is left.
-/
namespace Sgos.SpaceAreas
open LinkedChain VirtualMemory
open VirtualMemory.State (SameAreas)
open Paging (Aligned UserPage KERNEL_BASE)
open MemoryRanges (nth toNat_count)
open RangePages (UserRange firstPages)
open UserMemory (Supply allocateArea allocateArea_none allocateArea_some not_refused)

/-- Areas that are apart, begin and end at page boundaries, and lie below the kernel. -/
structure PageAreas (s : VirtualMemory.State) (xs : List Ptr) : Prop where
  list : AreaList s xs
  lower : s.vm.lowerLimit.toNat % 4096 = 0
  upper : s.vm.upperLimit.toNat % 4096 = 0
  user : s.vm.upperLimit.toNat ≤ KERNEL_BASE.toNat
  beg : ∀ x ∈ xs, s.beg x % 4096 = 0
  fin : ∀ x ∈ xs, s.fin x % 4096 = 0

/-- The areas of a space are of whole pages, and their nodes are live blocks. -/
def UserAreas (m : Memory) : Prop := ∃ xs, PageAreas m.state xs ∧ ∀ x ∈ xs, x ∈ m.live

/-- The pages of the recorded areas. -/
def covered (m : Memory) : Set UInt32 :=
  {v | UserPage v ∧ ∃ x, Recorded m.state x ∧ Contains m.state x v}

/-- The address is where an area begins, or in none. -/
def AtStart (m : Memory) (p : UInt32) : Prop :=
  ∀ x, mmGetVmaByAddress m.state p = some x → m.state.beg x = p.toNat

variable {s : VirtualMemory.State} {xs : List Ptr} {buf : Ptr} {addr siz attr flag : UInt32}
  {m : Memory} {p : UInt32} {count : ℕ}

/-! ## Alignment -/

/-- A property that the steps of a loop keep holds where it ends. -/
lemma walkList_keeps {σ : Type*} (q : σ → Prop) {stop : σ → Ptr → Bool} {update : σ → Ptr → σ}
    (hupdate : ∀ a, ∀ x ∈ xs, q (update a x)) {a : σ} (ha : q a) :
    q (walkList stop update a xs).1 := by
  induction xs generalizing a with
  | nil => exact ha
  | cons x xs ih =>
    rw [walkList]
    split_ifs
    · exact ha
    · exact ih (fun b y hy => hupdate b y (List.mem_cons_of_mem x hy))
        (hupdate a x List.mem_cons_self)

lemma sub_aligned {a b : UInt32} (ha : a.toNat % 4096 = 0) (hb : b.toNat % 4096 = 0) :
    (a - b).toNat % 4096 = 0 := by
  have hlt := b.toNat_lt
  rw [UInt32.toNat_sub]
  omega

/-- Each placement ends at a page boundary. -/
lemma PageAreas.candidate_aligned (h : PageAreas s xs) (hsiz : siz.toNat % 4096 = 0)
    (haddr : Aligned addr) : (candidate s addr siz flag).toNat % 4096 = 0 := by
  have hlength := h.list.length_le
  rw [candidate]
  split_ifs with hrandom hhigh
  · rw [highSearch, h.list.links.last_eq, ← List.head?_reverse,
      walk_eq_walkList h.list.links.chain.linked.reverse (by simpa using hlength)]
    apply walkList_keeps fun a : UInt32 => a.toNat % 4096 = 0
    · intro a x hx
      exact sub_aligned (h.beg x (List.mem_reverse.mp hx)) hsiz
    · exact sub_aligned h.upper hsiz
  · rw [lowSearch, h.list.links.chain.head_eq,
      walk_eq_walkList h.list.links.chain.linked hlength]
    apply walkList_keeps fun a : UInt32 => a.toNat % 4096 = 0
    · intro a x hx
      rw [h.list.toNat_end hx]
      exact h.fin x hx
    · exact h.lower
  · exact haddr

/-! ## A new area -/

/-- An accepted placement takes the candidate address and leaves the other areas. -/
lemma allocateVma_some {r : UInt32 × VirtualMemory.State}
    (hr : allocateVma s buf addr siz attr flag = some r) :
    (0 < siz.toNat ∧ siz.toNat % 4096 = 0) ∧ r.1 = candidate s addr siz flag ∧
      ∃ s', SameAreas s s' ∧ r.2 = s'.setArea buf r.1 siz attr flag := by
  obtain ⟨hsmall, hsiz⟩ := not_or.mp (not_refused hr).1
  rw [allocateVma] at hr
  split_ifs at hr
  obtain ⟨r', hp, rfl⟩ := Option.map_eq_some_iff.mp hr
  obtain ⟨-, haddr, hplace⟩ := placeVma_some hp
  refine ⟨⟨?_, ?_⟩, haddr, r'.2, ?_, rfl⟩
  · rw [UInt32.lt_iff_toNat_lt, not_lt] at hsmall
    exact Nat.lt_of_lt_of_le (by decide) hsmall
  · have hmod := congrArg UInt32.toNat (not_not.mp hsiz)
    rwa [UInt32.toNat_mod] at hmod
  · rcases hplace with ⟨-, hs⟩ | ⟨-, hs⟩
    · rw [hs]
      exact insertFirstVma_sameAreas s buf
    · rw [hs]
      exact insertPreviousVma_sameAreas s buf _

/-- The area list of `r` is that of `s` and the new area. -/
structure Grown (s : VirtualMemory.State) (xs : List Ptr) (buf : Ptr) (siz : UInt32)
    (r : UInt32 × VirtualMemory.State) (ys : List Ptr) : Prop where
  areas : PageAreas r.2 ys
  mem : ∀ x, x ∈ ys ↔ x = buf ∨ x ∈ xs
  beg : r.2.beg = Function.update s.beg buf r.1.toNat
  fin : r.2.fin = Function.update s.fin buf (r.1.toNat + siz.toNat)

lemma PageAreas.allocate (h : PageAreas s xs) (hbuf : buf ∉ xs)
    (hok : AllocateOk s buf addr siz flag) (haddr : Aligned addr)
    {r : UInt32 × VirtualMemory.State} (hr : allocateVma s buf addr siz attr flag = some r) :
    ∃ ys, Grown s xs buf siz r ys := by
  obtain ⟨pre, post, rfl, hlist⟩ := allocateVma_placed h.list hbuf hok hr
  obtain ⟨⟨-, hsiz⟩, hcandidate, s', hsame, hs⟩ := allocateVma_some hr
  have haligned : r.1.toNat % 4096 = 0 := by
    rw [hcandidate]
    exact h.candidate_aligned hsiz haddr
  have hbeg : r.2.beg = Function.update s.beg buf r.1.toNat := by
    rw [hs, State.setArea_beg, hsame.beg]
  have hfin : r.2.fin = Function.update s.fin buf (r.1.toNat + siz.toNat) := by
    rw [hs, State.setArea_fin, hsame.fin]
  have hmem : ∀ x, x ∈ pre ++ buf :: post ↔ x = buf ∨ x ∈ pre ++ post := fun x => by
    rw [List.perm_middle.mem_iff, List.mem_cons]
  have hvm : r.2.vm.lowerLimit = s.vm.lowerLimit ∧ r.2.vm.upperLimit = s.vm.upperLimit := by
    rw [hs]
    exact ⟨hsame.lower, hsame.upper⟩
  refine ⟨pre ++ buf :: post, ⟨hlist, ?_, ?_, ?_, fun x hx => ?_, fun x hx => ?_⟩, hmem, hbeg, hfin⟩
  · rw [hvm.1]
    exact h.lower
  · rw [hvm.2]
    exact h.upper
  · rw [hvm.2]
    exact h.user
  · rw [hbeg, Function.update_apply]
    split_ifs with hx'
    · exact haligned
    · exact h.beg x (((hmem x).mp hx).resolve_left hx')
  · rw [hfin, Function.update_apply]
    split_ifs with hx'
    · omega
    · exact h.fin x (((hmem x).mp hx).resolve_left hx')

/-- The old contents of a block outside the list do not matter. -/
lemma PageAreas.write (h : PageAreas s xs) (hbuf : buf ∉ xs) (k : KVirtualMemoryAllocation) :
    PageAreas (s.write buf k) xs := by
  have heap : ∀ x ∈ xs, (s.write buf k).heap x = s.heap x := fun x hx =>
    Function.update_of_ne (ne_of_mem_of_not_mem hx hbuf) _ _
  refine ⟨h.list.write hbuf k, h.lower, h.upper, h.user, fun x hx => ?_, fun x hx => ?_⟩
  · rw [State.beg, heap x hx]
    exact h.beg x hx
  · rw [State.fin, heap x hx]
    exact h.fin x hx

/-! ## The pages of an area -/

/-- The pages of a range are the page addresses between its ends. -/
lemma mem_firstPages (hr : UserRange addr count) {v : UInt32} (hv : Aligned v) :
    v ∈ firstPages addr count ↔
      addr.toNat ≤ v.toNat ∧ v.toNat < addr.toNat + count * 4096 := by
  have haddr : addr.toNat % 4096 = 0 := hr.aligned
  have haligned : v.toNat % 4096 = 0 := hv
  constructor
  · rintro ⟨k, hk, rfl⟩
    rw [hr.toNat_nth hk]
    omega
  · rintro ⟨hle, hlt⟩
    have hk : (v.toNat - addr.toNat) / 4096 < count := by omega
    refine ⟨(v.toNat - addr.toNat) / 4096, hk, UInt32.toNat_inj.mp ?_⟩
    rw [hr.toNat_nth hk]
    omega

lemma PageAreas.mem_covered (h : PageAreas m.state xs) {v : UInt32} :
    v ∈ covered m ↔ UserPage v ∧ ∃ x ∈ xs, Contains m.state x v := by
  constructor
  · rintro ⟨hv, x, hx, hin⟩
    exact ⟨hv, x, h.list.recorded_iff.mp hx, hin⟩
  · rintro ⟨hv, x, hx, hin⟩
    exact ⟨hv, x, h.list.recorded_iff.mpr hx, hin⟩

/-- A lookup finds an area that contains the address. -/
lemma PageAreas.found (h : PageAreas s xs) {x : Ptr} (hx : mmGetVmaByAddress s addr = some x) :
    x ∈ xs ∧ Contains s x addr := by
  have hlinking : Linking s xs := ⟨h.list.links, fun y hy => h.list.fin_lt hy⟩
  exact hlinking.found hx

/-- The range of an area. -/
lemma PageAreas.range (h : PageAreas s xs) {x : Ptr} (hx : x ∈ xs) (hbeg : s.beg x = addr.toNat)
    (hfin : s.fin x = addr.toNat + siz.toNat) : UserRange addr (siz.toNat / 4096) := by
  have haligned := h.beg x hx
  have hupper := h.list.upper x hx
  have huser := h.user
  refine ⟨?_, by omega⟩
  rw [Aligned, ← hbeg]
  exact haligned

/-- An allocated area has pages of its own, and no other area loses any. -/
structure Added (m m' : Memory) (addr siz : UInt32) : Prop where
  areas : UserAreas m'
  sub : covered m ⊆ covered m'
  range : UserRange addr (siz.toNat / 4096)
  new : firstPages addr (siz.toNat / 4096) ⊆ covered m'
  apart : ∀ k < siz.toNat / 4096, nth addr k ∉ covered m
  start : AtStart m' addr

lemma Grown.added {r : UInt32 × VirtualMemory.State} {ys : List Ptr} {live : List Ptr}
    (h : PageAreas m.state xs) (hlive : ∀ x ∈ xs, x ∈ live) (hbuf : buf ∉ xs)
    (hsiz : 0 < siz.toNat ∧ siz.toNat % 4096 = 0) (hg : Grown m.state xs buf siz r ys) :
    Added m ⟨r.2, buf :: live⟩ r.1 siz := by
  have hself : r.2.beg buf = r.1.toNat ∧ r.2.fin buf = r.1.toNat + siz.toNat := by
    rw [hg.beg, hg.fin, Function.update_self, Function.update_self]
    exact ⟨rfl, rfl⟩
  have hother : ∀ x ∈ xs, r.2.beg x = m.state.beg x ∧ r.2.fin x = m.state.fin x := by
    intro x hx
    have hne := ne_of_mem_of_not_mem hx hbuf
    rw [hg.beg, hg.fin, Function.update_of_ne hne, Function.update_of_ne hne]
    exact ⟨rfl, rfl⟩
  have hmem : buf ∈ ys := (hg.mem buf).mpr (.inl rfl)
  have hrange := hg.areas.range hmem hself.1 hself.2
  have hnew : PageAreas (Memory.state ⟨r.2, buf :: live⟩) ys := hg.areas
  refine ⟨⟨ys, hnew, fun x hx => ?_⟩, fun v hv => ?_, hrange, fun v hv => ?_, fun k hk hin => ?_,
    fun x hx => ?_⟩
  · rcases (hg.mem x).mp hx with rfl | hx
    · exact List.mem_cons_self
    · exact List.mem_cons_of_mem _ (hlive x hx)
  · obtain ⟨hpage, x, hx, hin⟩ := h.mem_covered.mp hv
    refine hnew.mem_covered.mpr ⟨hpage, x, (hg.mem x).mpr (.inr hx), ?_⟩
    rw [Contains, (hother x hx).1, (hother x hx).2]
    exact hin
  · obtain ⟨k, hk, rfl⟩ := hv
    have hpage := hrange.page hk
    refine hnew.mem_covered.mpr ⟨hpage, buf, hmem, ?_⟩
    rw [Contains, hself.1, hself.2]
    have hnth := hrange.toNat_nth hk
    omega
  · obtain ⟨-, x, hx, hin⟩ := h.mem_covered.mp hin
    have hne := ne_of_mem_of_not_mem hx hbuf
    have hdisjoint := hg.areas.list.apart.disjoint ((hg.mem x).mpr (.inr hx)) hmem hne
    rw [(hother x hx).1, (hother x hx).2, hself.1, hself.2] at hdisjoint
    have hnth := hrange.toNat_nth hk
    obtain ⟨hle, hlt⟩ := hin
    omega
  · obtain ⟨hx, hle, hlt⟩ := hg.areas.found hx
    by_cases hne : x = buf
    · rw [hne]
      exact hself.1
    · have hdisjoint := hg.areas.list.apart.disjoint hx hmem hne
      rw [hself.1, hself.2] at hdisjoint
      omega

/-! ## The calls -/

/-- An allocation fails and loses no area, or adds one. -/
lemma allocateArea_added (h : UserAreas m) {supply : Supply}
    (hok : StepOk m (.allocate supply.block supply.stale addr siz attr flag))
    (haddr : Aligned addr) :
    let r := allocateArea m supply addr siz attr flag
    (r.1 = 0 ∧ UserAreas r.2 ∧ covered m ⊆ covered r.2) ∨ Added m r.2 r.1 siz := by
  obtain ⟨xs, hxs, hlive⟩ := h
  cases hb : mmAllocateKernelMemory m.live supply.block with
  | none =>
    rw [allocateArea_none hb]
    exact .inl ⟨rfl, ⟨xs, hxs, hlive⟩, subset_rfl⟩
  | some buf =>
    have hbuf : buf ∉ xs := fun hm => not_mem_of_allocated hb (hlive buf hm)
    have hstale : PageAreas (Memory.state ⟨m.withBlock buf supply.stale, m.live⟩) xs :=
      hxs.write hbuf supply.stale
    have hsub : covered m ⊆ covered ⟨m.withBlock buf supply.stale, m.live⟩ := by
      intro v hv
      obtain ⟨hpage, x, hx, hin⟩ := hxs.mem_covered.mp hv
      refine hstale.mem_covered.mpr ⟨hpage, x, hx, ?_⟩
      have heap : (m.withBlock buf supply.stale).heap x = m.state.heap x :=
        Function.update_of_ne (ne_of_mem_of_not_mem hx hbuf) _ _
      rw [Contains, State.beg, State.fin, heap]
      exact hin
    rw [allocateArea_some hb]
    cases hr : allocateVma (m.withBlock buf supply.stale) buf addr siz attr flag with
    | none => exact .inl ⟨rfl, ⟨xs, hstale, hlive⟩, hsub⟩
    | some r =>
      obtain ⟨ys, hg⟩ := hstale.allocate hbuf (hok buf hb) haddr hr
      have hadded := hg.added hstale hlive hbuf (allocateVma_some hr).1
      exact .inr ⟨hadded.areas, hsub.trans hadded.sub, hadded.range, hadded.new,
        fun k hk hin => hadded.apart k hk (hsub hin), hadded.start⟩

/-- A release takes an area with its pages away, or changes nothing. -/
lemma free_removed (h : UserAreas m) (hstart : AtStart m p) :
    let siz := (mmFreeVirtualMemory m.state p).1
    let m' := VirtualMemory.step m (.free p)
    UserAreas m' ∧ ((siz = 0 ∧ m' = m) ∨ (UserRange p (siz.toNat / 4096) ∧
      ∀ v ∈ covered m, v ∉ firstPages p (siz.toNat / 4096) → v ∈ covered m')) := by
  obtain ⟨xs, hxs, hlive⟩ := h
  simp only [VirtualMemory.step, mmFreeVirtualMemory]
  cases hy : mmGetVmaByAddress m.state p with
  | none => exact ⟨⟨xs, hxs, hlive⟩, .inl ⟨rfl, rfl⟩⟩
  | some y =>
    have hmem := mmGetVmaByAddress_mem hxs.list hy
    have hbeg := hstart y hy
    have hfin : m.state.fin y = p.toNat + (m.state.heap y).virtualSize.toNat := by
      rw [← hbeg]
      rfl
    have hrange := hxs.range hmem hbeg hfin
    have hsame := removeVma_sameAreas m.state y
    have hsub : ∀ x ∈ xs.erase y, x ∈ xs := fun x => List.mem_of_mem_erase
    have hremoved : PageAreas (Memory.state ⟨removeVma m.state y, m.live.erase y⟩)
        (xs.erase y) := by
      refine ⟨hxs.list.removed hmem, ?_, ?_, ?_, fun x hx => ?_, fun x hx => ?_⟩
      · rw [hsame.lower]
        exact hxs.lower
      · rw [hsame.upper]
        exact hxs.upper
      · rw [hsame.upper]
        exact hxs.user
      · rw [hsame.beg]
        exact hxs.beg x (hsub x hx)
      · rw [hsame.fin]
        exact hxs.fin x (hsub x hx)
    have hnodup := hxs.list.links.chain.nodup
    refine ⟨⟨xs.erase y, hremoved, fun x hx => ?_⟩, .inr ⟨hrange, fun v hv hnot => ?_⟩⟩
    · obtain ⟨hne, hx⟩ := hnodup.mem_erase_iff.mp hx
      exact (List.mem_erase_of_ne hne).mpr (hlive x hx)
    · obtain ⟨hpage, x, hx, hin⟩ := hxs.mem_covered.mp hv
      have haligned := hxs.fin y hmem
      have hne : x ≠ y := by
        rintro rfl
        refine hnot ((mem_firstPages hrange hpage.aligned).mpr ?_)
        obtain ⟨hle, hlt⟩ := hin
        have hstart' := hxs.beg x hmem
        omega
      refine hremoved.mem_covered.mpr ⟨hpage, x, hnodup.mem_erase_iff.mpr ⟨hne, hx⟩, ?_⟩
      rw [Contains, hsame.beg, hsame.fin]
      exact hin

end Sgos.SpaceAreas
