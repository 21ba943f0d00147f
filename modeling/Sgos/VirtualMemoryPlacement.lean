import Sgos.VirtualMemoryAreas

/-!
# The best placement

Where the address range is no longer than the addresses below it and those above it, the searches
of `MmAllocateVirtualMemory` do not wrap, and find the lowest or the highest place for an area.
-/
namespace Sgos.VirtualMemory
open IntervalList LinkedChain State

/-- An area of `n` bytes at `a` lies inside the limits and overlaps no recorded area. -/
def FitsAt (s : State) (n a : ℕ) : Prop :=
  s.vm.lowerLimit.toNat ≤ a ∧ a + n ≤ s.vm.upperLimit.toNat ∧
    ∀ x, Recorded s x → s.fin x ≤ a ∨ a + n ≤ s.beg x

/-- The lowest such address or, with `ALLOC_HIGHMEM`, the highest. -/
def BestAt (s : State) (size flag : UInt32) (a : ℕ) : Prop :=
  if flag &&& ALLOC_HIGHMEM ≠ 0 then IsGreatest {a | FitsAt s size.toNat a} a
  else IsLeast {a | FitsAt s size.toNat a} a

/-- The range is no longer than what lies below it, and than what lies above it. -/
def Short (vm : KVirtualMemory) : Prop :=
  vm.upperLimit.toNat - vm.lowerLimit.toNat ≤
    min vm.lowerLimit.toNat (4294967295 - vm.upperLimit.toNat)

instance (vm : KVirtualMemory) : Decidable (Short vm) := inferInstanceAs (Decidable (_ ≤ _))

/-- What `DumpVirtualMemory` and the fault handlers read of an area. -/
def State.area (s : State) (x : Ptr) : UInt32 × UInt32 × UInt32 × UInt32 :=
  ((s.heap x).virtualAddress, (s.heap x).virtualSize, (s.heap x).memoryAttribute,
    (s.heap x).allocationFlag)

/-- All recorded areas of `s` are recorded in `s'` as they were. -/
def Kept (s s' : State) : Prop := ∀ x, Recorded s x → Recorded s' x ∧ s'.area x = s.area x

/-! ## The areas behind the links -/

section Areas
variable (s : State) (p : Ptr) (v : Option Ptr)

@[simp] lemma setNext_area : (s.setNext p v).area = s.area := by
  funext q; by_cases h : q = p <;> simp [setNext, write, area, Function.update, h]
@[simp] lemma setPrev_area : (s.setPrev p v).area = s.area := by
  funext q; by_cases h : q = p <;> simp [setPrev, write, area, Function.update, h]
@[simp] lemma setFirst_area : (s.setFirst v).area = s.area := rfl
@[simp] lemma setLast_area : (s.setLast v).area = s.area := rfl

lemma setArea_area {x : Ptr} (hx : x ≠ p) (a b c d : UInt32) :
    (s.setArea p a b c d).area x = s.area x := by
  simp [setArea, write, area, Function.update, hx]

lemma setArea_recorded {x : Ptr} (a b c d : UInt32) :
    Recorded (s.setArea p a b c d) x ↔ Recorded s x := by
  rw [Recorded, Recorded, setArea_next, setArea_vm]

lemma insertPreviousVma_area (next : Option Ptr) :
    (insertPreviousVma s p next).area = s.area := by
  cases next with
  | some n => cases h : (s.setNext p (some n)).prev n <;> simp only [insertPreviousVma, h] <;> simp
  | none =>
    cases h : s.vm.lastAllocation <;>
      simp only [insertPreviousVma, setNext_vm, setPrev_vm, h] <;> simp

lemma insertFirstVma_area : (insertFirstVma s p).area = s.area := by
  cases h : s.vm.firstAllocation <;> simp only [insertFirstVma, setNext_vm, h] <;> simp

end Areas

/-! ## The searches -/

section Searches
variable {s : State} {xs : List Ptr} {size : UInt32}

/-- While no sum wraps, the bottom-up loop finds the first gap. -/
lemma lowWalk_eq {a : UInt32} (hend : ∀ x ∈ xs, (areaEnd s x).toNat = s.fin x)
    (ha : a.toNat + size.toNat < addressSpace)
    (hfit : ∀ x ∈ xs, s.fin x + size.toNat < addressSpace) :
    (walkList (fitsBelow s size) (fun _ x => areaEnd s x) a xs).1.toNat =
        firstGap s.beg s.fin size.toNat a.toNat xs ∧
      ∀ x, (walkList (fitsBelow s size) (fun _ x => areaEnd s x) a xs).2 = some x →
        x ∈ xs ∧ firstGap s.beg s.fin size.toNat a.toNat xs + size.toNat ≤ s.beg x := by
  induction xs generalizing a with
  | nil => exact ⟨rfl, by simp [walkList]⟩
  | cons x xs ih =>
    have hstop : fitsBelow s size a x = decide (a.toNat + size.toNat ≤ s.beg x) := by
      rw [fitsBelow, decide_eq_decide, ge_iff_le, UInt32.le_iff_toNat_le, toNat_add_of_lt ha]
      rfl
    rw [walkList, hstop, firstGap]
    by_cases hx : a.toNat + size.toNat ≤ s.beg x
    · simp [hx]
    · have hfin := hend x (by simp)
      obtain ⟨haddr, hcur⟩ := ih (fun y hy => hend y (by simp [hy]))
        (by rw [hfin]; exact hfit x (by simp)) fun y hy => hfit y (by simp [hy])
      rw [hfin] at haddr hcur
      simp only [hx, decide_false, Bool.false_eq_true, if_false]
      refine ⟨haddr, fun y hy => ?_⟩
      obtain ⟨hmem, hle⟩ := hcur y hy
      exact ⟨List.mem_cons_of_mem _ hmem, hle⟩

/-- While no difference wraps, the top-down loop finds the last gap. -/
lemma highWalk_eq {b : UInt32} (hend : ∀ x ∈ xs, (areaEnd s x).toNat = s.fin x)
    (hb : size.toNat ≤ b.toNat) (hfit : ∀ x ∈ xs, size.toNat ≤ s.beg x) :
    (walkList (fitsAbove s) (fun _ x => (s.heap x).virtualAddress - size) (b - size)
        xs).1.toNat + size.toNat = lastGap s.beg s.fin size.toNat b.toNat xs ∧
      ∀ x, (walkList (fitsAbove s) (fun _ x => (s.heap x).virtualAddress - size) (b - size)
          xs).2 = some x →
        x ∈ xs ∧ s.fin x + size.toNat ≤ lastGap s.beg s.fin size.toNat b.toNat xs := by
  have hdiff : (b - size).toNat = b.toNat - size.toNat := toNat_sub_of_le hb
  induction xs generalizing b with
  | nil =>
    refine ⟨?_, by simp [walkList]⟩
    rw [walkList, hdiff, lastGap]
    omega
  | cons x xs ih =>
    have hstop : fitsAbove s (b - size) x = decide (s.fin x + size.toNat ≤ b.toNat) := by
      rw [fitsAbove, decide_eq_decide, UInt32.le_iff_toNat_le, hend x (by simp), hdiff]
      omega
    rw [walkList, hstop, lastGap]
    by_cases hx : s.fin x + size.toNat ≤ b.toNat
    · simp only [hx, decide_true, if_true, hdiff]
      refine ⟨by omega, fun y hy => ?_⟩
      obtain rfl := Option.some.inj hy
      exact ⟨List.mem_cons_self, hx⟩
    · have hbeg : size.toNat ≤ (s.heap x).virtualAddress.toNat := hfit x (by simp)
      obtain ⟨haddr, hcur⟩ := ih (fun y hy => hend y (by simp [hy])) hbeg
        (fun y hy => hfit y (by simp [hy])) (toNat_sub_of_le hbeg)
      simp only [hx, decide_false, Bool.false_eq_true, if_false]
      refine ⟨haddr, fun y hy => ?_⟩
      obtain ⟨hmem, hle⟩ := hcur y hy
      exact ⟨List.mem_cons_of_mem _ hmem, hle⟩

/-- What fits between the limits and the areas. -/
lemma AreaList.fitsAt_iff (h : AreaList s xs) {n a : ℕ} :
    FitsAt s n a ↔ s.vm.lowerLimit.toNat ≤ a ∧ a + n ≤ s.vm.upperLimit.toNat ∧
      ∀ x ∈ xs, s.fin x ≤ a ∨ a + n ≤ s.beg x := by
  simp only [FitsAt, h.recorded_iff]

lemma AreaList.lowSearch_eq (h : AreaList s xs)
    (hroom : s.vm.upperLimit.toNat + size.toNat < addressSpace)
    (hlimits : s.vm.lowerLimit.toNat ≤ s.vm.upperLimit.toNat) :
    (lowSearch s size).1.toNat =
        firstGap s.beg s.fin size.toNat s.vm.lowerLimit.toNat xs ∧
      ∀ x, (lowSearch s size).2 = some x → x ∈ xs ∧
        firstGap s.beg s.fin size.toNat s.vm.lowerLimit.toNat xs + size.toNat ≤ s.beg x := by
  have hw : lowSearch s size =
      walkList (fitsBelow s size) (fun _ x => areaEnd s x) s.vm.lowerLimit xs := by
    rw [lowSearch, h.links.chain.head_eq]
    exact walk_eq_walkList h.links.chain.linked h.length_le _
  rw [hw]
  refine lowWalk_eq (fun x hx => h.toNat_end hx) (by omega) fun x hx => ?_
  have hup := h.upper x hx
  omega

lemma AreaList.highSearch_eq (h : AreaList s xs) (hroom : size.toNat ≤ s.vm.lowerLimit.toNat)
    (hlimits : s.vm.lowerLimit.toNat ≤ s.vm.upperLimit.toNat) :
    (highSearch s size).1.toNat + size.toNat =
        lastGap s.beg s.fin size.toNat s.vm.upperLimit.toNat xs.reverse ∧
      ∀ x, (highSearch s size).2 = some x → x ∈ xs ∧ s.fin x + size.toNat ≤
        lastGap s.beg s.fin size.toNat s.vm.upperLimit.toNat xs.reverse := by
  have hlen : xs.reverse.length ≤ addressSpace := by simpa using h.length_le
  have hw : highSearch s size =
      walkList (fitsAbove s) (fun _ x => (s.heap x).virtualAddress - size)
        (s.vm.upperLimit - size) xs.reverse := by
    rw [highSearch, h.links.last_eq, ← List.head?_reverse]
    exact walk_eq_walkList h.links.chain.linked.reverse hlen _
  rw [hw]
  obtain ⟨haddr, hcur⟩ := @highWalk_eq s xs.reverse size s.vm.upperLimit
    (fun x hx => h.toNat_end (List.mem_reverse.mp hx)) (hroom.trans hlimits)
    fun x hx => hroom.trans (h.lower x (List.mem_reverse.mp hx))
  refine ⟨haddr, fun x hx => ?_⟩
  obtain ⟨hmem, hle⟩ := hcur x hx
  exact ⟨List.mem_reverse.mp hmem, hle⟩

end Searches

/-! ## The placements -/

section Placement
variable {s : State} {xs : List Ptr} {v : Ptr} {size flag : UInt32}

lemma insertPreviousVma_recorded {pre post : List Ptr} (h : Links s (pre ++ post))
    (hv : v ∉ pre ++ post) {x : Ptr} (hx : Recorded s x) :
    Recorded (insertPreviousVma s v post.head?) x := by
  rw [Recorded, h.chain.reaches_iff] at hx
  rw [Recorded, (insertPreviousVma_links h hv).chain.reaches_iff]
  rcases List.mem_append.mp hx with hx | hx <;> simp [hx]

/-- Forwards the list is whole even where the new node is linked to its front only. -/
lemma insertFirstVma_recorded (h : Links s xs) (hv : v ∉ xs) {x : Ptr} (hx : Recorded s x) :
    Recorded (insertFirstVma s v) x := by
  have hnext : (insertFirstVma s v).next = Function.update s.next v s.vm.firstAllocation := by
    cases hf : s.vm.firstAllocation <;> simp [insertFirstVma, hf]
  have hfirst : (insertFirstVma s v).vm.firstAllocation = some v := rfl
  have hne : ∀ y, Recorded s y → y ≠ v := by
    rintro y hy rfl
    exact hv (h.chain.reaches_iff.mp hy)
  rw [Recorded, hnext, hfirst]
  induction hx with
  | head hhead => exact (Reaches.head rfl).next (by rw [Function.update_self, hhead])
  | next hy hxy ih => exact ih.next (by rw [Function.update_of_ne (hne _ hy), hxy])

/-- What the placement must do, for an address `a` that is best. -/
structure Settled (s : State) (size flag : UInt32) (r : UInt32 × State) : Prop where
  best : BestAt s size flag r.1.toNat
  area_eq : r.2.area = s.area
  recorded : ∀ x, Recorded s x → Recorded r.2 x

lemma AreaList.placeLowest (h : AreaList s xs) (hv : v ∉ xs)
    (hroom : s.vm.upperLimit.toNat + size.toNat < addressSpace)
    (hlimits : s.vm.lowerLimit.toNat ≤ s.vm.upperLimit.toNat) (addr : UInt32)
    (hr : flag &&& ALLOC_RANDOM ≠ 0) (hh : ¬flag &&& ALLOC_HIGHMEM ≠ 0) :
    (∃ r, placeVma s v addr size flag = some r ∧ Settled s size flag r) ∨
      placeVma s v addr size flag = none ∧ ∀ a, ¬FitsAt s size.toNat a := by
  obtain ⟨haddr, hcur⟩ := h.lowSearch_eq hroom hlimits
  obtain ⟨⟨hlow, hmem⟩, hleast⟩ := firstGap_isLeast (n := size.toNat) h.apart
    (fun x _ => s.beg_le_fin x) h.lower
  rw [← haddr] at hcur hlow hmem hleast
  have hbest : (lowSearch s size).1.toNat + size.toNat ≤ s.vm.upperLimit.toNat →
      BestAt s size flag (lowSearch s size).1.toNat := by
    intro hup
    rw [BestAt, if_neg hh]
    refine ⟨h.fitsAt_iff.mpr ⟨hlow, hup, hmem⟩, fun a ha => ?_⟩
    obtain ⟨ha, -, hap⟩ := h.fitsAt_iff.mp ha
    exact hleast ⟨ha, hap⟩
  simp only [placeVma, if_pos hr, if_neg hh]
  rcases hsearch : lowSearch s size with ⟨a, cur⟩
  rw [hsearch] at hcur hlow hmem hleast hbest
  dsimp only at hcur hlow hmem hleast hbest ⊢
  cases cur with
  | some x =>
    obtain ⟨hx, hle⟩ := hcur x rfl
    obtain ⟨pre, post, rfl⟩ := List.append_of_mem hx
    have hup := h.upper x hx
    have hxle := s.beg_le_fin x
    refine .inl ⟨_, rfl, hbest (by omega), insertPreviousVma_area s v (some x), fun y hy => ?_⟩
    exact insertPreviousVma_recorded h.links hv hy
  | none =>
    have hsum : (a + size).toNat = a.toNat + size.toNat := by
      refine toNat_add_of_lt ?_
      have hgap : firstGap s.beg s.fin size.toNat s.vm.lowerLimit.toNat xs = a.toNat := by
        rw [← haddr, hsearch]
      have htop := hleast (a := s.vm.upperLimit.toNat)
        ⟨hlimits, fun x hx => .inl (h.upper x hx)⟩
      omega
    dsimp only
    split_ifs with hup
    · refine .inr ⟨rfl, fun b hb => ?_⟩
      obtain ⟨hb, hbu, hbp⟩ := h.fitsAt_iff.mp hb
      have hab := hleast ⟨hb, hbp⟩
      rw [gt_iff_lt, UInt32.lt_iff_toNat_lt, hsum] at hup
      omega
    · rw [gt_iff_lt, UInt32.lt_iff_toNat_lt, hsum, not_lt] at hup
      refine .inl ⟨_, rfl, hbest hup, insertPreviousVma_area s v none, fun y hy => ?_⟩
      have hlinks : Links s (xs ++ []) := by
        rw [List.append_nil]
        exact h.links
      exact insertPreviousVma_recorded hlinks (by rwa [List.append_nil]) hy

lemma AreaList.placeHighest (h : AreaList s xs) (hv : v ∉ xs)
    (hroom : size.toNat ≤ s.vm.lowerLimit.toNat)
    (hlimits : s.vm.lowerLimit.toNat ≤ s.vm.upperLimit.toNat) (addr : UInt32)
    (hr : flag &&& ALLOC_RANDOM ≠ 0) (hh : flag &&& ALLOC_HIGHMEM ≠ 0) :
    (∃ r, placeVma s v addr size flag = some r ∧ Settled s size flag r) ∨
      placeVma s v addr size flag = none ∧ ∀ a, ¬FitsAt s size.toNat a := by
  obtain ⟨haddr, hcur⟩ := h.highSearch_eq hroom hlimits
  obtain ⟨⟨hhigh, hmem⟩, hgreatest⟩ := lastGap_isGreatest (n := size.toNat)
    (List.pairwise_reverse.mpr h.apart) (fun x _ => s.beg_le_fin x)
    fun x hx => h.upper x (List.mem_reverse.mp hx)
  rw [← haddr] at hcur hhigh hmem hgreatest
  have hends : ∀ a, FitsAt s size.toNat a → a ≤ (highSearch s size).1.toNat := by
    intro a ha
    obtain ⟨-, hup, hap⟩ := h.fitsAt_iff.mp ha
    have hle := hgreatest (a := a + size.toNat) ⟨hup, fun x hx => ?_⟩
    · omega
    · rcases hap x (List.mem_reverse.mp hx) with hxa | hax
      · exact .inl (by omega)
      · exact .inr hax
  have hbest : s.vm.lowerLimit.toNat ≤ (highSearch s size).1.toNat →
      BestAt s size flag (highSearch s size).1.toNat := by
    intro hlow
    rw [BestAt, if_pos hh]
    refine ⟨h.fitsAt_iff.mpr ⟨hlow, hhigh, fun x hx => ?_⟩, hends⟩
    rcases hmem x (List.mem_reverse.mpr hx) with hxa | hax
    · exact .inl (by omega)
    · exact .inr hax
  simp only [placeVma, if_pos hr, if_pos hh]
  rcases hsearch : highSearch s size with ⟨a, cur⟩
  rw [hsearch] at hcur hhigh hends hbest
  dsimp only at hcur hhigh hends hbest ⊢
  cases cur with
  | some x =>
    obtain ⟨hx, hle⟩ := hcur x rfl
    obtain ⟨pre, post, rfl⟩ := List.append_of_mem hx
    have hlow := h.lower x hx
    have hxle := s.beg_le_fin x
    have hnext : s.next x = post.head? := h.links.chain.next_eq
    have hsplit : pre ++ x :: post = (pre ++ [x]) ++ post := by simp
    refine .inl ⟨_, rfl, hbest (by omega), insertPreviousVma_area s v _, fun y hy => ?_⟩
    have hlinks := h.links
    rw [hsplit] at hlinks hv
    rw [hnext]
    exact insertPreviousVma_recorded hlinks hv hy
  | none =>
    dsimp only
    split_ifs with hlow
    · refine .inr ⟨rfl, fun b hb => ?_⟩
      have hba := hends b hb
      have hb := hb.1
      rw [UInt32.lt_iff_toNat_lt] at hlow
      omega
    · rw [UInt32.lt_iff_toNat_lt, not_lt] at hlow
      refine .inl ⟨_, rfl, hbest hlow, insertFirstVma_area s v, fun y hy => ?_⟩
      exact insertFirstVma_recorded h.links hv hy

/-- With a fresh descriptor, a request without a fixed address gets the best address, exactly if
there is one. -/
theorem mmAllocateVirtualMemory_best (s : State) (xs : List Ptr) (h : AreaList s xs)
    (hshort : Short s.vm) (buf : Ptr) (hbuf : buf ∉ xs) (addr size attr flag : UInt32)
    (hpage : PAGE_SIZE ≤ size) (hmultiple : size % PAGE_SIZE = 0)
    (hsize : size.toNat ≤ s.vm.upperLimit.toNat - s.vm.lowerLimit.toNat)
    (hr : flag &&& ALLOC_RANDOM ≠ 0) :
    let r := mmAllocateVirtualMemory s (some buf) addr size attr flag
    (r.1 = 0 ↔ ∀ a, ¬FitsAt s size.toNat a) ∧ (r.1 ≠ 0 → BestAt s size flag r.1.toNat) ∧
      Kept s r.2 := by
  obtain ⟨hbelow, habove⟩ := le_min_iff.mp (show _ ≤ min _ _ from hshort)
  have hpos : 4096 ≤ size.toNat := UInt32.le_iff_toNat_le.mp hpage
  have hplace : (∃ r, placeVma s buf addr size flag = some r ∧ Settled s size flag r) ∨
      placeVma s buf addr size flag = none ∧ ∀ a, ¬FitsAt s size.toNat a := by
    by_cases hh : flag &&& ALLOC_HIGHMEM ≠ 0
    · exact h.placeHighest hbuf (by omega) (by omega) addr hr hh
    · refine h.placeLowest hbuf ?_ (by omega) addr hr hh
      simp only [addressSpace]
      omega
  have hvalid : ¬(size < PAGE_SIZE ∨ size % PAGE_SIZE ≠ 0) := by
    rintro (hlt | hne)
    · exact absurd hpage (UInt32.not_le.mpr hlt)
    · exact hne hmultiple
  intro r
  rcases hplace with ⟨p, hp, hsettled⟩ | ⟨hp, hnone⟩
  · have hr : r = (p.1, p.2.setArea buf p.1 size attr flag) := by
      simp only [r, mmAllocateVirtualMemory, allocateVma, if_neg hvalid, hp, Option.map_some,
        Option.getD_some]
    have hfits : FitsAt s size.toNat p.1.toNat := by
      have hbest := hsettled.best
      rw [BestAt] at hbest
      split_ifs at hbest
      · exact hbest.1
      · exact hbest.1
    have hne : p.1 ≠ 0 := by
      intro hzero
      have hlow := hfits.1
      rw [hzero] at hlow
      change _ ≤ 0 at hlow
      omega
    rw [hr]
    refine ⟨⟨fun hzero => absurd hzero hne, fun hall => absurd hfits (hall _)⟩,
      fun _ => hsettled.best, fun x hx => ⟨?_, ?_⟩⟩
    · exact (setArea_recorded ..).mpr (hsettled.recorded x hx)
    · have hxb : x ≠ buf := by
        rintro rfl
        exact hbuf (h.recorded_iff.mp hx)
      exact (setArea_area _ _ hxb ..).trans (congrFun hsettled.area_eq x)
  · have hr : r = (0, s) := by
      simp only [r, mmAllocateVirtualMemory, allocateVma, if_neg hvalid, hp, Option.map_none,
        Option.getD_none]
    rw [hr]
    exact ⟨⟨fun _ => hnone, fun _ => rfl⟩, fun hne => absurd rfl hne, fun x hx => ⟨hx, rfl⟩⟩

end Placement

/-- The range of the kernel with two areas, two pages apart. -/
def twoAreas : State where
  heap p :=
    if p = 16 then ⟨some 32, none, 0xC0400000, 0x1000, 2, 0⟩
    else ⟨none, some 16, 0xC0403000, 0x1000, 2, 0⟩
  vm := ⟨some 16, some 32, 0xC0400000, 0xE0000000⟩

lemma twoAreas_areaList : AreaList twoAreas [16, 32] where
  links := ⟨⟨rfl, by decide, rfl, rfl, rfl, rfl, trivial⟩, rfl⟩
  apart := List.pairwise_pair.mpr (by decide)
  lower := List.forall_mem_cons.mpr ⟨by decide, List.forall_mem_singleton.mpr (by decide)⟩
  upper := List.forall_mem_cons.mpr ⟨by decide, List.forall_mem_singleton.mpr (by decide)⟩

/-- Two pages from above. -/
def twoPages : UInt32 × State :=
  mmAllocateVirtualMemory twoAreas (some 48) 0 0x2000 2 (ALLOC_RANDOM ||| ALLOC_HIGHMEM)

theorem mmAllocateVirtualMemory_best_twoAreas :
    (twoPages.1 = 0 ↔ ∀ a, ¬FitsAt twoAreas 8192 a) ∧
      (twoPages.1 ≠ 0 →
        BestAt twoAreas 0x2000 (ALLOC_RANDOM ||| ALLOC_HIGHMEM) twoPages.1.toNat) ∧
      Kept twoAreas twoPages.2 :=
  mmAllocateVirtualMemory_best twoAreas [16, 32] twoAreas_areaList (by decide) 48 (by decide) 0
    0x2000 2 _ (by decide) (by decide) (by decide) (by decide)

end Sgos.VirtualMemory
