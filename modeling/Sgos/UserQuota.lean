import Sgos.UserMemory

/-!
# The count of user memory

In a run whose requests all meet the condition, the count of a space is the sum of the sizes of
its areas, and stays within the limit.
-/
namespace Sgos.UserMemory
open GuardedRun LinkedChain VirtualMemory
open CopyOnWrite (ALLOC_VIRTUAL)
open KernelMemory (toInt_add toInt_refund)

/-! ## The sum of the sizes -/

section Sums
variable {s s' : VirtualMemory.State} {live : List Ptr}

/-- The sizes of some areas together. -/
def sizes (s : VirtualMemory.State) (live : List Ptr) : ℕ :=
  (live.map fun x => (s.extent x).2.toNat).sum

lemma total_eq (m : Memory) : total m = sizes m.state m.live := rfl

lemma sizes_congr (h : ∀ x ∈ live, s'.extent x = s.extent x) : sizes s' live = sizes s live := by
  have hmap : (live.map fun x => (s'.extent x).2.toNat) =
      live.map fun x => (s.extent x).2.toNat := by
    refine List.map_congr_left fun x hx => ?_
    rw [h x hx]
  rw [sizes, sizes, hmap]

lemma sizes_cons (x : Ptr) : sizes s (x :: live) = (s.extent x).2.toNat + sizes s live :=
  List.sum_cons

lemma sizes_erase {x : Ptr} (hx : x ∈ live) :
    sizes s live = (s.extent x).2.toNat + sizes s (live.erase x) :=
  (List.sum_map_erase (fun x => (s.extent x).2.toNat) hx).symm

end Sums

/-! ## The calls -/

/-- The invariant of the runs. -/
structure Kept (s : State) : Prop where
  listed : ∃ xs : List Ptr, xs.Perm s.memory.live ∧ Listed s.memory.state xs
  allocated_eq : s.info.userMemoryAllocated.toInt = total s.memory
  le_capacity : total s.memory ≤ 1073741824
  capacity : s.info.userMemoryCapacity = 0x40000000

lemma Kept.quotaKept {s : State} (h : Kept s) : QuotaKept s := by
  obtain ⟨xs, hperm, hxs⟩ := h.listed
  refine ⟨⟨xs, hperm, ?_⟩, h.allocated_eq, h.le_capacity⟩
  rw [hxs.chain.head_eq]
  exact hxs.chain.linked.visits

section Areas
variable {m : Memory} {xs : List Ptr} {p : UInt32} {y : Ptr}

/-- A release that finds an area takes it off the list. -/
lemma free_found (hperm : xs.Perm m.live) (hxs : Listed m.state xs)
    (hy : mmGetVmaByAddress m.state p = some y) :
    (mmFreeVirtualMemory m.state p).1 = (m.state.extent y).2 ∧
      (VirtualMemory.step m (.free p)).live = m.live.erase y ∧
      (∃ ys : List Ptr, ys.Perm (m.live.erase y) ∧
        Listed (VirtualMemory.step m (.free p)).state ys) ∧
      total m = (m.state.extent y).2.toNat + total (VirtualMemory.step m (.free p)) := by
  obtain ⟨hmem, hlinks⟩ := hxs.lookup hy
  have hlive : y ∈ m.live := hperm.mem_iff.mp hmem
  have hstep : VirtualMemory.step m (.free p) = ⟨removeVma m.state y, m.live.erase y⟩ := by
    simp only [VirtualMemory.step, mmFreeVirtualMemory, hy]
  have hremoved := removeVma_links hlinks hmem
  rw [hstep]
  refine ⟨?_, rfl, ⟨xs.erase y, hperm.erase y, hremoved.chain, .inl hremoved.last_eq⟩, ?_⟩
  · simp only [mmFreeVirtualMemory, hy]
    rfl
  · rw [total_eq, total_eq, sizes_erase hlive]
    congr 1
    refine (sizes_congr fun x _ => ?_).symm
    exact congrFun (extent_of_sameAreas (removeVma_sameAreas m.state y)) x

end Areas

section Calls
variable {s : State}

lemma Kept.free (h : Kept s) (p : UInt32) : Kept (mmFreeUserMemory s p) := by
  obtain ⟨xs, hperm, hxs⟩ := h.listed
  have hle := h.le_capacity
  cases hy : mmGetVmaByAddress s.memory.state p with
  | none =>
    have hzero : (mmFreeVirtualMemory s.memory.state p).1 = 0 := by
      simp only [mmFreeVirtualMemory, hy]
    have hmemory : VirtualMemory.step s.memory (.free p) = s.memory := by
      simp only [VirtualMemory.step, mmFreeVirtualMemory, hy]
    have hrefund := toInt_refund (n := 0) h.allocated_eq (by omega) (by decide)
    rw [mmFreeUserMemory, hzero, hmemory]
    refine ⟨h.listed, ?_, hle, h.capacity⟩
    change (refund _ 0).toInt = _
    rw [hrefund]
    simp
  | some y =>
    obtain ⟨hsize, hlive, hlisted, htotal⟩ := free_found hperm hxs hy
    have hrefund := toInt_refund (n := (s.memory.state.extent y).2) h.allocated_eq (by omega)
      (by omega)
    rw [mmFreeUserMemory, hsize]
    refine ⟨?_, ?_, ?_, h.capacity⟩
    · rw [hlive]
      exact hlisted
    · change (refund _ _).toInt = (total (VirtualMemory.step s.memory (.free p)) : ℤ)
      rw [hrefund]
      omega
    · dsimp only
      omega

/-- The bytes for which pages were acquired are negative as an `int` only from 2GB on. -/
lemma Negative.le {siz flag : UInt32} {frames : ℕ} (h : Negative siz flag frames) :
    2147483648 ≤ siz.toNat := by
  obtain ⟨-, -, hneg⟩ := h
  have hcount : (siz >>> 12).toNat = siz.toNat / 4096 := by
    rw [UInt32.toNat_shiftRight, Nat.shiftRight_eq_div_pow]
    rfl
  have hlt := siz.toNat_lt
  have hleft : (UInt32.ofNat ((siz >>> 12).toNat - frames) * PAGE_SIZE).toNat =
      (siz.toNat / 4096 - frames) * 4096 := by
    rw [hcount, UInt32.toNat_mul, UInt32.toNat_ofNat', show PAGE_SIZE.toNat = 4096 from rfl]
    omega
  have hsub : (mmAcquireMultiplePhysicalPages siz frames).toNat ≤ siz.toNat := by
    rw [mmAcquireMultiplePhysicalPages, toNat_sub_of_le (by omega)]
    omega
  by_contra hsmall
  rw [Int32.lt_iff_toInt_lt, KernelMemory.toInt_toInt32 (by omega), Int32.toInt_zero] at hneg
  omega

/-- Charging and uncharging leaves the count. -/
lemma setAllocated_back (info : KMemoryInformation) (siz : UInt32) :
    setAllocated (setAllocated info (info.userMemoryAllocated + siz.toInt32))
      (info.userMemoryAllocated + siz.toInt32 - siz.toInt32) = info := by
  rw [setAllocated, setAllocated, Int32.add_sub_cancel]

/-- A block that is not used changes nothing that is recorded. -/
lemma Kept.withBlock (h : Kept s) {buf : Ptr} (hbuf : buf ∉ s.memory.live)
    (stale : KVirtualMemoryAllocation) :
    Kept ⟨s.info, ⟨s.memory.withBlock buf stale, s.memory.live⟩⟩ := by
  obtain ⟨xs, hperm, hxs⟩ := h.listed
  have hsame : total ⟨s.memory.withBlock buf stale, s.memory.live⟩ = total s.memory := by
    refine sizes_congr fun x hx => ?_
    have hne : x ≠ buf := ne_of_mem_of_not_mem hx hbuf
    simp [VirtualMemory.State.extent, Memory.withBlock, VirtualMemory.State.write,
      Function.update_of_ne hne]
  refine ⟨⟨xs, hperm, hxs.write (fun hm => hbuf (hperm.mem_iff.mp hm)) stale⟩, ?_, ?_, h.capacity⟩
  · rw [hsame]
    exact h.allocated_eq
  · rw [hsame]
    exact h.le_capacity

/-- A new area on the list. -/
lemma allocate_total {m : Memory} {buf : Ptr} (hbuf : buf ∉ m.live) {siz : UInt32}
    {r : UInt32 × VirtualMemory.State}
    (hextent : r.2.extent = Function.update m.state.extent buf (r.1, siz)) :
    total ⟨r.2, buf :: m.live⟩ = siz.toNat + total m := by
  have hrest : sizes r.2 m.live = sizes m.state m.live := by
    refine sizes_congr fun x hx => ?_
    rw [hextent, Function.update_of_ne (ne_of_mem_of_not_mem hx hbuf)]
  rw [total_eq, sizes_cons, hrest, hextent, Function.update_self, total_eq]

/-- The space behind an accepted request, before pages are acquired. -/
def charged (s : State) (buf : Ptr) (siz : UInt32) (list : VirtualMemory.State) : State :=
  ⟨setAllocated s.info (s.info.userMemoryAllocated + siz.toInt32), ⟨list, buf :: s.memory.live⟩⟩

section Accepted
variable {buf : Ptr} {addr siz attr flag : UInt32} {r : UInt32 × VirtualMemory.State}
  {xs : List Ptr}

/-- The new area is counted. -/
lemma Kept.charged_kept (h : Kept s) (hbuf : buf ∉ s.memory.live) (hperm : xs.Perm s.memory.live)
    (hplaced : LinkedIn s.memory.state xs buf addr siz flag r)
    (hallowed : ¬s.info.userMemoryAllocated + siz.toInt32 > s.info.userMemoryCapacity)
    (hcount : s.info.userMemoryAllocated.toInt + siz.toNat < 2147483648) :
    Kept (charged s buf siz r.2) := by
  obtain ⟨pre, post, rfl, -, hlisted⟩ := hplaced.listed
  have htotal := allocate_total hbuf hplaced.extent_eq
  have hsum := toInt_add (n := siz) h.allocated_eq (by have := h.allocated_eq; omega)
  have hle : (s.info.userMemoryAllocated + siz.toInt32).toInt ≤ 1073741824 := by
    rw [gt_iff_lt, Int32.not_lt, h.capacity, Int32.le_iff_toInt_le] at hallowed
    exact hallowed
  refine ⟨⟨pre ++ buf :: post, ?_, hlisted⟩, ?_, ?_, h.capacity⟩
  · exact List.perm_middle.trans (hperm.cons buf)
  · change (s.info.userMemoryAllocated + siz.toInt32).toInt = _
    rw [hsum, charged, htotal]
    omega
  · rw [charged, htotal]
    omega

/-- An area that is found again is given back. -/
lemma Kept.givenBack (h : Kept s) (hbuf : buf ∉ s.memory.live) (hperm : xs.Perm s.memory.live)
    (hxs : Listed s.memory.state xs) (hplaced : LinkedIn s.memory.state xs buf addr siz flag r)
    (hfound : FoundAgain s.memory.state addr siz flag) :
    Kept (mmFreeUserMemory (charged s buf siz r.2) r.1) := by
  have hnew : buf ∉ xs := fun hm => hbuf (hperm.mem_iff.mp hm)
  have hy := hplaced.found hxs hnew hfound
  have htotal := allocate_total hbuf hplaced.extent_eq
  have hextent : r.2.extent buf = (r.1, siz) := by
    rw [hplaced.extent_eq, Function.update_self]
  obtain ⟨pre, post, rfl, -, hlisted⟩ := hplaced.listed
  have hperm' : (pre ++ buf :: post).Perm (charged s buf siz r.2).memory.live :=
    List.perm_middle.trans (hperm.cons buf)
  obtain ⟨hsize, hlive, hrest, hsum⟩ := free_found hperm' hlisted hy
  have hback : (charged s buf siz r.2).memory.live.erase buf = s.memory.live :=
    List.erase_cons_head ..
  have hrefund : refund (s.info.userMemoryAllocated + siz.toInt32) siz =
      s.info.userMemoryAllocated := by
    have hpos : ¬s.info.userMemoryAllocated < 0 := by
      rw [Int32.lt_iff_toInt_lt, h.allocated_eq, Int32.toInt_zero]
      omega
    rw [refund, Int32.add_sub_cancel, if_neg hpos]
  have hsiz : ((charged s buf siz r.2).memory.state.extent buf).2 = siz :=
    congrArg Prod.snd hextent
  have hsame : total (VirtualMemory.step (charged s buf siz r.2).memory (.free r.1)) =
      total s.memory := by
    rw [hsiz] at hsum
    exact Nat.add_left_cancel (hsum.symm.trans htotal)
  rw [mmFreeUserMemory, hsize, hsiz]
  rw [hback] at hlive hrest
  refine ⟨?_, ?_, ?_, h.capacity⟩
  · rw [hlive]
    exact hrest
  · change (refund (s.info.userMemoryAllocated + siz.toInt32) siz).toInt = _
    rw [hrefund, hsame]
    exact h.allocated_eq
  · rw [hsame]
    exact h.le_capacity

end Accepted

lemma allocateArea_none {m : Memory} {supply : Supply}
    (hb : mmAllocateKernelMemory m.live supply.block = none) (addr siz attr flag : UInt32) :
    allocateArea m supply addr siz attr flag = (0, m) := by
  simp only [allocateArea, VirtualMemory.step, hb, mmAllocateVirtualMemory, Option.elim_none]

lemma allocateArea_some {m : Memory} {supply : Supply} {buf : Ptr}
    (hb : mmAllocateKernelMemory m.live supply.block = some buf) (addr siz attr flag : UInt32) :
    allocateArea m supply addr siz attr flag =
      (allocateVma (m.withBlock buf supply.stale) buf addr siz attr flag).elim
        (0, ⟨m.withBlock buf supply.stale, m.live⟩) fun r => (r.1, ⟨r.2, buf :: m.live⟩) := by
  simp only [allocateArea, VirtualMemory.step, hb, mmAllocateVirtualMemory, Option.elim_some]
  cases allocateVma (m.withBlock buf supply.stale) buf addr siz attr flag <;> rfl

/-- Only a request that passes all tests is accepted. -/
lemma not_refused {placing : VirtualMemory.State} {buf : Ptr} {addr siz attr flag : UInt32}
    {r : UInt32 × VirtualMemory.State}
    (hr : allocateVma placing buf addr siz attr flag = some r) :
    ¬(siz < PAGE_SIZE ∨ siz % PAGE_SIZE ≠ 0) ∧ ¬Refused placing addr siz flag := by
  rw [allocateVma] at hr
  split_ifs at hr with hsize
  obtain ⟨r', hp, -⟩ := Option.map_eq_some_iff.mp hr
  exact ⟨hsize, (placeVma_some hp).1⟩

/-- A request leaves its space in order. -/
lemma Kept.request (h : Kept s) {supply : Supply} {addr siz flag : UInt32} (pattr : UInt32)
    (hok : RequestOk s supply addr siz flag) :
    Kept (mmAllocateUserMemoryAddress s supply addr siz pattr flag).2 := by
  by_cases hcap : s.info.userMemoryAllocated + siz.toInt32 > s.info.userMemoryCapacity
  · simp only [mmAllocateUserMemoryAddress, setAllocated, if_pos hcap, Int32.add_sub_cancel]
    exact h
  have hok := hok.resolve_left hcap
  have hallowed : ¬s.info.userMemoryAllocated + siz.toInt32 >
      (setAllocated s.info (s.info.userMemoryAllocated + siz.toInt32)).userMemoryCapacity := hcap
  cases hb : mmAllocateKernelMemory s.memory.live supply.block with
  | none =>
    simp only [mmAllocateUserMemoryAddress, if_neg hallowed, allocateArea_none hb, if_true,
      setAllocated_back]
    exact h
  | some buf =>
    have hbuf := not_mem_of_allocated hb
    have hblock := h.withBlock hbuf supply.stale
    simp only [mmAllocateUserMemoryAddress, if_neg hallowed, allocateArea_some hb]
    cases hr : allocateVma (s.memory.withBlock buf supply.stale) buf addr siz
        (pattr ||| (Paging.PAGE_ATTR_USER ||| Paging.PAGE_ATTR_PRESENT)) flag with
    | none =>
      simp only [Option.elim_none, if_true, setAllocated_back]
      exact hblock
    | some r =>
      obtain ⟨hsize, hplace⟩ := not_refused hr
      have haccepted : AcceptedOk (s.memory.withBlock buf supply.stale) buf
          s.info.userMemoryAllocated supply.frames addr siz flag := by
        rcases hok buf hb with hc | hc | hc | hc
        · exact absurd (.inl hc) hsize
        · exact absurd (.inr hc) hsize
        · exact absurd hc hplace
        · exact hc
      obtain ⟨xs, hperm, hxs⟩ := hblock.listed
      have hnew : buf ∉ xs := fun hm => hbuf (hperm.mem_iff.mp hm)
      have hplaced := hxs.allocate hnew haccepted.link hr
      have hne : r.1 ≠ 0 := by
        rw [hplaced.addr_eq]
        exact haccepted.address
      rw [Option.elim_some, if_neg hne]
      split_ifs with hneg
      · have hlarge := hneg.le
        have hpos := h.allocated_eq
        rcases haccepted.count with hc | ⟨-, hfound⟩
        · omega
        · exact hblock.givenBack hbuf hperm hxs hplaced hfound
      · have hcount := haccepted.count.resolve_right fun hc => hneg hc.1
        exact hblock.charged_kept hbuf hperm hplaced hcap hcount

lemma step_kept (s : State) (e : Event) (h : Kept s) (hok : StepOk s e) : Kept (step s e) := by
  cases e with
  | allocateAddress supply addr siz pattr flag => exact h.request pattr hok
  | allocate supply siz attr flag => exact h.request attr hok
  | free p => exact h.free p

end Calls

/-! ## Runs -/

lemma started_kept (heap : Ptr → KVirtualMemoryAllocation) : Kept (started heap) :=
  ⟨⟨[], .refl _, ⟨.nil, .inl rfl⟩⟩, rfl, Nat.zero_le _, rfl⟩

/-- In a run whose requests all meet the condition, in every state the count is the sum of the sizes
of the areas. -/
theorem run_quotaKept (heap : Ptr → KVirtualMemoryAllocation) (es : List Event)
    (hok : Guarded step StepOk (started heap) es) :
    ∀ fs, fs <+: es → QuotaKept (run step (started heap) fs) := by
  rintro fs ⟨gs, rfl⟩
  rw [guarded_append] at hok
  exact (hok.1.invariant Kept step_kept (started_kept heap)).quotaKept

/-- A block that has held nothing, and pages enough. -/
def freshAt (p : Ptr) : Supply := ⟨some p, emptyNode, 1048576⟩

/-- An area placed from below, one at a fixed address behind it, and the release of the first. -/
def twoAreas : List Event :=
  [.allocate (freshAt 16) 0x2000 2 0, .allocateAddress (freshAt 40) 0x400000 0x1000 2 0,
    .free 0x100000]

theorem run_quotaKept_twoAreas :
    QuotaKept (run step (started fun _ => emptyNode) twoAreas) := by
  refine run_quotaKept _ twoAreas ⟨.inr fun buf hbuf => ?_, .inr fun buf hbuf => ?_, trivial,
    trivial⟩ _ (List.prefix_refl _)
  · obtain rfl : 16 = buf := Option.some.inj hbuf
    refine .inr (.inr (.inr ⟨⟨fun hfront => ?_, fun _ _ _ => rfl⟩, ?_, .inl ?_⟩))
    · exact absurd hfront.2.1 (by decide)
    · decide +kernel
    · decide +kernel
  · obtain rfl : 40 = buf := Option.some.inj hbuf
    refine .inr (.inr (.inr ⟨⟨fun hfront => ?_, fun _ _ hnone => ?_⟩, ?_, .inl ?_⟩))
    · exact absurd hfront.1 (by decide)
    · revert hnone
      decide +kernel
    · decide +kernel
    · decide +kernel

/-- A request of 2GB makes the count negative, and passes the limit. -/
theorem not_run_quotaKept : ¬ ∀ (heap : Ptr → KVirtualMemoryAllocation) (es fs : List Event),
    fs <+: es → QuotaKept (run step (started heap) fs) := by
  intro h
  have hcount := (h (fun _ => emptyNode) [.allocate (freshAt 16) 0x80000000 2 ALLOC_VIRTUAL] _
    (List.prefix_refl _)).allocated_eq
  revert hcount
  decide +kernel

end Sgos.UserMemory
