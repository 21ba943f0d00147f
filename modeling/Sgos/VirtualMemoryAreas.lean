import Sgos.IntervalList
import Sgos.VirtualMemoryLists

/-!
# Areas stay apart

The invariant of the area list, what each placement needs to keep it, and the runs that keep it.
-/
namespace Sgos.VirtualMemory
open GuardedRun IntervalList LinkedChain State

/-- An area list in address order, inside the limits, without overlap. -/
structure AreaList (s : State) (xs : List Ptr) : Prop where
  links : Links s xs
  apart : Apart s.beg s.fin xs
  lower : ∀ x ∈ xs, s.vm.lowerLimit.toNat ≤ s.beg x
  upper : ∀ x ∈ xs, s.fin x ≤ s.vm.upperLimit.toNat

/-- A node of the list, as a walk from `FirstAllocation` finds it. -/
def Recorded (s : State) (x : Ptr) : Prop := Reaches s.next s.vm.firstAllocation x

/-- The recorded areas lie inside the limits, end before they wrap, and do not overlap. -/
structure AreasApart (s : State) : Prop where
  within : ∀ x, Recorded s x →
    s.vm.lowerLimit.toNat ≤ s.beg x ∧ s.fin x ≤ s.vm.upperLimit.toNat
  disjoint : ∀ x y, Recorded s x → Recorded s y → x ≠ y →
    s.fin x ≤ s.beg y ∨ s.fin y ≤ s.beg x

theorem State.beg_le_fin (s : State) (x : Ptr) : s.beg x ≤ s.fin x := Nat.le_add_right _ _

section
variable {s : State} {xs : List Ptr}

theorem AreaList.recorded_iff (h : AreaList s xs) {x : Ptr} : Recorded s x ↔ x ∈ xs :=
  h.links.chain.reaches_iff

theorem AreaList.areasApart (h : AreaList s xs) : AreasApart s := by
  constructor
  · intro x hx
    rw [h.recorded_iff] at hx
    exact ⟨h.lower x hx, h.upper x hx⟩
  · intro x y hx hy hne
    rw [h.recorded_iff] at hx hy
    exact h.apart.disjoint hx hy hne

theorem AreaList.fin_lt (h : AreaList s xs) {x : Ptr} (hx : x ∈ xs) : s.fin x < addressSpace :=
  (h.upper x hx).trans_lt s.vm.upperLimit.toNat_lt

/-- Below the upper limit the 32-bit end of an area is its end. -/
theorem AreaList.toNat_end (h : AreaList s xs) {x : Ptr} (hx : x ∈ xs) :
    (areaEnd s x).toNat = s.fin x :=
  toNat_add_of_lt (h.fin_lt hx)

theorem AreaList.length_le (h : AreaList s xs) : xs.length ≤ addressSpace :=
  nodup_length_le h.links.chain.nodup

end

/-! ## The searches -/

section Searches
variable {s : State} {size : UInt32}

/-- If a gap has room, or there is room above the top before the address space ends, no sum the
bottom-up loop forms wraps. -/
theorem lowWalk_noWrap {xs : List Ptr} {a : UInt32} (h : Apart s.beg s.fin xs)
    (hend : ∀ x ∈ xs, (areaEnd s x).toNat = s.fin x)
    (ha : ∀ x ∈ xs, a.toNat ≤ s.beg x)
    (hroom : RoomBelow s.beg s.fin size.toNat a.toNat xs ∨
      top s.fin a.toNat xs + size.toNat < addressSpace) :
    (walkList (fitsBelow s size) (fun _ x => areaEnd s x) a xs).1.toNat + size.toNat <
      addressSpace := by
  have hle : ∀ x ∈ xs, s.beg x ≤ s.fin x := fun x _ => s.beg_le_fin x
  have hfit : a.toNat + size.toNat < addressSpace := by
    rcases hroom with hr | hr
    · exact hr.lt h hle ha fun x _ => (s.heap x).virtualAddress.toNat_lt
    · exact (Nat.add_le_add_right (le_top h hle ha) _).trans_lt hr
  induction xs generalizing a with
  | nil => exact hfit
  | cons x xs ih =>
    obtain ⟨hx, hxs⟩ := List.pairwise_cons.mp h
    have hfin := hend x (by simp)
    rw [walkList]
    split_ifs with hstop
    · exact hfit
    · have hno : ¬ a.toNat + size.toNat ≤ s.beg x := by
        intro hc
        refine hstop (decide_eq_true ?_)
        rw [ge_iff_le, UInt32.le_iff_toNat_le, toNat_add_of_lt hfit]
        exact hc
      have hroom' : RoomBelow s.beg s.fin size.toNat (s.fin x) xs ∨
          top s.fin (s.fin x) xs + size.toNat < addressSpace :=
        hroom.imp_left fun hr => hr.resolve_left hno
      rw [← hfin] at hroom' hx
      refine ih hxs (fun y hy => hend y (by simp [hy])) hx hroom'
        (fun y _ => s.beg_le_fin y) ?_
      rcases hroom' with hr | hr
      · exact hr.lt hxs (fun y _ => s.beg_le_fin y) hx fun y _ =>
          (s.heap y).virtualAddress.toNat_lt
      · exact (Nat.add_le_add_right (le_top hxs (fun y _ => s.beg_le_fin y) hx) _).trans_lt hr

theorem toNat_foldl_end {xs : List Ptr} {a : UInt32}
    (hend : ∀ x ∈ xs, (areaEnd s x).toNat = s.fin x) :
    (xs.foldl (fun _ x => areaEnd s x) a).toNat = top s.fin a.toNat xs := by
  induction xs generalizing a with
  | nil => rfl
  | cons x xs ih =>
    rw [List.foldl_cons, ih (fun y hy => hend y (by simp [hy])), hend x (by simp), top_cons]

/-- Where the bottom-up loop ends: at the top of a prefix of the list, before the rest. -/
theorem lowSearch_spec {xs : List Ptr} (h : AreaList s xs)
    (hroom : RoomBelow s.beg s.fin size.toNat s.vm.lowerLimit.toNat xs ∨
      top s.fin s.vm.lowerLimit.toNat xs + size.toNat < addressSpace) :
    ∃ pre post, xs = pre ++ post ∧ (lowSearch s size).2 = post.head? ∧
      (lowSearch s size).1.toNat = top s.fin s.vm.lowerLimit.toNat pre ∧
      (lowSearch s size).1.toNat + size.toNat < addressSpace ∧
      ∀ y, post.head? = some y → (lowSearch s size).1.toNat + size.toNat ≤ s.beg y := by
  have hw : lowSearch s size =
      walkList (fitsBelow s size) (fun _ x => areaEnd s x) s.vm.lowerLimit xs := by
    rw [lowSearch, h.links.chain.head_eq]
    exact walk_eq_walkList h.links.chain.linked h.length_le _
  have hno := lowWalk_noWrap h.apart (fun x hx => h.toNat_end hx) h.lower hroom
  rw [← hw] at hno
  rcases walkList_cases _ _ s.vm.lowerLimit xs with ⟨pre, x, post, rfl, hstop, he⟩ | he
  · rw [he] at hw
    refine ⟨pre, x :: post, rfl, by rw [hw]; rfl, ?_, hno, ?_⟩
    · rw [hw]
      exact toNat_foldl_end fun y hy => h.toNat_end (by simp [hy])
    · rintro y hy
      obtain rfl : x = y := by simpa using hy
      rw [hw] at hno ⊢
      have hle := UInt32.le_iff_toNat_le.mp (of_decide_eq_true hstop)
      rwa [toNat_add_of_lt hno] at hle
  · rw [he] at hw
    refine ⟨xs, [], by simp, by rw [hw]; rfl, ?_, hno, by simp⟩
    rw [hw]
    exact toNat_foldl_end fun y hy => h.toNat_end hy

/-- If a gap has room, or there is room below the lowest area, no difference the top-down loop
forms wraps. The list is the one the loop meets, from the last area on. -/
theorem highWalk_noWrap {xs : List Ptr} {b : UInt32}
    (h : xs.Pairwise fun x y => s.fin y ≤ s.beg x)
    (hend : ∀ x ∈ xs, (areaEnd s x).toNat = s.fin x)
    (hb : ∀ x ∈ xs, s.fin x ≤ b.toNat)
    (hroom : RoomAbove s.beg s.fin size.toNat b.toNat xs ∨
      size.toNat ≤ bottom s.beg b.toNat xs) :
    ∃ pre post, xs = pre ++ post ∧
      (walkList (fitsAbove s) (fun _ x => (s.heap x).virtualAddress - size) (b - size) xs).2 = post.head? ∧
      (walkList (fitsAbove s) (fun _ x => (s.heap x).virtualAddress - size) (b - size) xs).1.toNat + size.toNat =
          bottom s.beg b.toNat pre ∧
      (∀ y, post.head? = some y → s.fin y + size.toNat ≤ bottom s.beg b.toNat pre) ∧
      (post = [] → ¬ RoomAbove s.beg s.fin size.toNat b.toNat xs) := by
  have hle : ∀ x ∈ xs, s.beg x ≤ s.fin x := fun x _ => s.beg_le_fin x
  have hfit : size.toNat ≤ b.toNat := by
    rcases hroom with hr | hr
    · exact hr.le h hle hb
    · exact hr.trans (bottom_le h hle hb)
  have hdiff : (b - size).toNat = b.toNat - size.toNat :=
    toNat_sub_of_le hfit
  induction xs generalizing b with
  | nil =>
    refine ⟨[], [], rfl, rfl, ?_, by simp, fun _ => id⟩
    simp only [walkList, bottom_nil, hdiff]
    omega
  | cons x xs ih =>
    obtain ⟨hx, hxs⟩ := List.pairwise_cons.mp h
    have hstop : fitsAbove s (b - size) x = decide (s.fin x + size.toNat ≤ b.toNat) := by
      rw [fitsAbove, decide_eq_decide, UInt32.le_iff_toNat_le, hend x (by simp), hdiff]
      omega
    by_cases hs : s.fin x + size.toNat ≤ b.toNat
    · refine ⟨[], x :: xs, rfl, ?_, ?_, ?_, by simp⟩
      · simp [walkList, hstop, hs]
      · simp only [walkList, hstop, hs, decide_true, if_true, bottom_nil, hdiff]
        omega
      · intro y hy
        obtain rfl : x = y := by simpa using hy
        exact hs
    · have hroom' : RoomAbove s.beg s.fin size.toNat (s.beg x) xs ∨
          size.toNat ≤ bottom s.beg (s.beg x) xs := hroom.imp_left fun hr => hr.resolve_left hs
      have hfit' : size.toNat ≤ s.beg x := by
        rcases hroom' with hr | hr
        · exact hr.le hxs (fun y _ => s.beg_le_fin y) hx
        · exact hr.trans (bottom_le hxs (fun y _ => s.beg_le_fin y) hx)
      obtain ⟨pre, post, rfl, h2, h1, h3, h4⟩ :=
        @ih (s.heap x).virtualAddress hxs (fun y hy => hend y (by simp [hy])) hx hroom'
          (fun y _ => s.beg_le_fin y) hfit'
          (toNat_sub_of_le hfit')
      refine ⟨x :: pre, post, rfl, ?_, ?_, h3, ?_⟩
      · simpa [walkList, hstop, hs] using h2
      · rw [walkList, hstop, decide_eq_false hs, bottom_cons]
        exact h1
      · rintro hp (hr | hr)
        · exact hs hr
        · exact h4 hp hr

end Searches

/-! ## What the link writes keep -/

section Keep
variable {s s' : State} {v : Ptr}

/-- The old contents of a block outside the list do not matter. -/
theorem AreaList.write {xs : List Ptr} (h : AreaList s xs) (hv : v ∉ xs)
    (k : KVirtualMemoryAllocation) : AreaList (s.write v k) xs := by
  have heap : ∀ x ∈ xs, (s.write v k).heap x = s.heap x := fun x hx =>
    Function.update_of_ne (ne_of_mem_of_not_mem hx hv) _ _
  have hb : ∀ x ∈ xs, (s.write v k).beg x = s.beg x := fun x hx => by simp [beg, heap x hx]
  have hf : ∀ x ∈ xs, (s.write v k).fin x = s.fin x := fun x hx => by simp [fin, heap x hx]
  refine ⟨⟨h.links.chain.congr ?_ ?_, h.links.last_eq⟩, ?_, ?_, ?_⟩
  · exact fun x hx => by simp [State.next, heap x hx]
  · exact fun x hx => by simp [State.prev, heap x hx]
  · refine List.Pairwise.imp_of_mem (fun {x y} hx hy hxy => ?_) h.apart
    rwa [hf x hx, hb y hy]
  · exact fun x hx => by rw [hb x hx]; exact h.lower x hx
  · exact fun x hx => by rw [hf x hx]; exact h.upper x hx

/-- A node linked in between areas that leave room for it extends the list. -/
theorem AreaList.placed {pre post : List Ptr} (h : AreaList s (pre ++ post))
    (hv : v ∉ pre ++ post) (hsame : SameAreas s s') (hlinks : Links s' (pre ++ v :: post))
    {addr size : UInt32} (attr flag : UInt32)
    (hlow : s.vm.lowerLimit.toNat ≤ addr.toNat)
    (hup : addr.toNat + size.toNat ≤ s.vm.upperLimit.toNat)
    (hpre : ∀ y, pre.getLast? = some y → s.fin y ≤ addr.toNat)
    (hpost : ∀ y, post.head? = some y → addr.toNat + size.toNat ≤ s.beg y) :
    AreaList (s'.setArea v addr size attr flag) (pre ++ v :: post) := by
  have hne : ∀ x ∈ pre ++ post, x ≠ v := fun x hx => ne_of_mem_of_not_mem hx hv
  have hmem : ∀ x, x ∈ pre ++ v :: post → x = v ∨ x ∈ pre ++ post := by
    intro x hx
    rcases List.mem_append.mp hx with hx | hx
    · exact .inr (by simp [hx])
    · rcases List.mem_cons.mp hx with hx | hx
      · exact .inl hx
      · exact .inr (by simp [hx])
  refine ⟨⟨by simpa using hlinks.chain, by simpa using hlinks.last_eq⟩, ?_, ?_, ?_⟩
  · refine h.apart.insert (fun x _ => s.beg_le_fin x) ?_ ?_ ?_ ?_
    · exact fun x hx => by simp [Function.update_of_ne (hne x hx), hsame.beg]
    · exact fun x hx => by simp [Function.update_of_ne (hne x hx), hsame.fin]
    · exact fun y hy => by simpa using hpre y hy
    · exact fun y hy => by simpa using hpost y hy
  · intro x hx
    rw [setArea_vm, hsame.lower, setArea_beg, hsame.beg]
    rcases hmem x hx with rfl | hx
    · simpa using hlow
    · rw [Function.update_of_ne (hne x hx)]
      exact h.lower x hx
  · intro x hx
    rw [setArea_vm, hsame.upper, setArea_fin, hsame.fin]
    rcases hmem x hx with rfl | hx
    · simpa using hup
    · rw [Function.update_of_ne (hne x hx)]
      exact h.upper x hx

theorem AreaList.removed {xs : List Ptr} (h : AreaList s xs) (hv : v ∈ xs) :
    AreaList (removeVma s v) (xs.erase v) := by
  have hsame := removeVma_sameAreas s v
  have hsub : (xs.erase v).Sublist xs := List.erase_sublist
  refine ⟨removeVma_links h.links hv, ?_, ?_, ?_⟩
  · rw [hsame.beg, hsame.fin]
    exact List.Pairwise.sublist hsub h.apart
  · intro x hx
    rw [hsame.beg, hsame.lower]
    exact h.lower x (hsub.mem hx)
  · intro x hx
    rw [hsame.fin, hsame.upper]
    exact h.upper x (hsub.mem hx)

end Keep

/-! ## When a placement is sound -/

/-- The end of an area, or the lower limit where there is none. -/
def endOr (s : State) (p : Option Ptr) : ℕ := (p.map s.fin).getD s.vm.lowerLimit.toNat

/-- The start of an area, or the upper limit where there is none. -/
def startOr (s : State) (p : Option Ptr) : ℕ := (p.map s.beg).getD s.vm.upperLimit.toNat

/-- A bottom-up request: some gap below an area has room, or counting `size` up from the last
area stays in the address space. -/
def LowOk (s : State) (size : UInt32) : Prop :=
  (∃ x, Recorded s x ∧ endOr s (s.prev x) + size.toNat ≤ s.beg x) ∨
    endOr s s.vm.lastAllocation + size.toNat < addressSpace

/-- A top-down request: some gap above an area has room; or counting `size` down from the first
area stays above zero, and then the request is refused, or the list is not empty and the old
`prev` field of the new node is null. -/
def HighOk (s : State) (buf : Ptr) (size : UInt32) : Prop :=
  (∃ x, Recorded s x ∧ s.fin x + size.toNat ≤ startOr s (s.next x)) ∨
    size.toNat ≤ startOr s s.vm.firstAllocation ∧
      (startOr s s.vm.firstAllocation - size.toNat < s.vm.lowerLimit.toNat ∨
        s.vm.firstAllocation ≠ none ∧ s.prev buf = none)

/-- The tests by which a fixed-address request is refused. -/
def FixedRefused (s : State) (addr size : UInt32) : Prop :=
  addr < s.vm.lowerLimit ∨ addr + size > s.vm.upperLimit ∨
    ∃ x, fixedSearch s addr = some x ∧ addr + size > (s.heap x).virtualAddress

/-- A fixed-address request: it is refused, or it stays in the address space and does not start
inside a recorded area. -/
def FixedOk (s : State) (addr size : UInt32) : Prop :=
  FixedRefused s addr size ∨
    addr.toNat + size.toNat < addressSpace ∧
      ∀ x, Recorded s x → ¬ (s.beg x < addr.toNat ∧ addr.toNat < s.fin x)

def AllocateOk (s : State) (buf : Ptr) (addr size flag : UInt32) : Prop :=
  size < PAGE_SIZE ∨ size % PAGE_SIZE ≠ 0 ∨
    if flag &&& ALLOC_RANDOM ≠ 0 then
      if flag &&& ALLOC_HIGHMEM ≠ 0 then HighOk s buf size else LowOk s size
    else FixedOk s addr size

section Placement
variable {s : State} {v : Ptr}

theorem roomBelow_of_gap {xs : List Ptr} {before : Option Ptr} {n : ℕ}
    (h : Linked s.next s.prev before xs none) {x : Ptr} (hx : x ∈ xs)
    (hgap : endOr s (s.prev x) + n ≤ s.beg x) :
    RoomBelow s.beg s.fin n (endOr s before) xs := by
  induction xs generalizing before with
  | nil => simp at hx
  | cons z xs ih =>
    obtain ⟨hprev, _, hrest⟩ := h
    rcases List.mem_cons.mp hx with rfl | hx
    · left
      rwa [hprev] at hgap
    · exact .inr (ih hrest hx)

theorem roomAbove_of_gap {xs : List Ptr} {after : Option Ptr} {n : ℕ}
    (h : Linked s.prev s.next after xs none) {x : Ptr} (hx : x ∈ xs)
    (hgap : s.fin x + n ≤ startOr s (s.next x)) :
    RoomAbove s.beg s.fin n (startOr s after) xs := by
  induction xs generalizing after with
  | nil => simp at hx
  | cons z xs ih =>
    obtain ⟨hnext, _, hrest⟩ := h
    rcases List.mem_cons.mp hx with rfl | hx
    · left
      rwa [hnext] at hgap
    · exact .inr (ih hrest hx)

theorem AreaList.endOr_last {xs : List Ptr} (h : AreaList s xs) :
    endOr s s.vm.lastAllocation = top s.fin s.vm.lowerLimit.toNat xs := by
  rw [h.links.last_eq]
  cases hl : xs.getLast? with
  | none => rw [List.getLast?_eq_none_iff.mp hl]; rfl
  | some y => rw [top_eq_of_last hl]; rfl

theorem AreaList.startOr_first {xs : List Ptr} (h : AreaList s xs) :
    startOr s s.vm.firstAllocation = bottom s.beg s.vm.upperLimit.toNat xs.reverse := by
  rw [h.links.chain.head_eq]
  cases hl : xs.head? with
  | none => rw [List.head?_eq_none_iff.mp hl]; rfl
  | some y =>
    have hlast : xs.reverse.getLast? = some y := by rw [List.getLast?_reverse, hl]
    rw [bottom_eq_of_last hlast]
    rfl

/-- What a successful placement leaves: the list with the new node in it. -/
def Placed (v : Ptr) (xs : List Ptr) (size attr flag : UInt32)
    (r : UInt32 × State) : Prop :=
  ∃ pre post, xs = pre ++ post ∧
    AreaList (r.2.setArea v r.1 size attr flag) (pre ++ v :: post)

theorem placeLow {xs : List Ptr} (h : AreaList s xs) (hv : v ∉ xs) {size : UInt32}
    (hok : LowOk s size) {addr flag attr : UInt32} {r : UInt32 × State}
    (hr : flag &&& ALLOC_RANDOM ≠ 0) (hh : ¬ flag &&& ALLOC_HIGHMEM ≠ 0)
    (hp : placeVma s v addr size flag = some r) : Placed v xs size attr flag r := by
  have hroom : RoomBelow s.beg s.fin size.toNat s.vm.lowerLimit.toNat xs ∨
      top s.fin s.vm.lowerLimit.toNat xs + size.toNat < addressSpace := by
    rcases hok with ⟨x, hx, hgap⟩ | htop
    · exact .inl (roomBelow_of_gap h.links.chain.linked (h.recorded_iff.mp hx) hgap)
    · exact .inr (by rwa [← h.endOr_last])
  obtain ⟨pre, post, rfl, hcur, haddr, hlt, hpost⟩ := lowSearch_spec h hroom
  simp only [placeVma, if_pos hr, if_neg hh] at hp
  have hsum := toNat_add_of_lt hlt
  have hpre : ∀ y, pre.getLast? = some y → s.fin y ≤ (lowSearch s size).1.toNat := by
    intro y hy
    rw [haddr, top_eq_of_last hy]
  have hlow : s.vm.lowerLimit.toNat ≤ (lowSearch s size).1.toNat := by
    rw [haddr]
    exact le_top (List.pairwise_append.mp h.apart).1 (fun x _ => s.beg_le_fin x)
      fun x hx => h.lower x (by simp [hx])
  have hlinks := insertPreviousVma_links h.links hv
  have hsame := insertPreviousVma_sameAreas s v post.head?
  rw [show lowSearch s size = ((lowSearch s size).1, (lowSearch s size).2) from rfl, hcur] at hp
  cases post with
  | nil =>
    simp only [List.head?_nil] at hp
    split_ifs at hp with hup
    obtain rfl := Option.some.inj hp
    refine ⟨pre, [], rfl, h.placed hv hsame hlinks attr flag hlow ?_ hpre hpost⟩
    rw [gt_iff_lt, UInt32.lt_iff_toNat_lt, hsum] at hup
    exact not_lt.mp hup
  | cons y ys =>
    obtain rfl := Option.some.inj hp
    refine ⟨pre, y :: ys, rfl, h.placed hv hsame hlinks attr flag hlow ?_ hpre hpost⟩
    exact (hpost y rfl).trans ((s.beg_le_fin y).trans (h.upper y (by simp)))

/-- Where the top-down loop ends: below the bottom of a suffix of the list, above the rest. -/
theorem highSearch_spec {xs : List Ptr} (h : AreaList s xs) {size : UInt32}
    (hroom : RoomAbove s.beg s.fin size.toNat s.vm.upperLimit.toNat xs.reverse ∨
      size.toNat ≤ bottom s.beg s.vm.upperLimit.toNat xs.reverse) :
    ∃ pre post, xs = pre ++ post ∧ (highSearch s size).2 = pre.getLast? ∧
      (highSearch s size).1.toNat + size.toNat =
        bottom s.beg s.vm.upperLimit.toNat post.reverse ∧
      (∀ y, pre.getLast? = some y →
        s.fin y + size.toNat ≤ bottom s.beg s.vm.upperLimit.toNat post.reverse) ∧
      (pre = [] → ¬ RoomAbove s.beg s.fin size.toNat s.vm.upperLimit.toNat xs.reverse) := by
  have hlen : xs.reverse.length ≤ addressSpace := by simpa using h.length_le
  have hw : highSearch s size =
      walkList (fitsAbove s) (fun _ x => (s.heap x).virtualAddress - size)
        (s.vm.upperLimit - size) xs.reverse := by
    rw [highSearch, h.links.last_eq, ← List.head?_reverse]
    exact walk_eq_walkList h.links.chain.linked.reverse hlen _
  obtain ⟨post, pre, hxs, hcur, haddr, hfit, hno⟩ :=
    @highWalk_noWrap s size xs.reverse s.vm.upperLimit
      (List.pairwise_reverse.mpr h.apart) (fun x hx => h.toNat_end (List.mem_reverse.mp hx))
      (fun x hx => h.upper x (List.mem_reverse.mp hx)) hroom
  rw [← hw] at hcur haddr
  refine ⟨pre.reverse, post.reverse, ?_, ?_, ?_, ?_, ?_⟩
  · rw [← List.reverse_append, ← hxs, List.reverse_reverse]
  · rwa [List.getLast?_reverse]
  · rwa [List.reverse_reverse]
  · intro y hy
    rw [List.getLast?_reverse] at hy
    rw [List.reverse_reverse]
    exact hfit y hy
  · exact fun he => hno (List.reverse_eq_nil_iff.mp he)

theorem placeHigh {xs : List Ptr} (h : AreaList s xs) (hv : v ∉ xs) {size : UInt32}
    (hok : HighOk s v size) {addr flag attr : UInt32} {r : UInt32 × State}
    (hr : flag &&& ALLOC_RANDOM ≠ 0) (hh : flag &&& ALLOC_HIGHMEM ≠ 0)
    (hp : placeVma s v addr size flag = some r) : Placed v xs size attr flag r := by
  have hgap : (∃ x, Recorded s x ∧ s.fin x + size.toNat ≤ startOr s (s.next x)) →
      RoomAbove s.beg s.fin size.toNat s.vm.upperLimit.toNat xs.reverse := by
    rintro ⟨x, hx, hroom⟩
    exact roomAbove_of_gap h.links.chain.linked.reverse
      (List.mem_reverse.mpr (h.recorded_iff.mp hx)) hroom
  have hroom : RoomAbove s.beg s.fin size.toNat s.vm.upperLimit.toNat xs.reverse ∨
      size.toNat ≤ bottom s.beg s.vm.upperLimit.toNat xs.reverse :=
    hok.imp hgap fun hbelow => by rw [← h.startOr_first]; exact hbelow.1
  obtain ⟨pre, post, rfl, hcur, haddr, hfit, hno⟩ := highSearch_spec h hroom
  simp only [placeVma, if_pos hr, if_pos hh] at hp
  have hbottom : bottom s.beg s.vm.upperLimit.toNat post.reverse ≤ s.vm.upperLimit.toNat :=
    bottom_le (List.pairwise_reverse.mpr (List.pairwise_append.mp h.apart).2.1)
      (fun x _ => s.beg_le_fin x)
      fun x hx => h.upper x (by simp [List.mem_reverse.mp hx])
  have hpost : ∀ y, post.head? = some y →
      (highSearch s size).1.toNat + size.toNat ≤ s.beg y := by
    intro y hy
    rw [← List.getLast?_reverse] at hy
    rw [haddr, bottom_eq_of_last hy]
  rw [show highSearch s size = ((highSearch s size).1, (highSearch s size).2) from rfl, hcur] at hp
  cases hpre : pre.getLast? with
  | some y =>
    obtain ⟨ys, rfl⟩ := List.getLast?_eq_some_iff.mp hpre
    have hchain : Chain s.next s.prev s.vm.firstAllocation (ys ++ y :: post) := by
      simpa using h.links.chain
    have hnext : s.next y = post.head? := hchain.next_eq
    have hfit := hfit y hpre
    simp only [hpre, hnext] at hp
    obtain rfl := Option.some.inj hp
    have hlow : s.vm.lowerLimit.toNat ≤ s.fin y :=
      (h.lower y (by simp)).trans (s.beg_le_fin y)
    refine ⟨ys ++ [y], post, rfl, h.placed hv (insertPreviousVma_sameAreas s v post.head?)
      (insertPreviousVma_links h.links hv) attr flag ?_ ?_ ?_ hpost⟩
    · dsimp only; omega
    · dsimp only; omega
    · intro z hz
      obtain rfl : y = z := Option.some.inj (hpre.symm.trans hz)
      dsimp only; omega
  | none =>
    obtain rfl := List.getLast?_eq_none_iff.mp hpre
    simp only [hpre] at hp
    split_ifs at hp with hlow
    obtain rfl := Option.some.inj hp
    rw [UInt32.lt_iff_toNat_lt] at hlow
    have hfirst := h.startOr_first
    obtain ⟨hne, hprev⟩ : s.vm.firstAllocation ≠ none ∧ s.prev v = none := by
      rcases hok with hg | ⟨hle, hlt | hok⟩
      · exact absurd (hgap hg) (hno rfl)
      · simp only [List.nil_append] at hfirst
        omega
      · exact hok
    exact ⟨[], post, rfl, h.placed hv (insertFirstVma_sameAreas s v)
      (insertFirstVma_links h.links hv hne hprev) attr flag (not_lt.mp hlow)
      (by dsimp only; omega) (by simp) hpost⟩

theorem placeFixed {xs : List Ptr} (h : AreaList s xs) (hv : v ∉ xs) {addr size : UInt32}
    (hok : FixedOk s addr size) {flag attr : UInt32} {r : UInt32 × State}
    (hr : ¬ flag &&& ALLOC_RANDOM ≠ 0)
    (hp : placeVma s v addr size flag = some r) : Placed v xs size attr flag r := by
  simp only [placeVma, if_neg hr] at hp
  split_ifs at hp with hlim
  obtain ⟨hlow, hup⟩ := not_or.mp hlim
  have hfind : fixedSearch s addr =
      xs.find? fun x => !decide ((s.heap x).virtualAddress < addr) := by
    rw [fixedSearch, h.links.chain.head_eq]
    exact search_eq_find h.links.chain.linked h.length_le
  obtain ⟨hlt, hin⟩ : addr.toNat + size.toNat < addressSpace ∧
      ∀ x, Recorded s x → ¬ (s.beg x < addr.toNat ∧ addr.toNat < s.fin x) := by
    rcases hok with (hl | hu | ⟨x, hx, hgt⟩) | hok
    · exact absurd hl hlow
    · exact absurd hu hup
    · simp [hx, hgt] at hp
    · exact hok
  have hsum := toNat_add_of_lt hlt
  rw [UInt32.lt_iff_toNat_lt, not_lt] at hlow
  rw [gt_iff_lt, UInt32.lt_iff_toNat_lt, not_lt, hsum] at hup
  -- the areas the loop passes start below `addr`, and so end there at the latest
  have hbelow : ∀ pre post, xs = pre ++ post → (∀ y ∈ pre, (s.heap y).virtualAddress < addr) →
      ∀ y, pre.getLast? = some y → s.fin y ≤ addr.toNat := by
    rintro pre post rfl hpass y hy
    have hmem := List.mem_of_getLast? hy
    have hstart := UInt32.lt_iff_toNat_lt.mp (hpass y hmem)
    exact not_lt.mp fun hc => hin y (h.recorded_iff.mpr (by simp [hmem])) ⟨hstart, hc⟩
  cases hx : fixedSearch s addr with
  | none =>
    rw [hx] at hp hfind
    obtain rfl := Option.some.inj hp
    have hpass : ∀ y ∈ xs, (s.heap y).virtualAddress < addr := by
      intro y hy
      simpa using List.find?_eq_none.mp hfind.symm y hy
    have hxs : xs = xs ++ [] := (List.append_nil xs).symm
    rw [hxs] at h hv
    exact ⟨xs, [], hxs, h.placed hv (insertPreviousVma_sameAreas s v none)
      (insertPreviousVma_links h.links hv) attr flag hlow hup (hbelow xs [] hxs hpass) (by simp)⟩
  | some x =>
    rw [hx] at hp hfind
    simp only [gt_iff_lt] at hp
    split_ifs at hp with hgt
    obtain rfl := Option.some.inj hp
    obtain ⟨_, pre, post, rfl, hpass⟩ := List.find?_eq_some_iff_append.mp hfind.symm
    rw [UInt32.lt_iff_toNat_lt, not_lt, hsum] at hgt
    refine ⟨pre, x :: post, rfl, h.placed hv (insertPreviousVma_sameAreas s v (some x))
      (insertPreviousVma_links h.links hv) attr flag hlow hup
      (hbelow pre (x :: post) rfl fun y hy => by simpa using hpass y hy) ?_⟩
    intro y hy
    obtain rfl : x = y := by simpa using hy
    exact hgt

end Placement

end Sgos.VirtualMemory
