import Sgos.Paging
import Mathlib.Data.Nat.Bitwise
import Mathlib.Tactic.CasesM
import Mathlib.Tactic.SplitIfs

/-!
# Mapping one page

What `arQueryPageInformation` reads and what `arMapOnePage` writes, entry by entry, and when the
mapping of a page leaves all other pages as they were.
-/
namespace Sgos.Paging

/-! ## Addresses -/

lemma frameOf_addrOf (f : Frame) : frameOf (addrOf f) = f := by
  have hf := f.isLt
  have hlt : f.val * 4096 < UInt32.size := by rw [UInt32.size]; omega
  ext
  simp only [frameOf, addrOf, UInt32.toNat_ofNat_of_lt' hlt]
  omega

lemma addrOf_frameOf {p : UInt32} (hp : p.toNat % 4096 = 0) : addrOf (frameOf p) = p := by
  have hlt := p.toNat_lt
  have hmul : p.toNat / 4096 * 4096 = p.toNat := by omega
  simp only [addrOf, frameOf, hmul, UInt32.ofNat_toNat]

/-- The directory entry of a new table. -/
lemma tableEntry_ne_zero (t : Frame) : tableEntry t ≠ .zero := fun he => by
  cases congrArg PageTable.present he

lemma tableEntry_frame (t : Frame) : (tableEntry t).physicalAddress = t := frameOf_addrOf t

/-- Directory index and table index determine a page. -/
lemma eq_of_indices {v w : UInt32} (hv : v.toNat % 4096 = 0) (hw : w.toNat % 4096 = 0)
    (hd : dirIndex v = dirIndex w) (ht : tableIndex v = tableIndex w) : v = w := by
  have hd := congrArg Fin.val hd
  have ht := congrArg Fin.val ht
  simp only [dirIndex, tableIndex] at hd ht
  exact UInt32.toNat_inj.mp (by omega)

/-! ## Attributes -/

lemma and_or_distrib_left (a b c : UInt32) : a &&& (b ||| c) = a &&& b ||| a &&& c :=
  UInt32.toBitVec_inj.mp BitVec.and_or_distrib_left

lemma ite_and_twoPow {k : ℕ} (hk : k < 32) (a : UInt32) :
    (if a &&& UInt32.ofNat (2 ^ k) ≠ 0 then UInt32.ofNat (2 ^ k) else 0) =
      a &&& UInt32.ofNat (2 ^ k) := by
  have hlt : 2 ^ k < UInt32.size := Nat.pow_lt_pow_right (by decide) hk
  have hand : (a &&& UInt32.ofNat (2 ^ k)).toNat = (a.toNat.testBit k).toNat * 2 ^ k := by
    rw [UInt32.toNat_and, UInt32.toNat_ofNat_of_lt' hlt, Nat.and_two_pow]
  split_ifs with h
  · refine UInt32.toNat_inj.mp ?_
    rw [hand, UInt32.toNat_ofNat_of_lt' hlt]
    cases hb : a.toNat.testBit k with
    | true => simp
    | false =>
      rw [hb] at hand
      exact absurd (UInt32.toNat_inj.mp (hand.trans (by simp))) h
  · exact (not_not.mp h).symm

/-- The mapping of an address with its attributes keeps only the bits no function looks at. -/
lemma mapEntry_both {flag : UInt32} (h : flag &&& MAP_ADDRESS ≠ 0)
    (h' : flag &&& MAP_ATTRIBUTE ≠ 0) (te : PageTable) (p a : UInt32) :
    mapEntry te p a flag =
      { present := a &&& PAGE_ATTR_PRESENT ≠ 0
        write := a &&& PAGE_ATTR_WRITE ≠ 0
        user := a &&& PAGE_ATTR_USER ≠ 0
        rest := te.rest
        physicalAddress := frameOf p } := by
  simp only [mapEntry, if_pos h, if_pos h']

lemma mapEntry_attribute (te : PageTable) (p a : UInt32) :
    mapEntry te p a MAP_ATTRIBUTE =
      { te with
        user := a &&& PAGE_ATTR_USER ≠ 0
        write := a &&& PAGE_ATTR_WRITE ≠ 0
        present := a &&& PAGE_ATTR_PRESENT ≠ 0 } := rfl

lemma mapEntry_frame {flag : UInt32} (h : flag &&& MAP_ADDRESS ≠ 0) (te : PageTable)
    (p a : UInt32) : (mapEntry te p a flag).physicalAddress = frameOf p := by
  simp only [mapEntry, if_pos h]
  split_ifs <;> rfl

lemma attr_mapEntry {flag : UInt32} (h : flag &&& MAP_ADDRESS ≠ 0)
    (h' : flag &&& MAP_ATTRIBUTE ≠ 0) (te : PageTable) (p a : UInt32) :
    (mapEntry te p a flag).attr = a &&& 7 := by
  have h0 := ite_and_twoPow (show 0 < 32 by decide) a
  have h1 := ite_and_twoPow (show 1 < 32 by decide) a
  have h2 := ite_and_twoPow (show 2 < 32 by decide) a
  rw [mapEntry_both h h']
  simp only [PageTable.attr, decide_eq_true_eq]
  rw [show PAGE_ATTR_USER = UInt32.ofNat (2 ^ 2) from rfl,
    show PAGE_ATTR_WRITE = UInt32.ofNat (2 ^ 1) from rfl,
    show PAGE_ATTR_PRESENT = UInt32.ofNat (2 ^ 0) from rfl, h0, h1, h2,
    ← and_or_distrib_left, ← and_or_distrib_left]
  rfl

lemma attr_and_present (e : PageTable) :
    e.attr &&& PAGE_ATTR_PRESENT = 0 ↔ e.present = false := by
  rcases e with ⟨present, write, user, rest, frame⟩
  cases present <;> cases write <;> cases user <;>
    simp only [PageTable.attr, Bool.false_eq_true, if_false, if_true] <;> decide

/-! ## Frames -/

lemma searchFree_spec {pageRef : Frame → UInt8} {n i : ℕ} {f : Frame}
    (h : searchFree pageRef n i = some f) : pageRef f = 0 ∧ i ≤ f.val ∧ f.val < i + n := by
  induction n generalizing i with
  | zero => cases h
  | succ n ih =>
    rw [searchFree] at h
    split_ifs at h with hi hfree
    · obtain rfl := Option.some.inj h
      exact ⟨hfree, le_rfl, by dsimp only; omega⟩
    · obtain ⟨hz, hle, hlt⟩ := ih h
      exact ⟨hz, by omega, by omega⟩

/-- Only the counters and the place of the search differ. -/
structure SameTables (s s' : State) : Prop where
  mem : s'.mem = s.mem
  dir : s'.dir = s.dir
  totalPages : s'.totalPages = s.totalPages

/-- A frame that is handed out was free, and now is counted once. -/
lemma mmGetPhysicalPage_some {s s' : State} {f : Frame} (hit : s.pageIt ≤ s.totalPages)
    (_ : pageFront ≤ s.totalPages) (h : mmGetPhysicalPage s = (some f, s')) :
    s.Managed f ∧ s.pageRef f = 0 ∧ SameTables s s' ∧
      s'.pageRef = Function.update s.pageRef f 1 ∧ s'.pageIt = f.val + 1 := by
  have hdone : ∀ {g : Frame}, s.Managed g → s.pageRef g = 0 →
      (some g, { s.setRef g (s.pageRef g + 1) with pageIt := g.val + 1 }) = (some f, s') →
      s.Managed f ∧ s.pageRef f = 0 ∧ SameTables s s' ∧
        s'.pageRef = Function.update s.pageRef f 1 ∧ s'.pageIt = f.val + 1 := by
    rintro g hg hz he
    obtain ⟨rfl, rfl⟩ := Prod.mk.inj he |>.imp Option.some.inj id
    exact ⟨hg, hz, ⟨rfl, rfl, rfl⟩, by simp [State.setRef, hz], rfl⟩
  rw [mmGetPhysicalPage] at h
  split_ifs at h with hfull
  · cases congrArg Prod.fst h
  dsimp only at h
  cases hfirst : searchFree s.pageRef (s.totalPages - max s.pageIt pageFront)
      (max s.pageIt pageFront) with
  | some g =>
    rw [hfirst] at h
    obtain ⟨hz, hle, hlt⟩ := searchFree_spec hfirst
    exact hdone ⟨by omega, by omega⟩ hz h
  | none =>
    rw [hfirst] at h
    cases hsecond : searchFree s.pageRef (max s.pageIt pageFront - pageFront) pageFront with
    | some g =>
      rw [hsecond] at h
      obtain ⟨hz, hle, hlt⟩ := searchFree_spec hsecond
      exact hdone ⟨by omega, by omega⟩ hz h
    | none => rw [hsecond] at h; cases congrArg Prod.fst h

lemma mmGetPhysicalPage_none {s s' : State} (hit : s.pageIt ≤ s.totalPages)
    (hfront : pageFront ≤ s.totalPages) (h : mmGetPhysicalPage s = (none, s')) :
    SameTables s s' ∧ s'.pageRef = s.pageRef ∧ s'.pageIt ≤ s'.totalPages := by
  rw [mmGetPhysicalPage] at h
  split_ifs at h
  · obtain rfl := congrArg Prod.snd h
    exact ⟨⟨rfl, rfl, rfl⟩, rfl, hit⟩
  · dsimp only at h
    split at h
    · cases congrArg Prod.fst h
    · split at h
      · cases congrArg Prod.fst h
      · obtain rfl := congrArg Prod.snd h
        exact ⟨⟨rfl, rfl, rfl⟩, rfl, max_le hit hfront⟩

/-! ## Reading an entry -/

/-- The window is an entry of the boot table. -/
def IsWindow (t : Frame) (i : Index) : Prop := t = bootTable ∧ i = windowIndex

instance (t : Frame) (i : Index) : Decidable (IsWindow t i) := inferInstanceAs (Decidable (_ ∧ _))

/-- What a query finds in an entry: it has put the boot table into the window before it reads the
entry of the window itself. -/
def State.seen (s : State) (t : Frame) (i : Index) : PageTable :=
  if IsWindow t i then windowEntry (addrOf bootTable) else s.mem t i

lemma seen_of_not_window {s : State} {t : Frame} {i : Index} (h : ¬ IsWindow t i) :
    s.seen t i = s.mem t i := if_neg h

lemma setEntry_mem (s : State) (t f : Frame) (i j : Index) (e : PageTable) :
    (s.setEntry t i e).mem f j = if f = t ∧ j = i then e else s.mem f j := by
  by_cases hf : f = t
  · subst hf
    by_cases hj : j = i <;> simp [State.setEntry, hj]
  · simp [State.setEntry, hf]

lemma arMapTemporaryPage_mem (s : State) (p : UInt32) (f : Frame) (j : Index) :
    (arMapTemporaryPage s p).mem f j = if IsWindow f j then windowEntry p else s.mem f j := by
  rw [arMapTemporaryPage, setEntry_mem]
  rfl

lemma arMapTemporaryPage_seen (s : State) (t : Frame) (i : Index) :
    (arMapTemporaryPage s (addrOf t)).mem t i = s.seen t i := by
  rw [arMapTemporaryPage_mem, State.seen]
  by_cases h : IsWindow t i
  · rw [if_pos h, if_pos h, h.1]
  · rw [if_neg h, if_neg h]

/-- What the query of an address finds. -/
def State.lookup (s : State) (d : Ptr) (v : UInt32) : Option PageTable :=
  if s.dir d (dirIndex v) = .zero then none
  else some (s.seen (s.dir d (dirIndex v)).physicalAddress (tableIndex v))

lemma arQueryPageInformation_eq (s : State) (d : Ptr) (v : UInt32) :
    (arQueryPageInformation s d v).1 =
      (s.lookup d v).map fun e => (addrOf e.physicalAddress, e.attr) := by
  rw [arQueryPageInformation, State.lookup]
  by_cases h : s.dir d (dirIndex v) = .zero
  · simp [h]
  · simp only [if_neg h, Option.map_some, arMapTemporaryPage_seen]

/-! ## Writing an entry -/

/-- The frame cleared for `MAP_ZERO`, if the entry was `te`. -/
def zeroedFrame (te : PageTable) (p flag : UInt32) : Option Frame :=
  if flag &&& MAP_ZERO ≠ 0 then
    some (if flag &&& MAP_ADDRESS ≠ 0 then frameOf p else te.physicalAddress)
  else none

/-- Nothing but the memory differs. -/
structure SameBooks (s s' : State) : Prop where
  dir : s'.dir = s.dir
  pageRef : s'.pageRef = s.pageRef
  totalPages : s'.totalPages = s.totalPages
  pageIt : s'.pageIt = s.pageIt

/-- The part of `arMapOnePage` after the table has been opened. -/
def writeEntry (s : State) (t : Frame) (i : Index) (p a flag : UInt32) : State :=
  let te := s.mem t i
  let s := s.setEntry t i (mapEntry te p a flag)
  if flag &&& MAP_ZERO ≠ 0 then
    let p := if flag &&& MAP_ADDRESS ≠ 0 then p else addrOf te.physicalAddress
    zeroFrame (arMapTemporaryPage s p) (frameOf p)
  else s

lemma writeEntry_sameBooks (s : State) (t : Frame) (i : Index) (p a flag : UInt32) :
    SameBooks s (writeEntry s t i p a flag) := by
  rw [writeEntry]
  split_ifs <;> exact ⟨rfl, rfl, rfl, rfl⟩

lemma writeEntry_seen (s : State) (t f : Frame) (i j : Index) (p a flag : UInt32) :
    (writeEntry s t i p a flag).seen f j =
      if IsWindow f j then windowEntry (addrOf bootTable)
      else if zeroedFrame (s.mem t i) p flag = some f then .zero
      else if f = t ∧ j = i then mapEntry (s.mem t i) p a flag
      else s.seen f j := by
  by_cases hw : IsWindow f j
  · rw [if_pos hw, State.seen, if_pos hw]
  rw [if_neg hw, seen_of_not_window hw, seen_of_not_window hw, writeEntry, zeroedFrame]
  by_cases hz : flag &&& MAP_ZERO ≠ 0
  · have hframe : frameOf (if flag &&& MAP_ADDRESS ≠ 0 then p
        else addrOf (s.mem t i).physicalAddress) =
          if flag &&& MAP_ADDRESS ≠ 0 then frameOf p else (s.mem t i).physicalAddress := by
      split_ifs
      · rfl
      · exact frameOf_addrOf _
    simp only [if_pos hz, zeroFrame, hframe, Option.some.injEq]
    generalize (if flag &&& MAP_ADDRESS ≠ 0 then frameOf p else (s.mem t i).physicalAddress) = z
    by_cases he : z = f
    · rw [if_pos he, he, Function.update_self]
    · rw [if_neg he, Function.update_of_ne (Ne.symm he), arMapTemporaryPage_mem, if_neg hw,
        setEntry_mem]
  · simp only [if_neg hz, setEntry_mem, reduceCtorEq, if_false]

/-- With a table in place, one entry changes. -/
lemma arMapOnePage_of_table {s : State} {d : Ptr} {v : UInt32}
    (h : s.dir d (dirIndex v) ≠ .zero) (p a flag : UInt32) :
    arMapOnePage s d v p a flag =
      writeEntry (arMapTemporaryPage s (addrOf (s.dir d (dirIndex v)).physicalAddress))
        (s.dir d (dirIndex v)).physicalAddress (tableIndex v) p a flag := by
  simp only [arMapOnePage, openTable, if_neg h, Bool.false_eq_true, if_false]
  rfl

/-- Without a table, a new one is cleared from the entry on. -/
lemma arMapOnePage_of_new {s s' : State} {d : Ptr} {v : UInt32} {t : Frame}
    (h : s.dir d (dirIndex v) = .zero) (hnew : mmGetPhysicalPage s = (some t, s'))
    (p a flag : UInt32) :
    arMapOnePage s d v p a flag =
      writeEntry (zeroFrom (arMapTemporaryPage (s'.setDir d (dirIndex v) (tableEntry t)) (addrOf t))
        t (tableIndex v)) t (tableIndex v) p a flag := by
  simp only [arMapOnePage, openTable, if_pos h, hnew, if_true]
  rfl

/-- With a table in place, the directories and the books of frames stay as they are. -/
lemma arMapOnePage_books {s : State} {d : Ptr} {v : UInt32} (h : s.dir d (dirIndex v) ≠ .zero)
    (p a flag : UInt32) : SameBooks s (arMapOnePage s d v p a flag) := by
  rw [arMapOnePage_of_table h]
  obtain ⟨hd, hr, ht, hp⟩ := writeEntry_sameBooks (arMapTemporaryPage s
    (addrOf (s.dir d (dirIndex v)).physicalAddress)) _ (tableIndex v) p a flag
  exact ⟨hd, hr, ht, hp⟩

lemma arMapOnePage_books_new {s s' : State} {d : Ptr} {v : UInt32} {t : Frame}
    (h : s.dir d (dirIndex v) = .zero) (hnew : mmGetPhysicalPage s = (some t, s'))
    (p a flag : UInt32) :
    SameBooks (s'.setDir d (dirIndex v) (tableEntry t)) (arMapOnePage s d v p a flag) := by
  rw [arMapOnePage_of_new h hnew]
  obtain ⟨hd, hr, ht, hp⟩ := writeEntry_sameBooks (zeroFrom (arMapTemporaryPage
    (s'.setDir d (dirIndex v) (tableEntry t)) (addrOf t)) t (tableIndex v)) t (tableIndex v) p a flag
  exact ⟨hd, hr, ht, hp⟩

lemma arMapOnePage_of_full {s s' : State} {d : Ptr} {v : UInt32}
    (h : s.dir d (dirIndex v) = .zero) (hfull : mmGetPhysicalPage s = (none, s'))
    (p a flag : UInt32) : arMapOnePage s d v p a flag = s' := by
  simp only [arMapOnePage, openTable, if_pos h, hfull]

lemma arMapTemporaryPage_seen_eq (s : State) (p : UInt32) :
    (arMapTemporaryPage s p).seen = s.seen := by
  funext f j
  by_cases hw : IsWindow f j
  · rw [State.seen, State.seen, if_pos hw, if_pos hw]
  · rw [seen_of_not_window hw, seen_of_not_window hw, arMapTemporaryPage_mem, if_neg hw]

lemma arMapOnePage_seen_table {s : State} {d : Ptr} {v : UInt32} {t : Frame}
    (h : s.dir d (dirIndex v) ≠ .zero) (ht : (s.dir d (dirIndex v)).physicalAddress = t)
    (p a flag : UInt32) (f : Frame) (j : Index) :
    (arMapOnePage s d v p a flag).seen f j =
      if IsWindow f j then windowEntry (addrOf bootTable)
      else if zeroedFrame (s.seen t (tableIndex v)) p flag = some f then .zero
      else if f = t ∧ j = tableIndex v then mapEntry (s.seen t (tableIndex v)) p a flag
      else s.seen f j := by
  rw [arMapOnePage_of_table h, ht, writeEntry_seen, arMapTemporaryPage_seen,
    arMapTemporaryPage_seen_eq]

lemma arMapOnePage_seen_new {s s' : State} {d : Ptr} {v : UInt32} {t : Frame}
    (h : s.dir d (dirIndex v) = .zero) (hnew : mmGetPhysicalPage s = (some t, s'))
    (hsame : SameTables s s') (ht : t ≠ bootTable)
    (p a flag : UInt32) (f : Frame) (j : Index) :
    (arMapOnePage s d v p a flag).seen f j =
      if IsWindow f j then windowEntry (addrOf bootTable)
      else if zeroedFrame .zero p flag = some f then .zero
      else if f = t ∧ j = tableIndex v then mapEntry .zero p a flag
      else if f = t ∧ tableIndex v ≤ j then .zero
      else if f = s.spill ∧ j < tableIndex v then .zero
      else s.seen f j := by
  have hmem : ∀ f j, ¬ IsWindow f j →
      (zeroFrom (arMapTemporaryPage (s'.setDir d (dirIndex v) (tableEntry t)) (addrOf t)) t
        (tableIndex v)).mem f j =
          if f = t ∧ tableIndex v ≤ j then .zero
          else if f = s.spill ∧ j < tableIndex v then .zero else s.mem f j := by
    intro f j hw
    have hspill : (arMapTemporaryPage (s'.setDir d (dirIndex v) (tableEntry t)) (addrOf t)).spill =
        s.spill := by
      rw [State.spill, arMapTemporaryPage_mem, if_neg (by decide)]
      exact congrArg PageTable.physicalAddress (congrFun (congrFun hsame.mem _) _)
    simp only [zeroFrom, hspill, arMapTemporaryPage_mem, if_neg hw]
    rw [show (s'.setDir d (dirIndex v) (tableEntry t)).mem = s.mem from hsame.mem]
  have hte : ¬ IsWindow t (tableIndex v) := fun hw => ht hw.1
  have hzero := hmem t (tableIndex v) hte
  rw [if_pos ⟨rfl, Fin.le_refl (tableIndex v)⟩] at hzero
  rw [arMapOnePage_of_new h hnew, writeEntry_seen, hzero]
  by_cases hw : IsWindow f j
  · rw [if_pos hw, if_pos hw]
  · rw [if_neg hw, if_neg hw, seen_of_not_window hw, seen_of_not_window hw, hmem f j hw]

/-! ## The boot mapping -/

lemma boot_table {totalPages : ℕ} {junk : Frame → Index → PageTable} {d : Ptr} {i : Index}
    (h : (boot totalPages junk).dir d i ≠ .zero) :
    i = 768 ∧ ((boot totalPages junk).dir d i).physicalAddress = bootTable := by
  simp only [boot] at h ⊢
  split_ifs at h ⊢ with hi
  · exact ⟨hi, rfl⟩
  · exact absurd rfl h

end Sgos.Paging
