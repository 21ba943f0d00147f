import Sgos.SectorService

/-!
# The pages of the two buffers

What a swap of pages leaves of the bytes of both buffers. The pages of the service are present; a
page of the caller that is not receives nothing.
-/
namespace Sgos.SectorService
open Paging MemoryRanges RangeSwap

/-! ## Bytes and pages -/

lemma translate_of_indices {s : Paging.State} {space : Ptr} {a b : UInt32}
    (hdir : dirIndex a = dirIndex b) (htable : tableIndex a = tableIndex b) :
    s.translate space a = s.translate space b := by
  unfold State.translate State.entry State.lookup
  rw [hdir, htable]

/-- The bytes of a page have one translation. -/
lemma byteAt_page {s : Paging.State} {space : Ptr} {addr : UInt32} {i : ℕ}
    (haddr : addr.toNat % 4096 = 0) (hi : addr.toNat + i < addressSpace) :
    byteAt s space (addr + UInt32.ofNat i) =
      (s.translate space (nth addr (i / 4096))).map fun f => (f, i % 4096) := by
  simp only [addressSpace] at hi
  have hofNat : (UInt32.ofNat i).toNat = i :=
    UInt32.toNat_ofNat_of_lt' (by rw [UInt32.size]; omega)
  have hbyte : (addr + UInt32.ofNat i).toNat = addr.toNat + i := by
    rw [UInt32.toNat_add, hofNat]
    omega
  have hpage : (nth addr (i / 4096)).toNat = addr.toNat + i / 4096 * 4096 :=
    toNat_nth (by simp only [addressSpace]; omega)
  have hoffset : (addr + UInt32.ofNat i).toNat % 4096 = i % 4096 := by omega
  have hdir : dirIndex (addr + UInt32.ofNat i) = dirIndex (nth addr (i / 4096)) := by
    ext
    simp only [dirIndex, hbyte, hpage]
    omega
  have htable : tableIndex (addr + UInt32.ofNat i) = tableIndex (nth addr (i / 4096)) := by
    ext
    simp only [tableIndex, hbyte, hpage]
    omega
  unfold byteAt
  rw [translate_of_indices hdir htable, hoffset]

/-! ## A page that receives nothing -/

section Lost
variable {s : Paging.State} {destSp srcSp : Ptr} {destAddr srcAddr : UInt32} {count : ℕ}

/-- Neither tables nor counters differ. -/
structure Kept (s s' : Paging.State) : Prop where
  sound : Sound s'
  tables : UserTables s'
  dir : s'.dir = s.dir
  pageRef : s'.pageRef = s.pageRef
  totalPages : s'.totalPages = s.totalPages

lemma Kept.noFrame {s' : Paging.State} (h : Kept s s') (hno : NoFrame s) :
    NoFrame s' := by
  unfold NoFrame State.Managed
  rw [h.pageRef, h.totalPages]
  exact hno

lemma Kept.trans {s' s'' : Paging.State} (h : Kept s s') (h' : Kept s' s'') :
    Kept s s'' where
  sound := h'.sound
  tables := h'.tables
  dir := h'.dir.trans h.dir
  pageRef := h'.pageRef.trans h.pageRef
  totalPages := h'.totalPages.trans h.totalPages

lemma kept_unmoved {s' : Paging.State} (h : Unmoved s s') (ht : UserTables s) :
    Kept s s' :=
  ⟨h.sound, h.tables ht, h.dir, h.pageRef, h.totalPages⟩

/-- Without a free frame no table is added. -/
lemma kept_map (hs : Sound s) (ht : UserTables s) {d : Ptr} {v : UInt32} (hv : UserPage v)
    (hno : NoFrame s) (p a : UInt32) : Kept s (arMapOnePage s d v p a MAP_ADDRESS) := by
  by_cases hnew : s.dir d (dirIndex v) = .zero
  · exact kept_unmoved (unmoved_full p a MAP_ADDRESS hs hnew hno) ht
  · obtain ⟨hmap, hdir, href⟩ := mapped_table p a MAP_ADDRESS hs ht hv hnew
      (noZero (by decide) _ _)
    exact ⟨hmap.sound, hmap.tables, hdir, href, hmap.totalPages⟩

variable (destSp srcSp) in
lemma kept_swap (hs : Sound s) (ht : UserTables s) (hdest : UserPage destAddr)
    (hsrc : UserPage srcAddr) (hno : NoFrame s) :
    Kept s (mmSwapPhysicalPage s destSp destAddr srcSp srcAddr MAP_ADDRESS) := by
  have hquery := kept_unmoved (unmoved_queries hs destSp destAddr srcSp srcAddr) ht
  rw [mmSwapPhysicalPage_eq hs]
  have hfirst := hquery.trans (kept_map (d := destSp) hquery.sound hquery.tables hdest
    (hquery.noFrame hno) (addrOf (s.entry srcSp srcAddr).physicalAddress)
    (s.entry srcSp srcAddr).attr)
  exact hfirst.trans (kept_map hfirst.sound hfirst.tables hsrc (hfirst.noFrame hno) _ _)

lemma kept_swapPages (hs : Sound s) (ht : UserTables s)
    (h : Ranges count destSp destAddr srcSp srcAddr) (hno : NoFrame s) :
    Kept s (CopyOnWrite.swapPages MAP_ADDRESS count s destSp destAddr srcSp srcAddr) := by
  induction count generalizing s destAddr srcAddr with
  | zero => exact ⟨hs, ht, rfl, rfl, rfl⟩
  | succ count ih =>
    obtain ⟨hdest, hsrc, -⟩ := h.head
    have hfirst := kept_swap destSp srcSp hs ht hdest hsrc hno
    exact hfirst.trans (ih hfirst.sound hfirst.tables h.tail (hfirst.noFrame hno))

/-- An absent page that is swapped with a present one stays absent, and has a table unless there is
no frame for one. -/
lemma swap_lost (hs : Sound s) (ht : UserTables s) (hdest : UserPage destAddr)
    (hsrc : UserPage srcAddr) (hne : (destSp, destAddr) ≠ (srcSp, srcAddr))
    (hd : (s.entry destSp destAddr).present = false)
    (hp : (s.entry srcSp srcAddr).present = true) :
    let s' := mmSwapPhysicalPage s destSp destAddr srcSp srcAddr MAP_ADDRESS
    (s'.entry destSp destAddr).present = false ∧
      (s'.dir destSp (dirIndex destAddr) ≠ .zero ∨ NoFrame s') := by
  have hquery := unmoved_queries hs destSp destAddr srcSp srcAddr
  rw [mmSwapPhysicalPage_eq hs]
  generalize queried (queried s destSp destAddr) srcSp srcAddr = s1 at *
  dsimp only
  have ht1 := hquery.tables ht
  by_cases hroom : s1.dir destSp (dirIndex destAddr) ≠ .zero ∨ ¬NoFrame s1
  · have hmap := mapped_of_room (d := destSp) (addrOf (s.entry srcSp srcAddr).physicalAddress)
      (s.entry srcSp srcAddr).attr MAP_ADDRESS hquery.sound ht1 hdest hroom
      (noZero (by decide) _ _)
    generalize arMapOnePage s1 destSp destAddr _ _ MAP_ADDRESS = s2 at *
    have hsecond := arMapOnePage_extends (d := srcSp)
      (addrOf (s.entry destSp destAddr).physicalAddress) (s.entry destSp destAddr).attr MAP_ADDRESS
      hmap.sound hmap.tables hsrc (noZero (by decide) _ _)
    refine ⟨?_, .inl (hsecond.table hmap.table)⟩
    rw [hsecond.others destSp destAddr hdest.aligned hmap.table
        fun hh => hne (Set.mem_singleton_iff.mp hh), hmap.slot, hquery.entry, mapEntry_address, hd,
      hp]
    rfl
  · rw [not_or, not_not, not_not] at hroom
    obtain ⟨hnew, hno⟩ := hroom
    have hfirst := kept_map (d := destSp) hquery.sound ht1 hdest hno
      (addrOf (s.entry srcSp srcAddr).physicalAddress) (s.entry srcSp srcAddr).attr
    have hboth := hfirst.trans (kept_map (d := srcSp) hfirst.sound hfirst.tables hsrc
      (hfirst.noFrame hno) (addrOf (s.entry destSp destAddr).physicalAddress)
      (s.entry destSp destAddr).attr)
    refine ⟨?_, .inr (hboth.noFrame hno)⟩
    rw [entry_of_no_table (by rwa [hboth.dir])]
    rfl

/-- Pages that receive what the present pages of the other range mapped were present. -/
lemma present_of_received (hs : Sound s) (ht : UserTables s)
    (h : Ranges count destSp destAddr srcSp srcAddr)
    (hp : ∀ k < count, (s.entry srcSp (nth srcAddr k)).present = true)
    (hreceived : ∀ k < count,
      (CopyOnWrite.swapPages MAP_ADDRESS count s destSp destAddr srcSp srcAddr).translate destSp
        (nth destAddr k) = s.translate srcSp (nth srcAddr k)) :
    ∀ k < count, (s.entry destSp (nth destAddr k)).present = true := by
  induction count generalizing s destAddr srcAddr with
  | zero =>
    intro k hk
    omega
  | succ count ih =>
    obtain ⟨hdest, hsrc, hne⟩ := h.head
    have hext := swap_extends destSp srcSp hs ht hdest hsrc
    have hsrc0 := hp 0 (by omega)
    rw [nth_zero] at hsrc0
    have hfirst : (s.entry destSp destAddr).present = true := by
      by_contra hd
      rw [Bool.not_eq_true] at hd
      obtain ⟨habsent, hroom⟩ := swap_lost hs ht hdest hsrc hne hd hsrc0
      have hmapped := hreceived 0 (by omega)
      rw [nth_zero, nth_zero, translate_of_present hsrc0, CopyOnWrite.swapPages] at hmapped
      -- the other swaps leave the page absent
      have hkeep : ((CopyOnWrite.swapPages MAP_ADDRESS count
          (mmSwapPhysicalPage s destSp destAddr srcSp srcAddr MAP_ADDRESS) destSp
          (destAddr + CopyOnWrite.PAGE_SIZE) srcSp
          (srcAddr + CopyOnWrite.PAGE_SIZE)).entry destSp destAddr).present = false := by
        by_cases htable : (mmSwapPhysicalPage s destSp destAddr srcSp srcAddr MAP_ADDRESS).dir
            destSp (dirIndex destAddr) = .zero
        · have hrest := kept_swapPages hext.sound hext.tables h.tail
            (hroom.resolve_left fun hnot => hnot htable)
          rw [entry_of_no_table (by rwa [hrest.dir])]
          rfl
        · rw [(swapPages_extends hext.sound hext.tables h.tail).others destSp destAddr
            hdest.aligned htable (h.head_not_within (.inl rfl))]
          exact habsent
      rw [translate_eq_none.mpr hkeep] at hmapped
      cases hmapped
    have hswap := swap_present hs ht hdest hsrc hne hfirst hsrc0
    -- the pages behind are as before the first swap
    have hbehind : ∀ k < count,
        (mmSwapPhysicalPage s destSp destAddr srcSp srcAddr MAP_ADDRESS).translate destSp
            (nth (destAddr + CopyOnWrite.PAGE_SIZE) k) = s.translate destSp (nth destAddr (k + 1)) ∧
          (mmSwapPhysicalPage s destSp destAddr srcSp srcAddr MAP_ADDRESS).translate srcSp
            (nth (srcAddr + CopyOnWrite.PAGE_SIZE) k) =
          s.translate srcSp (nth srcAddr (k + 1)) := by
      intro k hk
      have hleft := h.distinct.head_left hk
      have hright := h.distinct.head_right hk
      rw [pageOf_zero, pageOf_zero] at hleft hright
      have hdest' := hswap.translate (pageOf destSp destAddr (k + 1)) (h.dest _ (by omega)).aligned
      have hsrc' := hswap.translate (pageOf srcSp srcAddr (k + 1)) (h.src _ (by omega)).aligned
      rw [Equiv.swap_apply_of_ne_of_ne hleft.1 hleft.2] at hdest'
      rw [Equiv.swap_apply_of_ne_of_ne hright.1 hright.2] at hsrc'
      rw [← nth_succ, ← nth_succ]
      exact ⟨hdest', hsrc'⟩
    intro k hk
    cases k with
    | zero =>
      rw [nth_zero]
      exact hfirst
    | succ k =>
      rw [present_iff_translate, ← (hbehind k (by omega)).1, ← present_iff_translate]
      refine ih hext.sound hext.tables h.tail (fun j hj => ?_) (fun j hj => ?_) k (by omega)
      · rw [present_iff_translate, (hbehind j hj).2, ← present_iff_translate]
        exact hp (j + 1) (by omega)
      · rw [(hbehind j hj).2, ← hreceived (j + 1) (by omega), nth_succ, CopyOnWrite.swapPages]

/-- A present page that is swapped away stays present. -/
lemma swap_source_present (hs : Sound s) (ht : UserTables s) (hdest : UserPage destAddr)
    (hsrc : UserPage srcAddr) (hne : (destSp, destAddr) ≠ (srcSp, srcAddr))
    (hp : (s.entry srcSp srcAddr).present = true) :
    ((mmSwapPhysicalPage s destSp destAddr srcSp srcAddr MAP_ADDRESS).entry srcSp
      srcAddr).present = true := by
  have hquery := unmoved_queries hs destSp destAddr srcSp srcAddr
  rw [mmSwapPhysicalPage_eq hs]
  generalize queried (queried s destSp destAddr) srcSp srcAddr = s1 at *
  have hfirst := arMapOnePage_extends (d := destSp) (addrOf (s.entry srcSp srcAddr).physicalAddress)
    (s.entry srcSp srcAddr).attr MAP_ADDRESS hquery.sound (hquery.tables ht) hdest
    (noZero (by decide) _ _)
  have htable : s1.dir srcSp (dirIndex srcAddr) ≠ .zero := by
    rw [hquery.dir]
    exact table_of_present hp
  have hkeep := hfirst.others srcSp srcAddr hsrc.aligned htable
    fun hh => hne (Set.mem_singleton_iff.mp hh).symm
  obtain ⟨hsecond, -⟩ := mapped_table (d := srcSp)
    (addrOf (s.entry destSp destAddr).physicalAddress) (s.entry destSp destAddr).attr MAP_ADDRESS
    hfirst.sound hfirst.tables hsrc (hfirst.table htable) (noZero (by decide) _ _)
  rw [hsecond.slot, mapEntry_address, hkeep, hquery.entry, hp, Bool.true_or]

lemma swapPages_source_present (hs : Sound s) (ht : UserTables s)
    (h : Ranges count destSp destAddr srcSp srcAddr) {v : UInt32} (hv : Aligned v)
    (hp : (s.entry srcSp v).present = true)
    (hdest : ∀ k < count, (srcSp, v) ≠ pageOf destSp destAddr k) :
    ((CopyOnWrite.swapPages MAP_ADDRESS count s destSp destAddr srcSp srcAddr).entry srcSp
      v).present = true := by
  induction count generalizing s destAddr srcAddr with
  | zero => exact hp
  | succ count ih =>
    obtain ⟨hdestPage, hsrcPage, hne⟩ := h.head
    have hext := swap_extends destSp srcSp hs ht hdestPage hsrcPage
    refine ih hext.sound hext.tables h.tail ?_ fun k hk => ?_
    · by_cases hfirst : v = srcAddr
      · rw [hfirst] at hp ⊢
        exact swap_source_present hs ht hdestPage hsrcPage hne hp
      · have hd := hdest 0 (by omega)
        rw [pageOf_zero] at hd
        rw [hext.others srcSp v hv (table_of_present hp)]
        · exact hp
        · rintro (he | he)
          · exact hd he
          · exact hfirst (congrArg Prod.snd (Set.mem_singleton_iff.mp he))
    · rw [pageOf, ← nth_succ]
      exact hdest (k + 1) (by omega)

end Lost

/-! ## The call of the service -/

/-- The state that a request finds: the buffer of the service lies in an area for swaps and its
pages are present, the areas of all spaces end below the kernel, and the caller has a space of its
own. -/
structure Ready (hd : Service) (msg : Message) (mm : CopyOnWrite.State) : Prop where
  sound : Sound mm.paging
  tables : UserTables mm.paging
  areas : ∀ space, ∃ xs, VirtualMemory.Linking ⟨mm.heap, hd.lists.user space⟩ xs ∧
    ∀ x ∈ xs, VirtualMemory.State.fin ⟨mm.heap, hd.lists.user space⟩ x ≤ KERNEL_BASE.toNat
  aligned : hd.bufferPage % CopyOnWrite.PAGE_SIZE = 0
  area : ∃ vma, InSwapArea hd.lists mm hd.space hd.bufferPage BUFFER_SIZE vma
  present : ∀ k < 16, (mm.paging.entry hd.space (nth hd.bufferPage k)).present = true
  other : caller hd msg ≠ some hd.space

/-- The number of sectors that are dealt with, and their size. -/
def secCount (msg : Message) : UInt32 :=
  if msg.count > MAX_SECTORS then MAX_SECTORS else msg.count

def siz (msg : Message) : UInt32 := secCount msg <<< 9

/-- The pages are swapped: the caller has a space, nothing is misaligned, and the buffer of the
caller lies in an area for swaps. -/
def Swaps (hd : Service) (msg : Message) (mm : CopyOnWrite.State) : Prop :=
  ∃ space vma, caller hd msg = some space ∧ ¬Misaligned msg.large hd.bufferPage (siz msg) ∧
    VirtualMemory.mmGetVmaByAddress ⟨mm.heap, hd.lists.user space⟩ msg.large = some vma ∧
    ¬Unswappable mm vma msg.large (siz msg)

/-- The buffer of the caller lies in no area, which the kernel does not check. -/
def Stray (hd : Service) (msg : Message) (mm : CopyOnWrite.State) : Prop :=
  ∃ space, caller hd msg = some space ∧ ¬Misaligned msg.large hd.bufferPage (siz msg) ∧
    VirtualMemory.mmGetVmaByAddress ⟨mm.heap, hd.lists.user space⟩ msg.large = none

/-- The swap brings the two buffers together: the pages of the caller are present. Without a swap
they must be the pages of the service. -/
structure Delivers (hd : Service) (msg : Message) (mm : CopyOnWrite.State) : Prop where
  swapped : Swaps hd msg mm → ∀ i < (siz msg).toNat, ∃ l, callerByte hd msg mm.paging i = some l
  same : ¬Swaps hd msg mm → ∀ i < (siz msg).toNat, ∃ l,
    callerByte hd msg mm.paging i = some l ∧ bufferByte hd mm.paging i = some l

section Call
variable {hd : Service} {msg : Message} {mm : CopyOnWrite.State}

lemma toNat_secCount (msg : Message) : (secCount msg).toNat = min msg.count.toNat 128 := by
  have hmax : MAX_SECTORS.toNat = 128 := by decide
  unfold secCount
  split_ifs with h
  · rw [gt_iff_lt, UInt32.lt_iff_toNat_lt, hmax] at h
    omega
  · rw [gt_iff_lt, UInt32.lt_iff_toNat_lt, hmax] at h
    omega

lemma toNat_siz (msg : Message) : (siz msg).toNat = (secCount msg).toNat * 512 := by
  have hle := toNat_secCount msg
  unfold siz
  rw [UInt32.toNat_shiftLeft]
  change (secCount msg).toNat <<< 9 % 2 ^ 32 = _
  rw [Nat.shiftLeft_eq]
  omega

lemma siz_le (msg : Message) : (siz msg).toNat ≤ BUFFER_SIZE.toNat := by
  have hbuffer : BUFFER_SIZE.toNat = 65536 := by decide
  rw [toNat_siz, toNat_secCount, hbuffer]
  omega

lemma inSwapArea_mono {l : Lists} {space : Ptr} {addr n n' : UInt32} {vma : Ptr}
    (h : InSwapArea l mm space addr n vma) (hle : n'.toNat ≤ n.toNat) :
    InSwapArea l mm space addr n' vma :=
  ⟨h.found, h.swap, le_trans (by omega) h.inside, h.below⟩

/-- An area below the kernel that is not refused is one for swaps. -/
lemma Ready.inSwapArea (h : Ready hd msg mm) {space vma : Ptr} {addr n : UInt32}
    (hfound : VirtualMemory.mmGetVmaByAddress ⟨mm.heap, hd.lists.user space⟩ addr = some vma)
    (hn : n.toNat ≤ BUFFER_SIZE.toNat) (hfits : ¬Unswappable mm vma addr n) :
    InSwapArea hd.lists mm space addr n vma := by
  obtain ⟨xs, hxs, hbelow⟩ := h.areas space
  obtain ⟨hmem, -, hend⟩ := hxs.found hfound
  have hvma := hbelow vma hmem
  have hbase : KERNEL_BASE.toNat = 3221225472 := by decide
  have hbuffer : BUFFER_SIZE.toNat = 65536 := by decide
  obtain ⟨hflag, hle⟩ := not_or.mp hfits
  have hsum : (addr + n).toNat = addr.toNat + n.toNat :=
    toNat_add_of_lt (by simp only [addressSpace]; omega)
  have harea : ((mm.heap vma).virtualAddress + (mm.heap vma).virtualSize).toNat =
      VirtualMemory.State.fin ⟨mm.heap, hd.lists.user space⟩ vma :=
    toNat_add_of_lt (hxs.noWrap vma hmem)
  refine ⟨hfound, hflag, ?_, hvma⟩
  rw [CopyOnWrite.exceeds, gt_iff_lt, UInt32.not_lt, UInt32.le_iff_toNat_le, hsum, harea] at hle
  exact hle

/-- From `mm` to `mm'` exactly the requests that are delivered bring the buffers together, in both
directions. -/
structure Brings (hd : Service) (msg : Message) (mm mm' : CopyOnWrite.State) : Prop where
  read : (∀ i < (siz msg).toNat, ∃ l, callerByte hd msg mm'.paging i = some l ∧
    bufferByte hd mm.paging i = some l) ↔ Delivers hd msg mm
  write : (∀ i < (siz msg).toNat, ∃ l, callerByte hd msg mm.paging i = some l ∧
    bufferByte hd mm'.paging i = some l) ↔ Delivers hd msg mm

lemma brings_unswapped (h : ¬Swaps hd msg mm) : Brings hd msg mm mm where
  read := ⟨fun hs => ⟨fun hsw => absurd hsw h, fun _ => hs⟩, fun hd => hd.same h⟩
  write := ⟨fun hs => ⟨fun hsw => absurd hsw h, fun _ => hs⟩, fun hd => hd.same h⟩

lemma brings_swapped (h : Ready hd msg mm) {space dest src : Ptr}
    (hcaller : caller hd msg = some space)
    (halign : ¬Misaligned msg.large hd.bufferPage (siz msg))
    (hdest : InSwapArea hd.lists mm space msg.large (siz msg) dest)
    (hsrc : InSwapArea hd.lists mm hd.space hd.bufferPage (siz msg) src) :
    Brings hd msg mm ⟨CopyOnWrite.swapPages MAP_ADDRESS (siz msg >>> 12).toNat mm.paging space
      msg.large hd.space hd.bufferPage, mm.heap⟩ := by
  have hne : space ≠ hd.space := fun he => h.other (he ▸ hcaller)
  have hranges := ranges_of_areas halign hdest hsrc fun he => absurd he hne
  have hswaps : Swaps hd msg mm := ⟨space, dest, hcaller, halign, hdest.found, hdest.fits⟩
  obtain ⟨hlarge, hbuf, hsiz⟩ : msg.large.toNat % 4096 = 0 ∧ hd.bufferPage.toNat % 4096 = 0 ∧
      (siz msg).toNat % 4096 = 0 := by
    rw [Misaligned, not_or, not_or, not_not, not_not, not_not] at halign
    exact ⟨toNat_mod_page halign.1, toNat_mod_page halign.2.1, toNat_mod_page halign.2.2⟩
  have hle := siz_le msg
  have hbuffer : BUFFER_SIZE.toNat = 65536 := by decide
  have hbase : KERNEL_BASE.toNat = 3221225472 := by decide
  have hcount : (siz msg >>> 12).toNat * 4096 = (siz msg).toNat := by
    rw [toNat_count]
    omega
  have hcallerByte : ∀ (s : Paging.State) {i : ℕ}, i < (siz msg).toNat →
      callerByte hd msg s i =
        (s.translate space (nth msg.large (i / 4096))).map fun f => (f, i % 4096) := by
    intro s i hi
    have hend := hdest.inside.trans hdest.below
    rw [callerByte, hcaller, Option.bind_some,
      byteAt_page hlarge (by simp only [addressSpace]; omega)]
  have hbufferByte : ∀ (s : Paging.State) {i : ℕ}, i < (siz msg).toNat →
      bufferByte hd s i =
        (s.translate hd.space (nth hd.bufferPage (i / 4096))).map fun f => (f, i % 4096) := by
    intro s i hi
    have hend := hsrc.inside.trans hsrc.below
    rw [bufferByte, byteAt_page hbuf (by simp only [addressSpace]; omega)]
  have hpage : ∀ {i : ℕ}, i < (siz msg).toNat → i / 4096 < (siz msg >>> 12).toNat := by
    intro i hi
    omega
  have hpresent : ∀ k < (siz msg >>> 12).toNat,
      (mm.paging.entry hd.space (nth hd.bufferPage k)).present = true := fun k hk =>
    h.present k (by omega)
  have hexchanged : Delivers hd msg mm → Exchanged mm.paging
      (CopyOnWrite.swapPages MAP_ADDRESS (siz msg >>> 12).toNat mm.paging space msg.large hd.space
        hd.bufferPage) (siz msg >>> 12).toNat space msg.large hd.space hd.bufferPage := by
    intro hdelivers
    refine (exchanged_iff h.sound h.tables hranges).mpr fun k hk => .inl ⟨?_, hpresent k hk⟩
    have hk' : k * 4096 < (siz msg).toNat := by omega
    obtain ⟨l, hl⟩ := hdelivers.swapped hswaps (k * 4096) hk'
    rw [hcallerByte _ hk', Nat.mul_div_cancel k (by decide)] at hl
    obtain ⟨f, hf, -⟩ := Option.map_eq_some_iff.mp hl
    rw [present_iff_translate, hf]
    exact Option.some_ne_none f
  constructor
  · constructor
    · intro hreceived
      have hall := present_of_received h.sound h.tables hranges hpresent fun k hk => by
        have hk' : k * 4096 < (siz msg).toNat := by omega
        obtain ⟨l, hl, hl'⟩ := hreceived (k * 4096) hk'
        rw [hcallerByte _ hk', Nat.mul_div_cancel k (by decide)] at hl
        rw [hbufferByte _ hk', Nat.mul_div_cancel k (by decide)] at hl'
        obtain ⟨f, hf, rfl⟩ := Option.map_eq_some_iff.mp hl
        obtain ⟨f', hf', he⟩ := Option.map_eq_some_iff.mp hl'
        have hff : f' = f := congrArg Prod.fst he
        rw [hf, hf', hff]
      refine ⟨fun _ i hi => ?_, fun hnot => absurd hswaps hnot⟩
      rw [hcallerByte _ hi, translate_of_present (hall _ (hpage hi))]
      exact ⟨_, rfl⟩
    · intro hdelivers i hi
      have hdestPage := (hexchanged hdelivers).dest _ (hpage hi)
      rw [hcallerByte _ hi, hbufferByte _ hi, hdestPage,
        translate_of_present (hpresent _ (hpage hi))]
      exact ⟨_, rfl, rfl⟩
  · constructor
    · intro hreceived
      refine ⟨fun _ i hi => ?_, fun hnot => absurd hswaps hnot⟩
      obtain ⟨l, hl, -⟩ := hreceived i hi
      exact ⟨l, hl⟩
    · intro hdelivers i hi
      have hsrcPage := (hexchanged hdelivers).src _ (hpage hi)
      obtain ⟨l, hl⟩ := hdelivers.swapped hswaps i hi
      refine ⟨l, hl, ?_⟩
      rw [hcallerByte _ hi] at hl
      rw [hbufferByte _ hi, hsrcPage, hl]

/-- A swap leaves the service ready. -/
lemma Ready.swapped (h : Ready hd msg mm) {space dest src : Ptr}
    (hcaller : caller hd msg = some space)
    (halign : ¬Misaligned msg.large hd.bufferPage (siz msg))
    (hdest : InSwapArea hd.lists mm space msg.large (siz msg) dest)
    (hsrc : InSwapArea hd.lists mm hd.space hd.bufferPage (siz msg) src) :
    Ready hd msg ⟨CopyOnWrite.swapPages MAP_ADDRESS (siz msg >>> 12).toNat mm.paging space
      msg.large hd.space hd.bufferPage, mm.heap⟩ := by
  have hne : space ≠ hd.space := fun he => h.other (he ▸ hcaller)
  have hranges := ranges_of_areas halign hdest hsrc fun he => absurd he hne
  have hext := swapPages_extends h.sound h.tables hranges
  obtain ⟨vma, harea⟩ := h.area
  refine ⟨hext.sound, hext.tables, h.areas, h.aligned, ⟨vma, harea.found, harea.swap, harea.inside,
    harea.below⟩, fun k hk => ?_, h.other⟩
  have hk' : k < (BUFFER_SIZE >>> 12).toNat := hk.trans_le (by decide)
  exact swapPages_source_present h.sound h.tables hranges (harea.page h.aligned hk').2.2.aligned
    (h.present k hk) fun j _ he => hne (congrArg Prod.fst he).symm

/-- The pages are swapped or left alone; a stray buffer stops the kernel. -/
lemma Ready.swap (h : Ready hd msg mm) (hstray : ¬Stray hd msg mm) :
    ∃ mm', Brings hd msg mm mm' ∧ Ready hd msg mm' ∧ ∀ s : System, s.mm = mm → ∃ result,
      sysSwapMemory hd s (spaceId msg.threadId) msg.large hd.bufferPage (siz msg) MAP_ADDRESS =
        some (result, { s with mm := mm' }) := by
  obtain ⟨src, harea⟩ := h.area
  have hsrc := inSwapArea_mono harea (siz_le msg)
  cases hcaller : hd.spaces (spaceId msg.threadId) with
  | none =>
    refine ⟨mm, brings_unswapped ?_, h, fun s hs => ⟨0, ?_⟩⟩
    · rintro ⟨space, -, hspace, -⟩
      rw [caller, hcaller] at hspace
      cases hspace
    · subst hs
      rw [sysSwapMemory, hcaller]
  | some space =>
    have hspace : caller hd msg = some space := hcaller
    have hunique : ∀ {space'}, caller hd msg = some space' → space' = space := fun he =>
      (Option.some.inj (hspace.symm.trans he)).symm
    by_cases halign : Misaligned msg.large hd.bufferPage (siz msg)
    · refine ⟨mm, brings_unswapped ?_, h, fun s hs => ⟨0, ?_⟩⟩
      · rintro ⟨-, -, -, hnot, -⟩
        exact hnot halign
      · subst hs
        simp [sysSwapMemory, hcaller, mmSwapMultiplePhysicalPages, halign]
    cases hfound : VirtualMemory.mmGetVmaByAddress ⟨mm.heap, hd.lists.user space⟩ msg.large with
    | none => exact absurd ⟨space, hspace, halign, hfound⟩ hstray
    | some dest =>
      by_cases hfits : Unswappable mm dest msg.large (siz msg)
      · refine ⟨mm, brings_unswapped ?_, h, fun s hs => ⟨0, ?_⟩⟩
        · rintro ⟨space', dest', hspace', -, hfound', hnot⟩
          rw [hunique hspace', hfound] at hfound'
          rw [← Option.some.inj hfound'] at hnot
          exact hnot hfits
        · subst hs
          simp [sysSwapMemory, hcaller, mmSwapMultiplePhysicalPages, halign, hsrc.found, hsrc.fits,
            hfound, hfits]
      · have hdest := h.inSwapArea hfound (siz_le msg) hfits
        refine ⟨_, brings_swapped h hspace halign hdest hsrc,
          h.swapped hspace halign hdest hsrc, fun s hs => ⟨siz msg, ?_⟩⟩
        subst hs
        simp [sysSwapMemory, hcaller, swap_call halign hdest hsrc]

/-- A stray buffer is not answered. -/
lemma Stray.swap (h : Stray hd msg mm) (hready : Ready hd msg mm) {s : System} (hs : s.mm = mm) :
    sysSwapMemory hd s (spaceId msg.threadId) msg.large hd.bufferPage (siz msg) MAP_ADDRESS =
      none := by
  obtain ⟨space, hspace, halign, hfound⟩ := h
  obtain ⟨src, harea⟩ := hready.area
  have hsrc := inSwapArea_mono harea (siz_le msg)
  rw [caller] at hspace
  subst hs
  simp [sysSwapMemory, hspace, mmSwapMultiplePhysicalPages, halign, hsrc.found, hsrc.fits, hfound]

end Call

end Sgos.SectorService
