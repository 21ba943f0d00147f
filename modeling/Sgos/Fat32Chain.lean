import Mathlib.Data.Nat.Find
import Sgos.Fat32Layout

/-!
# Chains of clusters

A file is a chain through the table that ends in an end mark. What following a chain, taking a free
cluster and appending it to a chain do on a well-formed volume.
-/
namespace Sgos.Fat32
open ByteStore

variable {dev : Fat32Dev} {n : ℕ} {d : Store} {fat fat' : UInt32 → UInt32} {a b c e : UInt32}
  {xs ys : List UInt32}

/-- Following the table from `a` visits `xs` and arrives at `b`. -/
def Follows (fat : UInt32 → UInt32) : UInt32 → List UInt32 → UInt32 → Prop
  | a, [], b => a = b
  | a, x :: xs, b => a = x ∧ Follows fat (fat x) xs b

/-- The chain from `a` on consists of `xs` and ends in an end mark. -/
def IsChain (fat : UInt32 → UInt32) (a : UInt32) (xs : List UInt32) : Prop :=
  ∃ b, Follows fat a xs b ∧ IS_FAT32CLU_END b

namespace Follows

lemma congr (h : Follows fat a xs b) (hfat : ∀ x ∈ xs, fat' x = fat x) : Follows fat' a xs b := by
  induction xs generalizing a with
  | nil => exact h
  | cons x xs ih =>
    refine ⟨h.1, ?_⟩
    rw [hfat x List.mem_cons_self]
    exact ih h.2 fun y hy => hfat y (List.mem_cons_of_mem x hy)

lemma append (h : Follows fat a xs b) (h' : Follows fat b ys c) : Follows fat a (xs ++ ys) c := by
  induction xs generalizing a with
  | nil =>
    obtain rfl : a = b := h
    exact h'
  | cons x xs ih => exact ⟨h.1, ih h.2⟩

lemma split (h : Follows fat a (xs ++ ys) c) : ∃ b, Follows fat a xs b ∧ Follows fat b ys c := by
  induction xs generalizing a with
  | nil => exact ⟨a, rfl, h⟩
  | cons x xs ih =>
    obtain ⟨b, hx, hy⟩ := ih h.2
    exact ⟨b, ⟨h.1, hx⟩, hy⟩

/-- Each entry leads to another cluster of the chain, or to its end. -/
lemma next_mem (h : Follows fat a xs b) {x : UInt32} (hx : x ∈ xs) : fat x ∈ xs ∨ fat x = b := by
  obtain ⟨pre, post, rfl⟩ := List.append_of_mem hx
  obtain ⟨y, -, hy⟩ := h.split
  cases post with
  | nil => exact .inr hy.2
  | cons z post => exact .inl (by simp [hy.2.1])

end Follows

/-! ## Clusters and marks -/

lemma IsCluster.inuse (h : IsCluster n c) (hn : n + 2 ≤ 0x0fffffef) : IS_FAT32CLU_INUSE c := by
  obtain ⟨htwo, hlast⟩ := h
  simp only [IS_FAT32CLU_INUSE, Bool.and_eq_true, decide_eq_true_eq, UInt32.le_iff_toNat_le,
    UInt32.lt_iff_toNat_lt, UInt32.reduceToNat]
  omega

lemma not_inuse_of_end (h : IS_FAT32CLU_END c) : IS_FAT32CLU_INUSE c = false := by
  simp only [IS_FAT32CLU_END, decide_eq_true_eq, UInt32.le_iff_toNat_le, UInt32.reduceToNat] at h
  simp only [IS_FAT32CLU_INUSE, Bool.and_eq_false_iff, decide_eq_false_iff_not,
    UInt32.lt_iff_toNat_lt, UInt32.reduceToNat]
  omega

lemma not_inuse_zero : IS_FAT32CLU_INUSE 0 = false := by decide

lemma ne_zero_of_end (h : IS_FAT32CLU_END c) : c ≠ 0 := by
  rintro rfl
  cases h

lemma IsCluster.ne_zero (h : IsCluster n c) : c ≠ 0 := by
  rintro rfl
  obtain ⟨htwo, -⟩ := h
  cases htwo

/-- The entries of the clusters of a chain are not free. -/
lemma IsChain.entry_ne_zero (h : IsChain fat a xs) (hxs : ∀ x ∈ xs, IsCluster n x) {x : UInt32}
    (hx : x ∈ xs) : fat x ≠ 0 := by
  obtain ⟨b, hfollow, hend⟩ := h
  rcases hfollow.next_mem hx with hmem | heq
  · exact (hxs _ hmem).ne_zero
  · exact heq ▸ ne_zero_of_end hend

/-! ## Following a chain -/

lemma getCluByOrder_follows (h : Follows (nextclu dev d) a xs b)
    (hxs : ∀ x ∈ xs, IS_FAT32CLU_INUSE x) (hb : IS_FAT32CLU_INUSE b) :
    getCluByOrder dev d a xs.length = b := by
  induction xs generalizing a with
  | nil => exact h
  | cons x xs ih =>
    obtain ⟨rfl, h⟩ := h
    have hnext : IS_FAT32CLU_INUSE (nextclu dev d a) := by
      cases xs with
      | nil => exact h ▸ hb
      | cons y ys => exact h.1 ▸ hxs y (by simp)
    rw [List.length_cons, getCluByOrder]
    simp only [hnext, Bool.not_true, Bool.false_eq_true, if_false]
    exact ih h fun y hy => hxs y (List.mem_cons_of_mem a hy)

/-- Behind the last cluster of a chain there is none to be found. -/
lemma getCluByOrder_end (h : Follows (nextclu dev d) a xs b) (hxs : ∀ x ∈ xs, IS_FAT32CLU_INUSE x)
    (hne : xs ≠ []) (hb : IS_FAT32CLU_INUSE b = false) {j : ℕ} (hj : xs.length ≤ j) :
    getCluByOrder dev d a j = 0 := by
  induction xs generalizing a j with
  | nil => exact absurd rfl hne
  | cons x xs ih =>
    obtain ⟨rfl, h⟩ := h
    obtain ⟨j, rfl⟩ : ∃ i, j = i + 1 := ⟨j - 1, by rw [List.length_cons] at hj; omega⟩
    rw [List.length_cons, Nat.add_le_add_iff_right] at hj
    rw [getCluByOrder]
    cases xs with
    | nil =>
      obtain rfl : nextclu dev d a = b := h
      simp [hb]
    | cons y ys =>
      have hnext : IS_FAT32CLU_INUSE (nextclu dev d a) := h.1 ▸ hxs y (by simp)
      simp only [hnext, Bool.not_true, Bool.false_eq_true, if_false]
      exact ih h (fun z hz => hxs z (List.mem_cons_of_mem a hz)) (by simp) hj

lemma lastclu_follows (h : Follows (nextclu dev d) a (xs ++ [c]) b)
    (hxs : ∀ x ∈ xs ++ [c], IS_FAT32CLU_INUSE x) (hb : IS_FAT32CLU_INUSE b = false) {fuel : ℕ}
    (hfuel : xs.length < fuel) : lastclu dev d fuel a = c := by
  induction xs generalizing a fuel with
  | nil =>
    obtain ⟨rfl, rfl⟩ : a = c ∧ nextclu dev d c = b := h
    cases fuel <;> simp [lastclu, hb]
  | cons x xs ih =>
    obtain ⟨rfl, h⟩ := h
    cases fuel with
    | zero => cases hfuel
    | succ fuel =>
      have hnext : IS_FAT32CLU_INUSE (nextclu dev d a) := by
        cases xs with
        | nil => exact h.1 ▸ hxs c (by simp)
        | cons y ys => exact h.1 ▸ hxs y (by simp)
      rw [lastclu, if_pos hnext]
      exact ih h (fun z hz => hxs z (List.mem_cons_of_mem a hz)) (by simpa using hfuel)

/-! ## Free clusters -/

/-- The free clusters of the data area. -/
def freeClusters (dev : Fat32Dev) (d : Store) (n : ℕ) : List UInt32 :=
  ((List.range n).map fun i => UInt32.ofNat (i + 2)).filter fun c =>
    IS_FAT32CLU_FREE (nextclu dev d c)

lemma toNat_entry (hn : n + 2 ≤ 0x0fffffef) {i : ℕ} (hi : i < n) :
    (UInt32.ofNat (i + 2)).toNat = i + 2 := by
  rw [UInt32.toNat_ofNat', Nat.mod_eq_of_lt (by omega)]

lemma mem_freeClusters (hn : n + 2 ≤ 0x0fffffef) :
    c ∈ freeClusters dev d n ↔ IsCluster n c ∧ nextclu dev d c = 0 := by
  simp only [freeClusters, List.mem_filter, List.mem_map, List.mem_range, IS_FAT32CLU_FREE,
    decide_eq_true_eq]
  refine and_congr_left fun _ => ⟨?_, ?_⟩
  · rintro ⟨i, hi, rfl⟩
    have hnat := toNat_entry hn hi
    exact ⟨by omega, by omega⟩
  · rintro ⟨htwo, hlast⟩
    refine ⟨c.toNat - 2, by omega, ?_⟩
    rw [← UInt32.toNat_inj, toNat_entry hn (by omega)]
    omega

lemma nodup_freeClusters (hn : n + 2 ≤ 0x0fffffef) : (freeClusters dev d n).Nodup := by
  refine List.Nodup.filter _ (List.Nodup.map_on ?_ List.nodup_range)
  intro i hi j hj he
  rw [List.mem_range] at hi hj
  have hnat := congrArg UInt32.toNat he
  rw [toNat_entry hn hi, toNat_entry hn hj] at hnat
  omega

/-- The inner loop looks at `r` entries from entry `k` on; `i` is the first free entry. -/
lemma lookup_spec {base k i r : ℕ} {addr count : UInt32} (haddr : addr.toNat = base + 4 * k)
    (hki : k ≤ i) (hfree : readWord d (base + 4 * i) = 0)
    (hused : ∀ j, k ≤ j → j < i → readWord d (base + 4 * j) ≠ 0)
    (hlt : base + 4 * i + 4 ≤ addressSpace) (hcount : 4 * (i + 1 - k) ≤ count.toNat) :
    (∃ a : UInt32, lookup d r addr count = .ok a ∧ a.toNat = base + 4 * i) ∨
      (k + r ≤ i ∧ ∃ a c : UInt32, lookup d r addr count = .error (a, c) ∧
        a.toNat = base + 4 * (k + r) ∧ c.toNat = count.toNat - 4 * r) := by
  induction r generalizing k addr count with
  | zero => exact .inr ⟨hki, addr, count, rfl, haddr, rfl⟩
  | succ r ih =>
    by_cases hk : k = i
    · refine .inl ⟨addr, ?_, by rw [haddr, hk]⟩
      rw [lookup, haddr, hk, hfree]
      rfl
    · have hne := hused k le_rfl (by omega)
      have hfour : (4 : UInt32).toNat = 4 := rfl
      have haddr' : (addr + 4).toNat = base + 4 * (k + 1) := by
        rw [toNat_add_of_lt (by rw [haddr, hfour]; omega), haddr, hfour]
        omega
      have hcount' : (count - 4).toNat = count.toNat - 4 :=
        toNat_sub_of_le (by rw [hfour]; omega)
      rw [lookup, haddr]
      simp only [IS_FAT32CLU_FREE, decide_eq_true_eq, if_neg hne]
      have hleft : 4 * (i + 1 - (k + 1)) ≤ (count - 4).toNat := by omega
      rcases ih haddr' (by omega) (fun j hj => hused j (by omega)) hleft with
        hok | ⟨hle, a, c, hloop, ha, hc⟩
      · exact .inl hok
      · refine .inr ⟨by omega, a, c, hloop, ?_, ?_⟩
        · rw [ha]
          omega
        · rw [hc, hcount']
          omega

lemma getcluLoop_spec {k i fuel : ℕ} {addr count : UInt32} (hdvd : 4 ∣ dev.fatAddr.toNat)
    (haddr : addr.toNat = dev.fatAddr.toNat + 4 * k) (hki : k ≤ i)
    (hfree : readWord d (dev.fatAddr.toNat + 4 * i) = 0)
    (hused : ∀ j, k ≤ j → j < i → readWord d (dev.fatAddr.toNat + 4 * j) ≠ 0)
    (hlt : dev.fatAddr.toNat + 4 * i + 4 ≤ addressSpace)
    (hcount : 4 * (i + 1 - k) ≤ count.toNat) (hfuel : i - k < fuel) :
    ∃ c : UInt32, c.toNat = i ∧ getcluLoop dev d fuel addr count =
      (c, writeWord d (dev.fatAddr.toNat + 4 * i) 0xffffffff) := by
  induction fuel generalizing k addr count with
  | zero => cases hfuel
  | succ fuel ih =>
    have hpos : count > 0 := UInt32.lt_iff_toNat_lt.mpr (by rw [UInt32.toNat_zero]; omega)
    have hsize : BLOCK_SIZE.toNat = 4096 := rfl
    have hfour : (4 : UInt32).toNat = 4 := rfl
    obtain ⟨q, hq⟩ := hdvd
    -- the entries are aligned, so each block has one at least
    have hmod : (addr % BLOCK_SIZE).toNat = addr.toNat % 4096 := UInt32.toNat_mod ..
    have hroom : 0 < ((BLOCK_SIZE - addr % BLOCK_SIZE) / 4).toNat := by
      rw [UInt32.toNat_div, hfour, toNat_sub_of_le (by rw [hmod, hsize]; omega), hmod, hsize]
      omega
    rw [getcluLoop, if_pos hpos]
    rcases lookup_spec (r := ((BLOCK_SIZE - addr % BLOCK_SIZE) / 4).toNat) haddr hki hfree hused hlt
      hcount with ⟨a, hloop, ha⟩ | ⟨hle, a, c, hloop, ha, hc⟩
    · refine ⟨(a - dev.fatAddr) / 4, ?_, ?_⟩
      · rw [UInt32.toNat_div, hfour, toNat_sub_of_le (by omega), ha]
        omega
      · rw [hloop]
        simp only [ha]
    · rw [hloop]
      exact ih ha hle (fun j hj => hused j (by omega)) (by omega) (by omega)

namespace Fat32Dev.Proper

/-- The first free cluster is taken and marked as an end. -/
theorem getclu_spec (h : dev.Proper n) (hres : ∀ c : UInt32, c.toNat < 2 → nextclu dev d c ≠ 0)
    (hfree : freeClusters dev d n ≠ []) :
    ∃ c ∈ freeClusters dev d n,
      getclu dev d = (c, writeWord d (entryAddr dev c) 0xffffffff) := by
  have hentries := h.entries_le
  have hfat := h.fat_le
  have hnum := h.numbers_lt
  have hlt := dev.dataAddr.toNat_lt
  obtain ⟨e, he⟩ := List.exists_mem_of_ne_nil _ hfree
  obtain ⟨hclu, hzero⟩ := (mem_freeClusters hnum).mp he
  have hex : ∃ i, readWord d (dev.fatAddr.toNat + 4 * i) = 0 :=
    ⟨e.toNat, by rwa [nextclu, h.entryAddr_eq hclu.2] at hzero⟩
  have hle : Nat.find hex ≤ e.toNat :=
    Nat.find_min' hex (by rwa [nextclu, h.entryAddr_eq hclu.2] at hzero)
  have hspec := Nat.find_spec hex
  have hmin : ∀ j, 0 ≤ j → j < Nat.find hex → readWord d (dev.fatAddr.toNat + 4 * j) ≠ 0 :=
    fun j _ hj => Nat.find_min hex hj
  generalize Nat.find hex = i at hle hspec hmin
  have hin : i < n + 2 := lt_of_le_of_lt hle hclu.2
  have hstart : (dev.fatAddr + dev.newCluStart).toNat = dev.fatAddr.toNat + 4 * 0 := by
    simp [h.newCluStart_eq]
  have hcount : (dev.secPerFat * dev.bytPerSec).toNat = 512 * dev.secPerFat.toNat := by
    have hbytes : (512 : UInt32).toNat = 512 := rfl
    rw [h.bytPerSec_eq, toNat_mul_of_lt (by rw [hbytes, addressSpace]; omega), hbytes,
      Nat.mul_comm]
  obtain ⟨c, hc, hloop⟩ := @getcluLoop_spec dev d 0 i addressSpace _ _
    (Nat.dvd_trans (by decide) h.fatAddr_dvd) hstart (Nat.zero_le i) hspec hmin
    (by rw [addressSpace]; omega) (by rw [hcount]; omega) (by rw [addressSpace]; omega)
  have hcn : c.toNat < n + 2 := by rwa [hc]
  rw [← hc, ← h.entryAddr_eq hcn] at hloop hspec
  have htwo : 2 ≤ c.toNat := by
    by_contra hsmall
    exact hres c (by omega) hspec
  exact ⟨c, (mem_freeClusters hnum).mpr ⟨⟨htwo, hcn⟩, hspec⟩, hloop⟩

/-- No entry of the table gets over the end of a block. -/
lemma entry_in_block (h : dev.Proper n) {l : UInt32} (hl : l.toNat < n + 2) :
    ¬(dev.fatAddr + l * 4) % BLOCK_SIZE > BLOCK_SIZE - 4 := by
  have haddr := h.entryAddr_eq hl
  rw [entryAddr, address_div_mod] at haddr
  obtain ⟨q, hq⟩ := h.fatAddr_dvd
  have hsize : BLOCK_SIZE.toNat = 4096 := rfl
  have hroom : (BLOCK_SIZE - 4).toNat = 4092 := rfl
  rw [gt_iff_lt, UInt32.lt_iff_toNat_lt, hroom, UInt32.toNat_mod, haddr, hsize]
  omega

/-- A free cluster is appended to a chain; no cluster is written. -/
theorem allocclu_spec (h : dev.Proper n) (hres : ∀ c : UInt32, c.toNat < 2 → nextclu dev d c ≠ 0)
    (hfree : freeClusters dev d n ≠ []) {f : File} {l : UInt32}
    (hchain : IsChain (nextclu dev d) f.data (xs ++ [l])) (hxs : ∀ x ∈ xs ++ [l], IsCluster n x)
    (hnodup : (xs ++ [l]).Nodup) :
    ∃ c ∈ freeClusters dev d n, ∃ d', allocclu dev d f = (c, d') ∧
      (∀ e : UInt32, e.toNat < n + 2 → nextclu dev d' e =
        if e = l then c else if e = c then 0xffffffff else nextclu dev d e) ∧
      ∀ e, IsCluster n e → readclu dev d' e = readclu dev d e := by
  have hnum := h.numbers_lt
  obtain ⟨b, hfollow, hend⟩ := hchain
  have hl := hxs l (by simp)
  have hlast : lastclu dev d addressSpace f.data = l := by
    refine lastclu_follows hfollow (fun x hx => (hxs x hx).inuse hnum) (not_inuse_of_end hend) ?_
    have hlen := nodup_length_le hnodup
    rw [List.length_append, List.length_singleton] at hlen
    omega
  have hnext : nextclu dev d l = b := by
    obtain ⟨_, -, hb⟩ := hfollow.split
    exact hb.2
  obtain ⟨c, hc, hget⟩ := h.getclu_spec hres hfree
  obtain ⟨hclu, -⟩ := (mem_freeClusters hnum).mp hc
  refine ⟨c, hc, writeWord (writeWord d (entryAddr dev c) 0xffffffff) (entryAddr dev l) c, ?_,
    fun e he => ?_, fun e he => ?_⟩
  · simp only [allocclu, hlast, if_neg (h.entry_in_block hl.2), hnext, hend, if_true, hget]
  · rw [h.nextclu_setEntry _ hl.2 _ he, h.nextclu_setEntry _ hclu.2 _ he]
  · rw [h.readclu_setEntry _ hl.2 _ he, h.readclu_setEntry _ hclu.2 _ he]

end Fat32Dev.Proper

/-- The chain with the new cluster at its end. -/
lemma IsChain.append_new {l : UInt32} (hchain : IsChain fat a (xs ++ [l]))
    (hnodup : (xs ++ [l]).Nodup) (hc : c ∉ xs ++ [l])
    (hfat : ∀ e ∈ xs ++ [l, c], fat' e = if e = l then c else if e = c then 0xffffffff else fat e) :
    Follows fat' a (xs ++ [l]) c ∧ IsChain fat' c [c] := by
  obtain ⟨b, hfollow, -⟩ := hchain
  obtain ⟨m, hxs, hl⟩ := hfollow.split
  have hlx : l ∉ xs := fun hm => (List.nodup_append'.mp hnodup).2.2 hm (by simp)
  have hcl : c ≠ l := fun he => hc (by simp [he])
  have hcx : c ∉ xs := fun hm => hc (by simp [hm])
  refine ⟨(hxs.congr fun x hx => ?_).append ⟨hl.1, ?_⟩, 0xffffffff, ⟨rfl, ?_⟩, rfl⟩
  · have hxl : x ≠ l := fun he => hlx (he ▸ hx)
    have hxc : x ≠ c := fun he => hcx (he ▸ hx)
    rw [hfat x (by simp [hx]), if_neg hxl, if_neg hxc]
  · rw [hfat l (by simp), if_pos rfl]
    rfl
  · rw [hfat c (by simp), if_neg hcl, if_pos rfl]
    rfl

/-- The appended cluster is no longer free; the others are as before. -/
lemma freeClusters_alloc (hn : n + 2 ≤ 0x0fffffef) {d' : Store} {l : UInt32}
    (hl : nextclu dev d l ≠ 0) (hc : c ∈ freeClusters dev d n)
    (hfat : ∀ e : UInt32, e.toNat < n + 2 → nextclu dev d' e =
      if e = l then c else if e = c then 0xffffffff else nextclu dev d e) :
    freeClusters dev d' n = (freeClusters dev d n).erase c := by
  have hclu := ((mem_freeClusters hn).mp hc).1
  rw [(nodup_freeClusters hn).erase_eq_filter, freeClusters, freeClusters, List.filter_filter]
  refine List.filter_congr fun e he => ?_
  obtain ⟨i, hi, rfl⟩ := List.mem_map.mp he
  have hlt : (UInt32.ofNat (i + 2)).toNat < n + 2 := by
    rw [toNat_entry hn (List.mem_range.mp hi)]
    exact Nat.add_lt_add_right (List.mem_range.mp hi) 2
  rw [hfat _ hlt]
  generalize UInt32.ofNat (i + 2) = e
  by_cases hel : e = l
  · simp [hel, IS_FAT32CLU_FREE, hclu.ne_zero, hl]
  · by_cases hec : e = c
    · rw [if_neg hel, if_pos hec]
      simp [hec, IS_FAT32CLU_FREE]
    · simp [hel, hec]

end Sgos.Fat32
