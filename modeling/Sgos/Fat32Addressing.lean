import Sgos.Fat32WriteRead

/-!
# Where the clusters of a volume are

`fat32_init` takes any boot sector with one of two marks. The block of a cluster is computed from
sectors, as if each had 512 bytes, and its offset in the block from bytes.
-/
namespace Sgos.Fat32
open ByteStore

namespace Addressing

section Volume
variable (dev : Fat32Dev)

/-- A cluster in use whose bytes have 32-bit addresses. -/
def Fits (c : UInt32) : Prop :=
  IS_FAT32CLU_INUSE c = true ∧
    dev.dataAddr.toNat + (c.toNat - 1) * dev.bytPerClu.toNat ≤ addressSpace

/-- The addresses of a cluster. -/
def InClu (c : UInt32) (a : ℕ) : Prop :=
  cluAddr dev c ≤ a ∧ a < cluAddr dev c + dev.bytPerClu.toNat

/-- The addresses of the table of clusters. -/
def InFat (a : ℕ) : Prop :=
  dev.fatAddr.toNat ≤ a ∧ a < dev.fatAddr.toNat + dev.secPerFat.toNat * dev.bytPerSec.toNat

/-- Clusters are read and written where the format puts them, apart from each other and from the
table. The two divisors of all operations are not zero. -/
structure Addressed : Prop where
  bytPerSec_ne : dev.bytPerSec ≠ 0
  bytPerClu_ne : dev.bytPerClu ≠ 0
  read : ∀ d c, Fits dev c →
    readclu dev d c = readBytes d (cluAddr dev c) dev.bytPerClu.toNat
  write : ∀ d c data, Fits dev c → data.length = dev.bytPerClu.toNat →
    writeclu dev d c data = writeBytes d (cluAddr dev c) data
  apart : ∀ c e a, Fits dev c → Fits dev e → InClu dev c a → InClu dev e a → c = e
  table : ∀ c a, Fits dev c → InClu dev c a → ¬InFat dev a

/-- Sectors and clusters have bytes, and unless not even the first cluster has 32-bit addresses the
sectors have 512 bytes and the data area is behind the table. -/
structure Addressable : Prop where
  bytPerSec_ne : dev.bytPerSec ≠ 0
  secPerClu_ne : dev.secPerClu ≠ 0
  layout : addressSpace < dev.dataAddr.toNat + dev.bytPerClu.toNat ∨ dev.bytPerSec = 512 ∧
    (dev.secPerFat = 0 ∨ dev.fatAddr.toNat + 512 * dev.secPerFat.toNat ≤ dev.dataAddr.toNat)

/-- What the boot sector leaves to the numbers of a volume. -/
structure Booted : Prop where
  bytPerSec_lt : dev.bytPerSec.toNat < 65536
  secPerClu_lt : dev.secPerClu.toNat < 256
  bytPerClu_eq : dev.bytPerClu.toNat = dev.bytPerSec.toNat * dev.secPerClu.toNat
  fatAddr_le : dev.fatAddr.toNat ≤ 65535 * dev.bytPerSec.toNat

end Volume

lemma booted {boot : BootSec} {dev : Fat32Dev} (hinit : fat32Init boot = some dev) :
    Booted dev := by
  have hbytes := boot.bytPerSec.toNat_lt
  have hres := boot.secReserved.toNat_lt
  have hsec := boot.secPerClu.toNat_lt
  rw [fat32Init] at hinit
  split_ifs at hinit with hebr
  obtain rfl := Option.some.inj hinit
  have hfat : (boot.bytPerSec.toUInt32 * boot.secReserved.toUInt32).toNat =
      boot.bytPerSec.toNat * boot.secReserved.toNat := by
    rw [toNat_mul_of_lt, UInt16.toNat_toUInt32, UInt16.toNat_toUInt32]
    calc boot.bytPerSec.toUInt32.toNat * boot.secReserved.toUInt32.toNat
        ≤ 65535 * 65535 := Nat.mul_le_mul
          (by rw [UInt16.toNat_toUInt32]; omega) (by rw [UInt16.toNat_toUInt32]; omega)
      _ < addressSpace := by decide
  have hclu : (boot.bytPerSec.toUInt32 * boot.secPerClu.toUInt32).toNat =
      boot.bytPerSec.toNat * boot.secPerClu.toNat := by
    rw [toNat_mul_of_lt, UInt16.toNat_toUInt32, UInt8.toNat_toUInt32]
    calc boot.bytPerSec.toUInt32.toNat * boot.secPerClu.toUInt32.toNat
        ≤ 65535 * 255 := Nat.mul_le_mul
          (by rw [UInt16.toNat_toUInt32]; omega) (by rw [UInt8.toNat_toUInt32]; omega)
      _ < addressSpace := by decide
  refine ⟨?_, ?_, ?_, ?_⟩
  · rw [UInt16.toNat_toUInt32]
    exact hbytes
  · rw [UInt8.toNat_toUInt32]
    exact hsec
  · rw [hclu, UInt16.toNat_toUInt32, UInt8.toNat_toUInt32]
  · rw [hfat, UInt16.toNat_toUInt32, Nat.mul_comm]
    exact Nat.mul_le_mul_right _ (by omega)

section Booted
variable {dev : Fat32Dev} {c : UInt32}

lemma two_le_of_inuse (h : IS_FAT32CLU_INUSE c = true) : 2 ≤ c.toNat := by
  rw [IS_FAT32CLU_INUSE, Bool.and_eq_true, decide_eq_true_eq] at h
  exact UInt32.le_iff_toNat_le.mp h.1

/-- The number of a cluster that is `k` clusters behind the first one. -/
lemma exists_fits {k : ℕ} (hk : k < 0x0fffffed)
    (hfit : dev.dataAddr.toNat + (k + 1) * dev.bytPerClu.toNat ≤ addressSpace) :
    ∃ c, Fits dev c ∧ cluAddr dev c = dev.dataAddr.toNat + k * dev.bytPerClu.toNat := by
  have hnat : (UInt32.ofNat (k + 2)).toNat = k + 2 := by
    rw [UInt32.toNat_ofNat']
    exact Nat.mod_eq_of_lt (by omega)
  refine ⟨UInt32.ofNat (k + 2), ⟨?_, ?_⟩, ?_⟩
  · have htwo : (2 : UInt32).toNat = 2 := rfl
    have hlast : (0x0fffffef : UInt32).toNat = 0x0fffffef := rfl
    rw [IS_FAT32CLU_INUSE, Bool.and_eq_true, decide_eq_true_eq, decide_eq_true_eq,
      UInt32.le_iff_toNat_le, UInt32.lt_iff_toNat_lt, hnat, htwo, hlast]
    omega
  · rwa [hnat]
  · rw [cluAddr, hnat, Nat.add_sub_cancel]

/-- The offset in the block is right for sectors of any size. -/
lemma cluPos_eq (hc : 2 ≤ c.toNat) : (cluPos dev c).toNat = cluAddr dev c % 4096 := by
  have hsize : BLOCK_SIZE.toNat = 4096 := rfl
  have htwo : (c - 2).toNat = c.toNat - 2 := toNat_sub_of_le hc
  have hdvd : (4096 : ℕ) ∣ 2 ^ 32 := by decide
  have hmul : ((c - 2) % BLOCK_SIZE * dev.bytPerClu % BLOCK_SIZE).toNat =
      (c.toNat - 2) * dev.bytPerClu.toNat % 4096 := by
    rw [UInt32.toNat_mod, UInt32.toNat_mul, UInt32.toNat_mod, hsize, htwo,
      Nat.mod_mod_of_dvd _ hdvd, Nat.mod_mul_mod]
  have hfirst : (dev.dataAddr % BLOCK_SIZE).toNat = dev.dataAddr.toNat % 4096 := by
    rw [UInt32.toNat_mod, hsize]
  rw [cluPos, UInt32.toNat_mod, UInt32.toNat_add, hsize, Nat.mod_mod_of_dvd _ hdvd, hfirst, hmul,
    ← Nat.add_mod, cluAddr]

lemma bytPerSec_pos (hbytes : dev.bytPerSec ≠ 0) : 0 < dev.bytPerSec.toNat :=
  Nat.pos_of_ne_zero fun h => hbytes (UInt32.toNat_inj.mp h)

lemma cluAddr_fits (hc : Fits dev c) : cluAddr dev c + dev.bytPerClu.toNat ≤ addressSpace := by
  have htwo := two_le_of_inuse hc.1
  have hle := hc.2
  have hsucc : c.toNat - 1 = c.toNat - 2 + 1 := by omega
  rw [hsucc, Nat.add_mul, Nat.one_mul] at hle
  rw [cluAddr]
  omega

lemma Booted.bytPerClu_le (hb : Booted dev) : dev.bytPerClu.toNat ≤ 65535 * 255 := by
  rw [hb.bytPerClu_eq]
  exact Nat.mul_le_mul (Nat.le_of_lt_succ hb.bytPerSec_lt) (Nat.le_of_lt_succ hb.secPerClu_lt)

section Divisors
variable (hb : Booted dev) (hbytes : dev.bytPerSec ≠ 0) (hsec : dev.secPerClu ≠ 0)
include hb hbytes hsec

lemma bytPerClu_pos : 0 < dev.bytPerClu.toNat := by
  rw [hb.bytPerClu_eq]
  exact Nat.mul_pos (bytPerSec_pos hbytes)
    (Nat.pos_of_ne_zero fun h => hsec (UInt32.toNat_inj.mp h))

/-- The block is counted in units of eight sectors. -/
lemma cluBlock_eq (hc : Fits dev c) :
    (cluBlock dev c).toNat = cluAddr dev c / dev.bytPerSec.toNat / 8 := by
  have hpos := bytPerSec_pos hbytes
  have hclu := bytPerClu_pos hb hbytes hsec
  have hfit := cluAddr_fits hc
  have htwo : (c - 2).toNat = c.toNat - 2 := toNat_sub_of_le (two_le_of_inuse hc.1)
  have height : (BLOCK_SIZE / SECTOR_SIZE).toNat = 8 := rfl
  have hsector : cluAddr dev c / dev.bytPerSec.toNat =
      dev.dataAddr.toNat / dev.bytPerSec.toNat + (c.toNat - 2) * dev.secPerClu.toNat := by
    rw [cluAddr, hb.bytPerClu_eq, Nat.mul_left_comm, Nat.add_mul_div_left _ _ hpos]
  have hlt : cluAddr dev c / dev.bytPerSec.toNat < addressSpace :=
    lt_of_le_of_lt (Nat.div_le_self _ _) (by omega)
  have hle : (c.toNat - 2) * dev.secPerClu.toNat ≤ cluAddr dev c / dev.bytPerSec.toNat := by
    rw [hsector]
    exact Nat.le_add_left _ _
  have hmul : ((c - 2) * dev.secPerClu).toNat = (c.toNat - 2) * dev.secPerClu.toNat := by
    rw [toNat_mul_of_lt (by rw [htwo]; omega), htwo]
  rw [cluBlock, UInt32.toNat_div, height, toNat_add_of_lt, hmul, UInt32.toNat_div, ← hsector]
  rw [hmul, UInt32.toNat_div, ← hsector]
  exact hlt

/-- Where the code puts a cluster. -/
lemma address_clu (hc : Fits dev c) : address (cluBlock dev c) (cluPos dev c) =
    cluAddr dev c / dev.bytPerSec.toNat / 8 * 4096 + cluAddr dev c % 4096 := by
  have hsize : BLOCK_SIZE.toNat = 4096 := rfl
  rw [address, cluBlock_eq hb hbytes hsec hc, cluPos_eq (two_le_of_inuse hc.1), hsize]

lemma address_clu_le (hc : Fits dev c) :
    address (cluBlock dev c) (cluPos dev c) + dev.bytPerClu.toNat ≤ 4096 * addressSpace := by
  have hfit := cluAddr_fits hc
  have hdiv : cluAddr dev c / dev.bytPerSec.toNat ≤ cluAddr dev c := Nat.div_le_self _ _
  rw [address_clu hb hbytes hsec hc]
  rw [addressSpace] at hfit ⊢
  omega

lemma readclu_eq (hc : Fits dev c) (d : Store) : readclu dev d c =
    readBytes d (address (cluBlock dev c) (cluPos dev c)) dev.bytPerClu.toNat :=
  readBlocks_eq _ _ _ _ _ le_rfl (Fat32Dev.Proper.cluPos_lt dev c)
    (address_clu_le hb hbytes hsec hc)

lemma writeclu_eq (hc : Fits dev c) (d : Store) {data : List UInt8}
    (hlen : data.length = dev.bytPerClu.toNat) : writeclu dev d c data =
      writeBytes d (address (cluBlock dev c) (cluPos dev c)) data :=
  writeBlocks_eq _ _ _ _ _ le_rfl (Fat32Dev.Proper.cluPos_lt dev c)
    (hlen ▸ address_clu_le hb hbytes hsec hc)

end Divisors

/-- A store tells two addresses apart. -/
lemma eq_of_readBytes {a b n : ℕ} (hn : 0 < n) (h : ∀ d, readBytes d a n = readBytes d b n) :
    a = b := by
  obtain ⟨n, rfl⟩ : ∃ m, n = m + 1 := ⟨n - 1, by omega⟩
  have hmark := congrArg List.head? (h fun x => if x = b then 1 else 0)
  by_contra hne
  simp [readBytes, List.range_succ_eq_map, hne] at hmark

/-- Counting with sectors that have not 512 bytes goes wrong in the third megabyte at the latest. -/
lemma block_ne {x b : ℕ} (hpos : 0 < b) (hne : b ≠ 512) (hx : 2101248 ≤ x) :
    x / b / 8 ≠ x / 4096 := by
  rw [Nat.div_div_eq_div_mul]
  rcases Nat.lt_or_gt_of_ne hne with hlt | hlt
  · have hle : x / 4088 ≤ x / (b * 8) := Nat.div_le_div_left (by omega) (by omega)
    omega
  · have hle : x / (b * 8) ≤ x / 4104 := Nat.div_le_div_left (by omega) (by decide)
    omega

section Layout
variable (hb : Booted dev) (hbytes : dev.bytPerSec ≠ 0) (hsec : dev.secPerClu ≠ 0)
include hb hbytes hsec

/-- If the first cluster is on the device, some cluster is misplaced unless sectors have 512 bytes. -/
lemma bytPerSec_eq (hfit : dev.dataAddr.toNat + dev.bytPerClu.toNat ≤ addressSpace)
    (hread : ∀ d c, Fits dev c →
      readclu dev d c = readBytes d (cluAddr dev c) dev.bytPerClu.toNat) : dev.bytPerSec = 512 := by
  by_contra hne
  have hpos := bytPerSec_pos hbytes
  have hclu := bytPerClu_pos hb hbytes hsec
  have hsmall := hb.bytPerClu_le
  obtain ⟨k, hk, hfar, hin⟩ : ∃ k < 0x0fffffed,
      2101248 ≤ dev.dataAddr.toNat + k * dev.bytPerClu.toNat ∧
      dev.dataAddr.toNat + (k + 1) * dev.bytPerClu.toNat ≤ addressSpace := by
    by_cases hdata : 2101248 ≤ dev.dataAddr.toNat
    · exact ⟨0, by decide, by omega, by omega⟩
    · have hdiv := Nat.div_add_mod' (2101248 - dev.dataAddr.toNat) dev.bytPerClu.toNat
      have hmod := Nat.mod_lt (2101248 - dev.dataAddr.toNat) hclu
      have hle : (2101248 - dev.dataAddr.toNat) / dev.bytPerClu.toNat ≤ 2101248 :=
        (Nat.div_le_self _ _).trans (Nat.sub_le _ _)
      refine ⟨(2101248 - dev.dataAddr.toNat) / dev.bytPerClu.toNat + 1, by omega, ?_, ?_⟩
      · rw [Nat.add_mul]
        omega
      · rw [addressSpace, Nat.add_mul, Nat.add_mul]
        omega
  obtain ⟨c, hc, haddr⟩ := exists_fits hk hin
  have heq : address (cluBlock dev c) (cluPos dev c) = cluAddr dev c :=
    eq_of_readBytes hclu fun d => by rw [← readclu_eq hb hbytes hsec hc, hread d c hc]
  rw [address_clu hb hbytes hsec hc] at heq
  refine block_ne hpos (fun h => hne (UInt32.toNat_inj.mp h)) (haddr ▸ hfar) ?_
  have hdiv := Nat.div_add_mod' (cluAddr dev c) 4096
  omega

omit hbytes hsec in
/-- If the table does not end before the data area, some cluster is in it. -/
lemma table_le (hclu : 0 < dev.bytPerClu.toNat)
    (hfit : dev.dataAddr.toNat + dev.bytPerClu.toNat ≤ addressSpace)
    (hfat : dev.fatAddr.toNat ≤ 65535 * 512)
    (htable : ∀ c a, Fits dev c → InClu dev c a → ¬InFat dev a) :
    dev.secPerFat.toNat * dev.bytPerSec.toNat = 0 ∨
      dev.fatAddr.toNat + dev.secPerFat.toNat * dev.bytPerSec.toNat ≤ dev.dataAddr.toNat := by
  have hsmall := hb.bytPerClu_le
  by_contra hnot
  by_cases hle : dev.fatAddr.toNat ≤ dev.dataAddr.toNat
  · obtain ⟨c, hc, haddr⟩ := @exists_fits dev 0 (by decide) (by omega)
    refine htable c dev.dataAddr.toNat hc ⟨?_, ?_⟩ ⟨hle, by omega⟩
    · omega
    · omega
  · have hdiv := Nat.div_add_mod' (dev.fatAddr.toNat - dev.dataAddr.toNat) dev.bytPerClu.toNat
    have hmod := Nat.mod_lt (dev.fatAddr.toNat - dev.dataAddr.toNat) hclu
    have hk : (dev.fatAddr.toNat - dev.dataAddr.toNat) / dev.bytPerClu.toNat ≤ dev.fatAddr.toNat :=
      (Nat.div_le_self _ _).trans (Nat.sub_le _ _)
    generalize (dev.fatAddr.toNat - dev.dataAddr.toNat) / dev.bytPerClu.toNat = k at hdiv hk
    obtain ⟨c, hc, haddr⟩ := @exists_fits dev k (by omega) (by
      rw [addressSpace, Nat.add_mul]
      omega)
    refine htable c dev.fatAddr.toNat hc ⟨?_, ?_⟩ ⟨le_rfl, by omega⟩
    · omega
    · omega

omit hbytes hsec in
lemma addressable_of (h : Addressed dev) : Addressable dev := by
  have hpos := Nat.pos_of_ne_zero fun h0 => h.bytPerClu_ne (UInt32.toNat_inj.mp h0)
  have hsec : dev.secPerClu ≠ 0 := by
    intro h0
    rw [hb.bytPerClu_eq, h0] at hpos
    exact absurd hpos (Nat.lt_irrefl 0)
  refine ⟨h.bytPerSec_ne, hsec, ?_⟩
  by_cases hfit : dev.dataAddr.toNat + dev.bytPerClu.toNat ≤ addressSpace
  · have h512 := bytPerSec_eq hb h.bytPerSec_ne hsec hfit h.read
    have hbyte : dev.bytPerSec.toNat = 512 := by rw [h512]; rfl
    have hfat := hb.fatAddr_le
    rw [hbyte] at hfat
    have htable := table_le hb hpos hfit hfat h.table
    rw [hbyte] at htable
    refine .inr ⟨h512, htable.imp (fun h0 => UInt32.toNat_inj.mp ?_) fun hle => ?_⟩
    · rw [UInt32.toNat_zero]
      omega
    · omega
  · exact .inl (by omega)

omit hbytes hsec in
lemma addressed_of (h : Addressable dev) : Addressed dev := by
  have hclu := bytPerClu_pos hb h.bytPerSec_ne h.secPerClu_ne
  have hne : dev.bytPerClu ≠ 0 := by
    intro h0
    rw [h0] at hclu
    exact absurd hclu (Nat.lt_irrefl 0)
  have hlayout : ∀ c, Fits dev c → dev.bytPerSec = 512 ∧ (dev.secPerFat = 0 ∨
      dev.fatAddr.toNat + 512 * dev.secPerFat.toNat ≤ dev.dataAddr.toNat) := by
    intro c hc
    have hfit := cluAddr_fits hc
    rw [cluAddr] at hfit
    exact h.layout.resolve_left (by omega)
  have haddr : ∀ c, Fits dev c → address (cluBlock dev c) (cluPos dev c) = cluAddr dev c := by
    intro c hc
    have hbyte : dev.bytPerSec.toNat = 512 := by rw [(hlayout c hc).1]; rfl
    rw [address_clu hb h.bytPerSec_ne h.secPerClu_ne hc, hbyte, Nat.div_div_eq_div_mul]
    exact Nat.div_add_mod' _ 4096
  refine ⟨h.bytPerSec_ne, hne, fun d c hc => ?_, fun d c data hc hlen => ?_,
    fun c e a hc he hac hae => ?_, fun c a hc hac hfat => ?_⟩
  · rw [readclu_eq hb h.bytPerSec_ne h.secPerClu_ne hc, haddr c hc]
  · rw [writeclu_eq hb h.bytPerSec_ne h.secPerClu_ne hc d hlen, haddr c hc]
  · by_contra hce
    have hc2 := two_le_of_inuse hc.1
    have he2 := two_le_of_inuse he.1
    have hcl := c.toNat_lt
    have hel := e.toNat_lt
    have hdis := @Fat32Dev.Proper.cluAddr_disjoint addressSpace c e dev
      ⟨hc2, by rw [addressSpace]; omega⟩ ⟨he2, by rw [addressSpace]; omega⟩ hce
    obtain ⟨hac1, hac2⟩ := hac
    obtain ⟨hae1, hae2⟩ := hae
    omega
  · obtain ⟨h512, hempty | hle⟩ := hlayout c hc
    · obtain ⟨hlow, hhigh⟩ := hfat
      have hzero : dev.secPerFat.toNat = 0 := by rw [hempty]; rfl
      rw [hzero, Nat.zero_mul] at hhigh
      omega
    · obtain ⟨hlow, hhigh⟩ := hfat
      have hbyte : dev.bytPerSec.toNat = 512 := by rw [h512]; rfl
      rw [hbyte] at hhigh
      have hbase : dev.dataAddr.toNat ≤ cluAddr dev c := Nat.le_add_right _ _
      obtain ⟨hac, -⟩ := hac
      omega

end Layout

end Booted

/-- A boot sector is rejected, or gives numbers that address all clusters, exactly if it is rejected
or the numbers are addressable. -/
theorem addressed_iff (boot : BootSec) : (∀ dev, fat32Init boot = some dev → Addressed dev) ↔
    ∀ dev, fat32Init boot = some dev → Addressable dev := by
  constructor
  · intro h dev hinit
    exact addressable_of (booted hinit) (h dev hinit)
  · intro h dev hinit
    exact addressed_of (booted hinit) (h dev hinit)

/-- With sectors of 2048 bytes the first cluster, at 12288, is read from the beginning of the device. -/
theorem not_addressed :
    ¬∀ (boot : BootSec) (dev : Fat32Dev), fat32Init boot = some dev → Addressed dev := by
  intro h
  have hread := (h ⟨2048, 1, 2, 1, 4, 2, 0x29⟩ _ rfl).read
    (fun a => if a < 12288 then 0 else 1) 2 ⟨by decide, by decide⟩
  have hbyte := congrArg List.head? hread
  revert hbyte
  decide +kernel

end Addressing

end Sgos.Fat32
