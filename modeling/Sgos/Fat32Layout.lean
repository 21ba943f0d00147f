import Mathlib.Data.Nat.ModEq
import Sgos.Fat32

/-!
# The layout of a FAT32 volume

On a well-formed volume the block and offset that the code computes for an entry of the table, or
for a cluster, are the address where the format puts it. So entries and clusters do not overlap,
and a write of one is seen in no other.
-/
namespace Sgos.Fat32
open ByteStore

/-- A well-formed volume of `n` clusters, with sectors of 512 bytes. -/
structure Fat32Dev.Proper (dev : Fat32Dev) (n : ℕ) : Prop where
  bytPerSec_eq : dev.bytPerSec = 512
  secPerClu_pos : 0 < dev.secPerClu.toNat
  secPerClu_lt : dev.secPerClu.toNat < 256
  bytPerClu_eq : dev.bytPerClu.toNat = 512 * dev.secPerClu.toNat
  newCluStart_eq : dev.newCluStart = 0
  fatAddr_dvd : 512 ∣ dev.fatAddr.toNat
  dataAddr_dvd : 512 ∣ dev.dataAddr.toNat
  fat_le : dev.fatAddr.toNat + 512 * dev.secPerFat.toNat ≤ dev.dataAddr.toNat
  entries_le : 4 * (n + 2) ≤ 512 * dev.secPerFat.toNat
  numbers_lt : n + 2 ≤ 0x0fffffef
  sectors_le : dev.dataAddr.toNat / 512 + n * dev.secPerClu.toNat ≤ addressSpace

/-- A cluster of the data area. -/
def IsCluster (n : ℕ) (c : UInt32) : Prop := 2 ≤ c.toNat ∧ c.toNat < n + 2

/-- Where the format puts a cluster. -/
def cluAddr (dev : Fat32Dev) (c : UInt32) : ℕ :=
  dev.dataAddr.toNat + (c.toNat - 2) * dev.bytPerClu.toNat

variable {dev : Fat32Dev} {n : ℕ} {d : Store} {c e : UInt32}

lemma address_div_mod (a : UInt32) : address (a / BLOCK_SIZE) (a % BLOCK_SIZE) = a.toNat := by
  rw [address, UInt32.toNat_div, UInt32.toNat_mod, Nat.div_add_mod']

/-- The next block begins where a block ends. -/
lemma address_succ {block pos : UInt32} (hpos : pos.toNat < 4096)
    (hend : address block pos + (4096 - pos.toNat) < 4096 * addressSpace) :
    address (block + 1) 0 = address block pos + (4096 - pos.toNat) := by
  have haddr : address block pos = block.toNat * 4096 + pos.toNat := rfl
  have hnext : address (block + 1) 0 = (block + 1).toNat * 4096 + 0 := rfl
  have hone : (1 : UInt32).toNat = 1 := rfl
  have hblock : block.toNat + (1 : UInt32).toNat < addressSpace := by
    rw [addressSpace] at hend ⊢
    omega
  rw [hnext, toNat_add_of_lt hblock, hone]
  omega

/-- Writing block by block is one write, when the block numbers do not wrap. -/
lemma writeBlocks_eq (fuel : ℕ) (d : Store) (block pos : UInt32) (data : List UInt8)
    (hfuel : data.length ≤ fuel) (hpos : pos.toNat < 4096)
    (hend : address block pos + data.length ≤ 4096 * addressSpace) :
    writeBlocks fuel d block pos data = writeBytes d (address block pos) data := by
  induction fuel generalizing d block pos data with
  | zero =>
    obtain rfl := List.length_eq_zero_iff.mp (by omega : data.length = 0)
    exact (writeBytes_nil _ _).symm
  | succ fuel ih =>
    rw [writeBlocks]
    by_cases hdata : data = []
    · rw [if_pos hdata, hdata, writeBytes_nil]
    · have hlen := List.length_pos_of_ne_nil hdata
      have hroom : (BLOCK_SIZE - pos).toNat = 4096 - pos.toNat := toNat_sub_of_le hpos.le
      simp only [if_neg hdata, hroom]
      by_cases hfit : data.length ≤ 4096 - pos.toNat
      · rw [min_eq_right hfit, List.take_length, List.drop_length]
        cases fuel <;> simp [writeBlocks]
      · rw [min_eq_left (by omega)]
        have hnext := @address_succ block pos hpos (by omega)
        have hlong : (data.take (4096 - pos.toNat)).length = 4096 - pos.toNat := by
          rw [List.length_take]
          omega
        rw [ih _ _ _ _ (by rw [List.length_drop]; omega) (by decide)
          (by rw [hnext, List.length_drop]; omega), hnext]
        nth_rewrite 2 [← hlong]
        rw [writeBytes_append, List.take_append_drop]

/-- Reading block by block is one read, when the block numbers do not wrap. -/
lemma readBlocks_eq (d : Store) (fuel : ℕ) (block pos : UInt32) (size : ℕ)
    (hfuel : size ≤ fuel) (hpos : pos.toNat < 4096)
    (hend : address block pos + size ≤ 4096 * addressSpace) :
    readBlocks d fuel block pos size = readBytes d (address block pos) size := by
  induction fuel generalizing block pos size with
  | zero =>
    obtain rfl : size = 0 := by omega
    rfl
  | succ fuel ih =>
    rw [readBlocks]
    by_cases hsize : size = 0
    · rw [if_pos hsize, hsize]
      rfl
    · have hroom : (BLOCK_SIZE - pos).toNat = 4096 - pos.toNat := toNat_sub_of_le hpos.le
      simp only [if_neg hsize, hroom]
      by_cases hfit : size ≤ 4096 - pos.toNat
      · rw [min_eq_right hfit, Nat.sub_self]
        cases fuel <;> simp [readBlocks]
      · rw [min_eq_left (by omega)]
        have hnext := @address_succ block pos hpos (by omega)
        rw [ih _ _ _ (by omega) (by decide) (by rw [hnext]; omega), hnext, readBytes_append,
          Nat.add_sub_of_le (by omega)]

/-- What `fat32_init` computes from the boot sector of a volume that fits 32-bit numbers. -/
theorem fat32Init_proper {boot : BootSec} (hinit : fat32Init boot = some dev)
    (hbytes : boot.bytPerSec = 512) (hclu : 0 < boot.secPerClu.toNat) (hfats : 0 < boot.fats.toNat)
    (hentries : 4 * (n + 2) ≤ 512 * boot.secPerFat.toNat) (hnum : n + 2 ≤ 0x0fffffef)
    (hdata : 512 * (boot.secReserved.toNat + boot.fats.toNat * boot.secPerFat.toNat) < addressSpace)
    (hsec : boot.secReserved.toNat + boot.fats.toNat * boot.secPerFat.toNat +
      n * boot.secPerClu.toNat ≤ addressSpace) : dev.Proper n := by
  have h512 : (512 : UInt16).toUInt32.toNat = 512 := rfl
  have hle : boot.secPerFat.toNat ≤ boot.fats.toNat * boot.secPerFat.toNat :=
    Nat.le_mul_of_pos_left _ hfats
  have hsmall : boot.secPerClu.toNat < 256 := boot.secPerClu.toNat_lt
  have hfat : (boot.bytPerSec.toUInt32 * boot.secReserved.toUInt32).toNat =
      512 * boot.secReserved.toNat := by
    rw [toNat_mul_of_lt, hbytes, h512, UInt16.toNat_toUInt32]
    rw [hbytes, h512, UInt16.toNat_toUInt32]
    omega
  have htables : (boot.fats.toUInt32 * boot.secPerFat * boot.bytPerSec.toUInt32).toNat =
      512 * (boot.fats.toNat * boot.secPerFat.toNat) := by
    have hmul : (boot.fats.toUInt32 * boot.secPerFat).toNat =
        boot.fats.toNat * boot.secPerFat.toNat := by
      rw [toNat_mul_of_lt, UInt8.toNat_toUInt32]
      rw [UInt8.toNat_toUInt32]
      omega
    rw [toNat_mul_of_lt, hmul, hbytes, h512, Nat.mul_comm]
    rw [hmul, hbytes, h512]
    omega
  rw [fat32Init] at hinit
  split_ifs at hinit with hebr
  obtain rfl := Option.some.inj hinit
  have hsum : (boot.bytPerSec.toUInt32 * boot.secReserved.toUInt32 +
      boot.fats.toUInt32 * boot.secPerFat * boot.bytPerSec.toUInt32).toNat =
      512 * (boot.secReserved.toNat + boot.fats.toNat * boot.secPerFat.toNat) := by
    rw [toNat_add_of_lt, hfat, htables, Nat.mul_add]
    rw [hfat, htables]
    omega
  refine ⟨by rw [hbytes]; rfl, by rwa [UInt8.toNat_toUInt32], by rwa [UInt8.toNat_toUInt32], ?_, rfl,
    ⟨_, hfat⟩, ⟨_, hsum⟩, ?_, hentries, hnum, ?_⟩
  · rw [toNat_mul_of_lt, hbytes, h512]
    rw [hbytes, h512, UInt8.toNat_toUInt32, addressSpace]
    omega
  · simp only [hfat, hsum]
    omega
  · simp only [hsum, UInt8.toNat_toUInt32]
    omega

namespace Fat32Dev.Proper

lemma entryAddr_eq (h : dev.Proper n) (hc : c.toNat < n + 2) :
    entryAddr dev c = dev.fatAddr.toNat + 4 * c.toNat := by
  have hfat := h.fat_le
  have hentries := h.entries_le
  have hlt := dev.dataAddr.toNat_lt
  have hmul : (c * 4).toNat = 4 * c.toNat := by
    have hfour : (4 : UInt32).toNat = 4 := rfl
    rw [toNat_mul_of_lt (by rw [hfour, addressSpace]; omega), hfour, Nat.mul_comm]
  rw [entryAddr, address_div_mod, toNat_add_of_lt (by rw [hmul, addressSpace]; omega), hmul]

/-- The number of clusters of a file fits an `int`. -/
lemma cluOrder_eq (h : dev.Proper n) (pos : UInt32) :
    cluOrder dev pos = pos.toNat / dev.bytPerClu.toNat := by
  have hsec := h.secPerClu_pos
  have hbytes := h.bytPerClu_eq
  have hpos := pos.toNat_lt
  have hle : pos.toNat / dev.bytPerClu.toNat ≤ pos.toNat / 512 :=
    Nat.div_le_div_left (by omega) (by decide)
  have hdiv : (pos / dev.bytPerClu).toNat = pos.toNat / dev.bytPerClu.toNat := UInt32.toNat_div ..
  have hint : (pos / dev.bytPerClu).toInt32.toInt = (pos / dev.bytPerClu).toBitVec.toInt := rfl
  rw [cluOrder, hint, BitVec.toInt_eq_toNat_of_lt, Int.toNat_natCast, UInt32.toNat_toBitVec, hdiv]
  rw [UInt32.toNat_toBitVec, hdiv]
  omega

/-- The block and offset computed for a cluster are its address. -/
lemma address_clu (h : dev.Proper n) (hc : IsCluster n c) :
    address (cluBlock dev c) (cluPos dev c) = cluAddr dev c := by
  obtain ⟨q, hq⟩ := h.dataAddr_dvd
  have hlt := dev.dataAddr.toNat_lt
  have hs := h.secPerClu_lt
  have hsec := h.sectors_le
  have hnum := h.numbers_lt
  have htwo : (c - 2).toNat = c.toNat - 2 := toNat_sub_of_le hc.1
  have hbyte := h.bytPerClu_eq
  generalize hk : c.toNat - 2 = k at htwo
  generalize hs' : dev.secPerClu.toNat = s at *
  have hks : k * s < addressSpace - q := by
    have hkn : k + 1 ≤ n := by
      obtain ⟨htwo', hlast⟩ := hc
      omega
    have hle : (k + 1) * s ≤ n * s := Nat.mul_le_mul_right s hkn
    have hpos := h.secPerClu_pos
    rw [hs'] at hpos
    rw [Nat.add_mul, Nat.one_mul] at hle
    omega
  have hmul : ((c - 2) * dev.secPerClu).toNat = k * s := by
    rw [toNat_mul_of_lt (by rw [htwo, hs']; omega), htwo, hs']
  have hsector : (dev.dataAddr / dev.bytPerSec).toNat = q := by
    have hbytes : (512 : UInt32).toNat = 512 := rfl
    rw [UInt32.toNat_div, h.bytPerSec_eq, hbytes, hq, Nat.mul_div_cancel_left q (by decide)]
  have hblock : (cluBlock dev c).toNat = (q + k * s) / 8 := by
    have height : (BLOCK_SIZE / SECTOR_SIZE).toNat = 8 := rfl
    rw [cluBlock, UInt32.toNat_div, height, toNat_add_of_lt (by rw [hsector, hmul]; omega),
      hsector, hmul]
  have hsize : BLOCK_SIZE.toNat = 4096 := rfl
  have hpos : (cluPos dev c).toNat = 512 * ((q + k * s) % 8) := by
    have hfirst : (dev.dataAddr % BLOCK_SIZE).toNat = 512 * q % 4096 := by
      rw [UInt32.toNat_mod, hsize, hq]
    have hfactor : k % 4096 * (512 * s) < addressSpace := by
      have hlt : k % 4096 < 4096 := Nat.mod_lt _ (by decide)
      have hle : k % 4096 * (512 * s) ≤ 4096 * (512 * 255) := by gcongr <;> omega
      rw [addressSpace]
      omega
    have hsecond : ((c - 2) % BLOCK_SIZE * dev.bytPerClu % BLOCK_SIZE).toNat =
        k * (512 * s) % 4096 := by
      rw [UInt32.toNat_mod, hsize, toNat_mul_of_lt, UInt32.toNat_mod, hsize, htwo, hbyte,
        Nat.mod_mul_mod]
      rwa [UInt32.toNat_mod, hsize, htwo, hbyte]
    have hsum : 512 * q % 4096 + k * (512 * s) % 4096 < addressSpace := by
      rw [addressSpace]
      omega
    rw [cluPos, UInt32.toNat_mod, hsize, toNat_add_of_lt (by rwa [hfirst, hsecond]), hfirst,
      hsecond, ← Nat.add_mod, Nat.mul_left_comm, ← Nat.mul_add]
    exact Nat.mul_mod_mul_left 512 (q + k * s) 8
  rw [address, hblock, hpos, hsize, cluAddr, hk, hbyte, hq, Nat.mul_left_comm]
  have hdiv := Nat.div_add_mod (q + k * s) 8
  omega

lemma cluPos_lt (dev : Fat32Dev) (c : UInt32) : (cluPos dev c).toNat < 4096 := by
  rw [cluPos, UInt32.toNat_mod]
  exact Nat.mod_lt _ (by decide)

lemma cluAddr_le (h : dev.Proper n) (hc : IsCluster n c) :
    cluAddr dev c + dev.bytPerClu.toNat ≤ 4096 * addressSpace := by
  obtain ⟨q, hq⟩ := h.dataAddr_dvd
  have hsec := h.sectors_le
  obtain ⟨htwo, hlast⟩ := hc
  have hle : (c.toNat - 2 + 1) * dev.secPerClu.toNat ≤ n * dev.secPerClu.toNat :=
    Nat.mul_le_mul_right _ (by omega)
  rw [Nat.add_mul, Nat.one_mul] at hle
  rw [cluAddr, h.bytPerClu_eq, hq, Nat.mul_left_comm]
  omega

/-- Two clusters do not overlap. -/
lemma cluAddr_disjoint (dev : Fat32Dev) (hc : IsCluster n c) (he : IsCluster n e) (hne : c ≠ e) :
    cluAddr dev c + dev.bytPerClu.toNat ≤ cluAddr dev e ∨
      cluAddr dev e + dev.bytPerClu.toNat ≤ cluAddr dev c := by
  obtain ⟨hc, -⟩ := hc
  obtain ⟨he, -⟩ := he
  have hnat : c.toNat ≠ e.toNat := fun heq => hne (UInt32.toNat_inj.mp heq)
  have key : ∀ i j : ℕ, i < j → dev.dataAddr.toNat + i * dev.bytPerClu.toNat +
      dev.bytPerClu.toNat ≤ dev.dataAddr.toNat + j * dev.bytPerClu.toNat := by
    intro i j hij
    have hle : (i + 1) * dev.bytPerClu.toNat ≤ j * dev.bytPerClu.toNat :=
      Nat.mul_le_mul_right _ hij
    rw [Nat.add_mul, Nat.one_mul] at hle
    omega
  rcases Nat.lt_or_gt_of_ne hnat with hlt | hlt
  · exact .inl (key _ _ (by omega))
  · exact .inr (key _ _ (by omega))

/-- The table ends before the clusters. -/
lemma entryAddr_le (h : dev.Proper n) (hc : c.toNat < n + 2) (e : UInt32) :
    entryAddr dev c + 4 ≤ cluAddr dev e := by
  have hfat := h.fat_le
  have hentries := h.entries_le
  rw [h.entryAddr_eq hc, cluAddr]
  omega

lemma writeclu_eq (h : dev.Proper n) (d : Store) (hc : IsCluster n c) {data : List UInt8}
    (hlen : data.length = dev.bytPerClu.toNat) :
    writeclu dev d c data = writeBytes d (cluAddr dev c) data := by
  have hend := h.cluAddr_le hc
  rw [writeclu, writeBlocks_eq _ _ _ _ _ le_rfl (cluPos_lt dev c)
    (by rwa [h.address_clu hc, hlen]), h.address_clu hc]

lemma readclu_eq (h : dev.Proper n) (d : Store) (hc : IsCluster n c) :
    readclu dev d c = readBytes d (cluAddr dev c) dev.bytPerClu.toNat := by
  rw [readclu, readBlocks_eq _ _ _ _ _ le_rfl (cluPos_lt dev c)
    (by rw [h.address_clu hc]; exact h.cluAddr_le hc), h.address_clu hc]

lemma length_readclu (h : dev.Proper n) (d : Store) (hc : IsCluster n c) :
    (readclu dev d c).length = dev.bytPerClu.toNat := by
  rw [h.readclu_eq d hc, length_readBytes]

/-! ## What a write changes -/

lemma readclu_writeclu (h : dev.Proper n) (d : Store) (hc : IsCluster n c) {data : List UInt8}
    (hlen : data.length = dev.bytPerClu.toNat) : readclu dev (writeclu dev d c data) c = data := by
  rw [h.writeclu_eq d hc hlen, h.readclu_eq _ hc, ← hlen, readBytes_writeBytes]

lemma readclu_writeclu_of_ne (h : dev.Proper n) (d : Store) (hc : IsCluster n c)
    (he : IsCluster n e) (hne : e ≠ c) {data : List UInt8}
    (hlen : data.length = dev.bytPerClu.toNat) :
    readclu dev (writeclu dev d c data) e = readclu dev d e := by
  have hdisj := cluAddr_disjoint dev hc he hne.symm
  rw [← hlen] at hdisj
  rw [h.writeclu_eq d hc hlen, h.readclu_eq _ he, h.readclu_eq _ he, ← hlen,
    readBytes_writeBytes_disjoint d hdisj]

lemma nextclu_writeclu (h : dev.Proper n) (d : Store) (hc : IsCluster n c) (he : e.toNat < n + 2)
    {data : List UInt8} (hlen : data.length = dev.bytPerClu.toNat) :
    nextclu dev (writeclu dev d c data) e = nextclu dev d e := by
  rw [h.writeclu_eq d hc hlen]
  exact readWord_writeBytes_disjoint d (.inr (h.entryAddr_le he c))

lemma readclu_setEntry (h : dev.Proper n) (d : Store) (hc : c.toNat < n + 2) (v : UInt32)
    (he : IsCluster n e) :
    readclu dev (writeWord d (entryAddr dev c) v) e = readclu dev d e := by
  rw [h.readclu_eq _ he, h.readclu_eq _ he]
  exact readBytes_writeWord_disjoint d v (.inl (h.entryAddr_le hc e))

lemma nextclu_setEntry (h : dev.Proper n) (d : Store) (hc : c.toNat < n + 2) (v : UInt32)
    (he : e.toNat < n + 2) :
    nextclu dev (writeWord d (entryAddr dev c) v) e = if e = c then v else nextclu dev d e := by
  by_cases heq : e = c
  · rw [if_pos heq, heq, nextclu, readWord_writeWord]
  · have hnat : e.toNat ≠ c.toNat := fun hn => heq (UInt32.toNat_inj.mp hn)
    rw [if_neg heq]
    refine readWord_writeWord_disjoint d v ?_
    rw [h.entryAddr_eq hc, h.entryAddr_eq he]
    omega

end Fat32Dev.Proper

end Sgos.Fat32
