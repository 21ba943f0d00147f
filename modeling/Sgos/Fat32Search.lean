import Sgos.Fat32WriteRead

/-!
# The search for a free cluster

`fat32_getclu` counts the bytes of the table down in whole blocks. The count has to be zero where a
block begins, so the search goes on behind a table that does not end with a block. It ends also where
`buffer_get` has no buffer for a block, as behind the end of the device.
-/
namespace Sgos.Fat32
open ByteBuffer ByteStore

namespace Search

section Volume
variable (dev : Fat32Dev) (buffered : UInt32 → Bool) (d : Store)

/-- The outer loop of `fat32_getclu`, `none` when it has not ended after `fuel` blocks.
`buffered` tells the blocks that `buffer_get` has a buffer for. -/
def getcluRun : ℕ → UInt32 → UInt32 → Option (UInt32 × Store)
  | 0, _, _ => none
  | fuel + 1, read_addr, count =>
    if count > 0 then
      if !buffered (read_addr / BLOCK_SIZE) then some (0, d)
      else match lookup d ((BLOCK_SIZE - read_addr % BLOCK_SIZE) / 4).toNat read_addr count with
        | .ok read_addr =>
          some ((read_addr - dev.fatAddr) / 4, writeWord d read_addr.toNat 0xffffffff)
        | .error (read_addr, count) => getcluRun fuel read_addr count
    else some (0, d)

/-- The entries of the table that are free. -/
def FreeEntry (i : ℕ) : Prop :=
  i < dev.secPerFat.toNat * dev.bytPerSec.toNat / 4 ∧
    readWord d (dev.fatAddr.toNat + 4 * i) = 0

/-- The search ends. It gives 0 and leaves the device alone if no entry is free, else the number of
a free entry, and marks that entry. -/
def Searched : Prop :=
  ∃ fuel clu d', getcluRun dev buffered d fuel (dev.fatAddr + dev.newCluStart)
      (dev.secPerFat * dev.bytPerSec) = some (clu, d') ∧
    ((∀ i, ¬FreeEntry dev d i) ∧ clu = 0 ∧ d' = d ∨
      clu ≠ 0 ∧ FreeEntry dev d clu.toNat ∧
        d' = writeWord d (dev.fatAddr.toNat + 4 * clu.toNat) 0xffffffff)

/-! ## Where the search looks -/

/-- The address that the search looks at after `k` others. -/
def scanAddr (k : ℕ) : UInt32 := dev.fatAddr + 4 * UInt32.ofNat k

/-- What is left of the count there. -/
def scanCount (k : ℕ) : UInt32 := dev.secPerFat * dev.bytPerSec - 4 * UInt32.ofNat k

def scanFree (k : ℕ) : Prop := readWord d (scanAddr dev k).toNat = 0

/-- How many entries the first block holds. -/
def firstRoom : ℕ := (4096 - dev.fatAddr.toNat % 4096) / 4

/-- The entries that a pass of the outer loop begins at. A table that is not aligned to words has no
entry that begins in the last bytes of a block, and the search does not get over them. -/
def Head (k : ℕ) : Prop :=
  k = 0 ∨ 4 ∣ dev.fatAddr.toNat ∧ 4096 ∣ dev.fatAddr.toNat + 4 * k ∨
    ¬4 ∣ dev.fatAddr.toNat ∧ k = firstRoom dev

/-- A pass that is not made: the count is zero, or the block cannot be read. -/
def Ends (s : ℕ) : Prop :=
  Head dev s ∧ (scanCount dev s = 0 ∨ buffered (scanAddr dev s / BLOCK_SIZE) = false)

/-- The first free entry of the table. -/
def FirstFree (i : ℕ) : Prop := FreeEntry dev d i ∧ ∀ j < i, ¬FreeEntry dev d j

/-- The entries that the search gets to. -/
def Reach (f : ℕ) : Prop := 4 ∣ dev.fatAddr.toNat ∨ f < firstRoom dev

/-- The first free entry is not the one of cluster 0, it is on the device and the search gets to it
before it ends; or there is none, and the search ends before it meets another word that is zero. -/
structure SearchOk : Prop where
  found : ∀ i, FirstFree dev d i → 0 < i ∧ dev.fatAddr.toNat + 4 * i < addressSpace ∧
    Reach dev i ∧ ∀ s ≤ i, ¬Ends dev buffered s
  full : (∀ i, ¬FreeEntry dev d i) → ∃ s, Ends dev buffered s ∧ ∀ k < s, ¬scanFree dev d k

end Volume

/-! ## One pass -/

section Pass
variable {dev : Fat32Dev} {buffered : UInt32 → Bool} {d : Store}

lemma toNat_four_mul (k : ℕ) : (4 * UInt32.ofNat k).toNat = 4 * k % addressSpace := by
  have hfour : (4 : UInt32).toNat = 4 := rfl
  rw [UInt32.toNat_mul, UInt32.toNat_ofNat', hfour, addressSpace, Nat.mul_mod_mod]

lemma toNat_scanAddr (k : ℕ) :
    (scanAddr dev k).toNat = (dev.fatAddr.toNat + 4 * k) % addressSpace := by
  rw [scanAddr, UInt32.toNat_add, toNat_four_mul, addressSpace, Nat.add_mod_mod]

lemma four_mul_succ (k : ℕ) : 4 * UInt32.ofNat (k + 1) = 4 * UInt32.ofNat k + 4 := by
  rw [UInt32.ofNat_add, UInt32.mul_add]
  rfl

lemma scanAddr_succ (k : ℕ) : scanAddr dev k + 4 = scanAddr dev (k + 1) := by
  rw [scanAddr, scanAddr, four_mul_succ, UInt32.add_assoc]

lemma scanCount_succ (k : ℕ) : scanCount dev k - 4 = scanCount dev (k + 1) := by
  rw [scanCount, scanCount, four_mul_succ, UInt32.sub_eq_iff_eq_add, UInt32.sub_eq_iff_eq_add,
    UInt32.add_assoc, UInt32.add_comm 4, UInt32.sub_add_cancel]

lemma scanCount_eq_zero {k : ℕ} :
    scanCount dev k = 0 ↔ 4 * k % addressSpace = (dev.secPerFat * dev.bytPerSec).toNat := by
  rw [scanCount, UInt32.sub_eq_iff_eq_add, UInt32.zero_add, ← UInt32.toNat_inj, toNat_four_mul,
    eq_comm]

/-- How many entries a pass has that begins at `k`. -/
def room (dev : Fat32Dev) (k : ℕ) : ℕ := (4096 - (dev.fatAddr.toNat + 4 * k) % 4096) / 4

lemma room_eq (k : ℕ) :
    ((BLOCK_SIZE - scanAddr dev k % BLOCK_SIZE) / 4).toNat = room dev k := by
  have hfour : (4 : UInt32).toNat = 4 := rfl
  have hsize : BLOCK_SIZE.toNat = 4096 := rfl
  have hmod : (scanAddr dev k % BLOCK_SIZE).toNat = (dev.fatAddr.toNat + 4 * k) % 4096 := by
    rw [UInt32.toNat_mod, toNat_scanAddr, hsize, addressSpace, Nat.mod_mod_of_dvd _ (by decide)]
  rw [UInt32.toNat_div, hfour, toNat_sub_of_le (by rw [hmod, hsize]; omega), hmod, hsize, room]

/-- The inner loop takes the first free entry of a pass. -/
lemma lookup_scan (dev : Fat32Dev) (d : Store) (r k : ℕ) :
    (∃ j, k ≤ j ∧ j < k + r ∧ scanFree dev d j ∧ (∀ i, k ≤ i → i < j → ¬scanFree dev d i) ∧
      lookup d r (scanAddr dev k) (scanCount dev k) = .ok (scanAddr dev j)) ∨
    (∀ i, k ≤ i → i < k + r → ¬scanFree dev d i) ∧
      lookup d r (scanAddr dev k) (scanCount dev k) =
        .error (scanAddr dev (k + r), scanCount dev (k + r)) := by
  induction r generalizing k with
  | zero => exact .inr ⟨fun i hki hik => absurd hik (by omega), rfl⟩
  | succ r ih =>
    by_cases hfree : scanFree dev d k
    · have hword : readWord d (scanAddr dev k).toNat = 0 := hfree
      refine .inl ⟨k, le_rfl, by omega, hfree, fun i hki hik => absurd hik (by omega), ?_⟩
      rw [lookup, hword]
      rfl
    · have hword : readWord d (scanAddr dev k).toNat ≠ 0 := hfree
      have hnext : lookup d (r + 1) (scanAddr dev k) (scanCount dev k) =
          lookup d r (scanAddr dev (k + 1)) (scanCount dev (k + 1)) := by
        rw [lookup, scanAddr_succ, scanCount_succ]
        simp only [IS_FAT32CLU_FREE, decide_eq_true_eq, if_neg hword]
      have hused : ∀ j, (∀ i, k + 1 ≤ i → i < j → ¬scanFree dev d i) →
          ∀ i, k ≤ i → i < j → ¬scanFree dev d i := by
        intro j h i hki hij
        rcases Nat.eq_or_lt_of_le hki with rfl | hlt
        · exact hfree
        · exact h i hlt hij
      rw [hnext]
      rcases ih (k + 1) with ⟨j, hkj, hjr, hj, hbefore, hloop⟩ | ⟨hall, hloop⟩
      · exact .inl ⟨j, by omega, by omega, hj, hused j hbefore, hloop⟩
      · rw [Nat.add_right_comm] at hall hloop
        exact .inr ⟨hused _ hall, hloop⟩

/-- What the search gives for the entry `f`. -/
def taken (dev : Fat32Dev) (d : Store) (f : ℕ) : UInt32 × Store :=
  ((scanAddr dev f - dev.fatAddr) / 4, writeWord d (scanAddr dev f).toNat 0xffffffff)

/-- A pass from `k` on. -/
lemma getcluRun_succ (buffered : UInt32 → Bool) (d : Store) (fuel : ℕ) {k : ℕ} (hk : Head dev k) :
    Ends dev buffered k ∧
      getcluRun dev buffered d (fuel + 1) (scanAddr dev k) (scanCount dev k) = some (0, d) ∨
    ¬Ends dev buffered k ∧
      ((∃ j, k ≤ j ∧ j < k + room dev k ∧ scanFree dev d j ∧
          (∀ i, k ≤ i → i < j → ¬scanFree dev d i) ∧
          getcluRun dev buffered d (fuel + 1) (scanAddr dev k) (scanCount dev k) =
            some (taken dev d j)) ∨
        (∀ i, k ≤ i → i < k + room dev k → ¬scanFree dev d i) ∧
          getcluRun dev buffered d (fuel + 1) (scanAddr dev k) (scanCount dev k) =
            getcluRun dev buffered d fuel (scanAddr dev (k + room dev k))
              (scanCount dev (k + room dev k))) := by
  by_cases hzero : scanCount dev k = 0
  · refine .inl ⟨⟨hk, .inl hzero⟩, ?_⟩
    rw [getcluRun, hzero]
    rfl
  have hpos : scanCount dev k > 0 := UInt32.pos_iff_ne_zero.mpr hzero
  cases hbuf : buffered (scanAddr dev k / BLOCK_SIZE) with
  | false =>
    refine .inl ⟨⟨hk, .inr hbuf⟩, ?_⟩
    rw [getcluRun, if_pos hpos, hbuf]
    rfl
  | true =>
    have hgoes : ¬Ends dev buffered k := by
      rintro ⟨-, hcount | hnone⟩
      · exact hzero hcount
      · rw [hbuf] at hnone
        cases hnone
    refine .inr ⟨hgoes, ?_⟩
    rw [getcluRun, if_pos hpos, hbuf, room_eq]
    rcases lookup_scan dev d (room dev k) k with
      ⟨j, hkj, hjr, hj, hbefore, hloop⟩ | ⟨hall, hloop⟩
    · rw [hloop]
      exact .inl ⟨j, hkj, hjr, hj, hbefore, rfl⟩
    · rw [hloop]
      exact .inr ⟨hall, rfl⟩

/-! ## All passes -/

lemma head_next {k : ℕ} (hk : Head dev k) : Head dev (k + room dev k) := by
  simp only [Head, room, firstRoom] at hk ⊢
  omega

/-- No pass begins inside another one. -/
lemma head_gap {k h : ℕ} (hh : Head dev h) (hle : k ≤ h) (hlt : h < k + room dev k) : h = k := by
  simp only [Head, room, firstRoom] at hh hlt
  omega

lemma room_pos {k h : ℕ} (hh : Head dev h) (hlt : k < h) : 0 < room dev k := by
  simp only [Head, room, firstRoom] at hh ⊢
  omega

lemma reach_of_head {k f : ℕ} (hk : Head dev k) (hlt : f < k + room dev k) (hle : k ≤ f) :
    Reach dev f := by
  simp only [Reach, Head, room, firstRoom] at hk hlt ⊢
  omega

lemma room_pos_of_reach {k f : ℕ} (hf : Reach dev f) (hle : k ≤ f) : 0 < room dev k := by
  simp only [Reach, room, firstRoom] at hf ⊢
  omega

/-- The first free entry is found, unless the search ends before. -/
lemma run_found {f k : ℕ} (hfree : scanFree dev d f) (hreach : Reach dev f) (hle : k ≤ f)
    (hhead : Head dev k) (hused : ∀ i, k ≤ i → i < f → ¬scanFree dev d i)
    (hgoes : ∀ s, k ≤ s → s ≤ f → ¬Ends dev buffered s) :
    ∃ fuel, getcluRun dev buffered d fuel (scanAddr dev k) (scanCount dev k) = some (taken dev d f) := by
  induction hn : f - k using Nat.strong_induction_on generalizing k with
  | _ n ih =>
    have hk := hgoes k le_rfl hle
    by_cases hlt : f < k + room dev k
    · refine ⟨1, ?_⟩
      rcases getcluRun_succ buffered d 0 hhead with
        ⟨hend, -⟩ | ⟨-, ⟨j, hkj, -, hj, hbefore, hrun⟩ | ⟨hall, -⟩⟩
      · exact absurd hend hk
      · obtain rfl : j = f := by
          rcases Nat.lt_trichotomy j f with hjf | hjf | hjf
          · exact absurd hj (hused j hkj hjf)
          · exact hjf
          · exact absurd hfree (hbefore f hle hjf)
        exact hrun
      · exact absurd hfree (hall f hle hlt)
    · have hnext := Nat.le_of_not_lt hlt
      have hpos := room_pos_of_reach hreach hle
      obtain ⟨fuel, hrun⟩ := ih (f - (k + room dev k)) (by omega) hnext (head_next hhead)
        (fun i hi => hused i (by omega)) (fun s hs => hgoes s (by omega)) rfl
      refine ⟨fuel + 1, ?_⟩
      rcases getcluRun_succ buffered d fuel hhead with
        ⟨hend, -⟩ | ⟨-, ⟨j, hkj, hjr, hj, -⟩ | ⟨-, hstep⟩⟩
      · exact absurd hend hk
      · exact absurd hj (hused j hkj (by omega))
      · rw [hstep, hrun]

/-- Without a free entry before it, the search ends where it can. -/
lemma run_ends {s k : ℕ} (hhead : Head dev k) (hs : Ends dev buffered s)
    (hle : k ≤ s) (hused : ∀ i, k ≤ i → i < s → ¬scanFree dev d i) :
    ∃ fuel ≤ s - k + 1,
      getcluRun dev buffered d fuel (scanAddr dev k) (scanCount dev k) = some (0, d) := by
  induction hn : s - k using Nat.strong_induction_on generalizing k with
  | _ n ih =>
    rcases Nat.eq_or_lt_of_le hle with rfl | hlt
    · rcases getcluRun_succ buffered d 0 hhead with ⟨-, hrun⟩ | ⟨hne, -⟩
      · exact ⟨1, by omega, hrun⟩
      · exact absurd hs hne
    · have hpos := room_pos hs.1 hlt
      have hnext : k + room dev k ≤ s := by
        by_contra hin
        have heq := head_gap hs.1 hle (by omega)
        omega
      obtain ⟨fuel, hfuel, hrun⟩ := ih (s - (k + room dev k)) (by omega) (head_next hhead) hnext
        (fun i hi => hused i (by omega)) rfl
      refine ⟨fuel + 1, by omega, ?_⟩
      rcases getcluRun_succ buffered d fuel hhead with
        ⟨-, hend⟩ | ⟨-, ⟨j, hkj, hjr, hj, -⟩ | ⟨-, hstep⟩⟩
      · exact hend
      · exact absurd hj (hused j hkj (by omega))
      · rw [hstep, hrun]

/-- A search that ends has met the end of the count or a free entry, whichever came first. -/
lemma run_cases {fuel k : ℕ} {r : UInt32 × Store} (hhead : Head dev k)
    (hrun : getcluRun dev buffered d fuel (scanAddr dev k) (scanCount dev k) = some r) :
    (r = (0, d) ∧ ∃ s, k ≤ s ∧ Ends dev buffered s ∧ ∀ i, k ≤ i → i < s → ¬scanFree dev d i) ∨
    ∃ f, k ≤ f ∧ r = taken dev d f ∧ scanFree dev d f ∧ Reach dev f ∧
      (∀ i, k ≤ i → i < f → ¬scanFree dev d i) ∧
      ∀ s, k ≤ s → s ≤ f → ¬Ends dev buffered s := by
  induction fuel generalizing k with
  | zero => cases hrun
  | succ fuel ih =>
    rcases getcluRun_succ buffered d fuel hhead with
      ⟨hends, hend⟩ | ⟨hne, ⟨j, hkj, hjr, hj, hbefore, htake⟩ | ⟨hall, hstep⟩⟩
    · rw [hend] at hrun
      exact .inl ⟨(Option.some.inj hrun).symm, k, le_rfl, hends,
        fun i hki hik => absurd hik (by omega)⟩
    · rw [htake] at hrun
      refine .inr ⟨j, hkj, (Option.some.inj hrun).symm, hj, reach_of_head hhead hjr hkj, hbefore,
        fun s hks hsj hs => ?_⟩
      rw [head_gap hs.1 hks (by omega)] at hs
      exact hne hs
    · rw [hstep] at hrun
      have hused : ∀ j, (∀ i, k + room dev k ≤ i → i < j → ¬scanFree dev d i) →
          ∀ i, k ≤ i → i < j → ¬scanFree dev d i := by
        intro j h i hki hij
        by_cases hin : i < k + room dev k
        · exact hall i hki hin
        · exact h i (by omega) hij
      rcases ih (head_next hhead) hrun with
        ⟨hr, s, hks, hs, hbefore⟩ | ⟨f, hkf, hr, hf, hreach, hbefore, hgoes⟩
      · exact .inl ⟨hr, s, by omega, hs, hused s hbefore⟩
      · refine .inr ⟨f, by omega, hr, hf, hreach, hused f hbefore, fun s hks hsf hs => ?_⟩
        by_cases hin : s < k + room dev k
        · rw [head_gap hs.1 hks hin] at hs
          exact hne hs
        · exact hgoes s (by omega) hsf hs

lemma scanFree_iff {k : ℕ} (h : dev.fatAddr.toNat + 4 * k < addressSpace) :
    scanFree dev d k ↔ readWord d (dev.fatAddr.toNat + 4 * k) = 0 := by
  rw [scanFree, toNat_scanAddr, Nat.mod_eq_of_lt h]

lemma taken_fst (f : ℕ) : (taken dev d f).1.toNat = f % 1073741824 := by
  have hfour : (4 : UInt32).toNat = 4 := rfl
  have hsub : scanAddr dev f - dev.fatAddr = 4 * UInt32.ofNat f := by
    rw [scanAddr, UInt32.sub_eq_iff_eq_add, UInt32.add_comm]
  rw [taken, hsub, UInt32.toNat_div, toNat_four_mul, hfour, addressSpace]
  omega

lemma byte_of_word {a : ℕ} (h : readWord d a = 0) : d a = 0 := by
  have hword : readBytes d a 4 = d a :: readBytes d (a + 1) 3 := (readBytes_append d a 1 3).symm
  rw [readWord, hword, ofLittleEndian, UInt32.ofNat_eq_iff_mod_eq_toNat] at h
  have hlt := (d a).toNat_lt
  have hzero : (0 : UInt32).toNat = 0 := rfl
  exact UInt8.toNat_inj.mp (show (d a).toNat = 0 by omega)

lemma marked (d : Store) (a : ℕ) : writeWord d a 0xffffffff a = 0xff :=
  writeBytes_inside d a (littleEndian 4 4294967295) (i := 0) (by decide)

/-- A mark of ones on a word of zeros tells where the word is. -/
lemma mark_inj {a b : ℕ} (ha : readWord d a = 0) (hb : readWord d b = 0)
    (h : writeWord d a 0xffffffff = writeWord d b 0xffffffff) : a = b := by
  have hne : (0xff : UInt8) ≠ 0 := by decide
  have hinside : ∀ {x y : ℕ}, readWord d x = 0 →
      writeWord d x 0xffffffff = writeWord d y 0xffffffff → y ≤ x := by
    intro x y hx he
    by_contra hlt
    have hout : writeWord d y 0xffffffff x = d x := writeBytes_outside d _ (.inl (by omega))
    rw [← he, marked, byte_of_word hx] at hout
    exact hne hout
  exact Nat.le_antisymm (hinside hb h.symm) (hinside ha h)

/-- The first zero word that the search looks at is the first free entry, if it is in the table and
on the device. -/
lemma firstFree_of_scan {f i : ℕ} (hif : i ≤ f) (hon : dev.fatAddr.toNat + 4 * i < addressSpace)
    (hfree : FreeEntry dev d i) (hused : ∀ j, 0 ≤ j → j < f → ¬scanFree dev d j) :
    FirstFree dev d i ∧ i = f := by
  have hnone : ∀ j < f, dev.fatAddr.toNat + 4 * j < addressSpace → ¬FreeEntry dev d j :=
    fun j hj hlt hf => hused j (Nat.zero_le j) hj ((scanFree_iff hlt).mpr hf.2)
  refine ⟨⟨hfree, fun j hj => hnone j (by omega) (by omega)⟩, ?_⟩
  by_contra hne
  exact hnone i (by omega) hon hfree

lemma searchOk_of_run {fuel : ℕ} {clu : UInt32} {d' : Store}
    (hrun : getcluRun dev buffered d fuel (scanAddr dev 0) (scanCount dev 0) = some (clu, d'))
    (hres : (∀ i, ¬FreeEntry dev d i) ∧ clu = 0 ∧ d' = d ∨ clu ≠ 0 ∧ FreeEntry dev d clu.toNat ∧
      d' = writeWord d (dev.fatAddr.toNat + 4 * clu.toNat) 0xffffffff) : SearchOk dev buffered d := by
  rcases run_cases (.inl rfl) hrun with
    ⟨hr, s, -, hs, hused⟩ | ⟨f, -, hr, hf, hreach, hused, hgoes⟩
  · obtain ⟨rfl, rfl⟩ := Prod.mk.inj hr
    rcases hres with ⟨hnone, -, -⟩ | ⟨hne, -, -⟩
    · exact ⟨fun i hi => absurd hi.1 (hnone i),
        fun _ => ⟨s, hs, fun k hk => hused k (Nat.zero_le k) hk⟩⟩
    · exact absurd rfl hne
  · obtain ⟨rfl, rfl⟩ := Prod.mk.inj (show (clu, d') = ((taken dev d f).1, (taken dev d f).2) from hr)
    rcases hres with ⟨-, -, hd⟩ | ⟨hne, hfree, hd⟩
    · -- the word that was marked is not zero any more
      have hmark : readWord (taken dev d f).2 (scanAddr dev f).toNat = 0xffffffff :=
        readWord_writeWord ..
      rw [hd, show readWord d (scanAddr dev f).toNat = 0 from hf] at hmark
      exact absurd hmark (by decide)
    · have haddr := mark_inj hf hfree.2 hd
      have hon : dev.fatAddr.toNat + 4 * (taken dev d f).1.toNat < addressSpace := by
        rw [← haddr]
        exact (scanAddr dev f).toNat_lt
      have hle : (taken dev d f).1.toNat ≤ f := by
        rw [taken_fst]
        exact Nat.mod_le _ _
      obtain ⟨hfirst, heq⟩ := firstFree_of_scan hle hon hfree hused
      rw [heq] at hfirst hon
      refine ⟨fun i hi => ?_, fun hnone => absurd hfree (hnone _)⟩
      obtain rfl : i = f := by
        rcases Nat.lt_trichotomy i f with h | h | h
        · exact absurd hi.1 (hfirst.2 i h)
        · exact h
        · exact absurd hfirst.1 (hi.2 f h)
      refine ⟨?_, hon, hreach, fun s hs => hgoes s (Nat.zero_le s) hs⟩
      rw [← heq]
      exact Nat.pos_of_ne_zero fun h0 => hne (UInt32.toNat_inj.mp h0)

lemma run_of_searchOk (hok : SearchOk dev buffered d) :
    ∃ fuel clu d', getcluRun dev buffered d fuel (scanAddr dev 0) (scanCount dev 0) = some (clu, d') ∧
      ((∀ i, ¬FreeEntry dev d i) ∧ clu = 0 ∧ d' = d ∨ clu ≠ 0 ∧ FreeEntry dev d clu.toNat ∧
        d' = writeWord d (dev.fatAddr.toNat + 4 * clu.toNat) 0xffffffff) := by
  by_cases hex : ∃ i, FreeEntry dev d i
  · classical
    have hfree := Nat.find_spec hex
    have hmin : ∀ j < Nat.find hex, ¬FreeEntry dev d j := fun j hj => Nat.find_min hex hj
    generalize Nat.find hex = i at hfree hmin
    obtain ⟨hpos, hon, hreach, hgoes⟩ := hok.found i ⟨hfree, hmin⟩
    have hin : ∀ j ≤ i, dev.fatAddr.toNat + 4 * j < addressSpace := fun j hj => by omega
    have hused : ∀ j, 0 ≤ j → j < i → ¬scanFree dev d j := fun j _ hj hf =>
      hmin j hj ⟨by have := hfree.1; omega, (scanFree_iff (hin j hj.le)).mp hf⟩
    obtain ⟨fuel, hrun⟩ := run_found ((scanFree_iff hon).mpr hfree.2) hreach (Nat.zero_le i)
      (.inl rfl) hused fun s _ hs => hgoes s hs
    have hclu : (taken dev d i).1.toNat = i := by
      rw [taken_fst]
      rw [addressSpace] at hon
      omega
    refine ⟨fuel, (taken dev d i).1, (taken dev d i).2, hrun, .inr ⟨fun h0 => ?_, ?_, ?_⟩⟩
    · rw [h0] at hclu
      exact hpos.ne hclu
    · rwa [hclu]
    · rw [hclu, taken, toNat_scanAddr, Nat.mod_eq_of_lt hon]
  · have hnone : ∀ i, ¬FreeEntry dev d i := fun i hi => hex ⟨i, hi⟩
    obtain ⟨s, hs, hused⟩ := hok.full hnone
    obtain ⟨fuel, -, hrun⟩ := run_ends (.inl rfl) hs (Nat.zero_le s) fun i _ hi => hused i hi
    exact ⟨fuel, 0, d, hrun, .inl ⟨hnone, rfl, rfl⟩⟩

/-- Where the search ends, it is the search with enough fuel. -/
theorem getcluLoop_of_run {fuel fuel' : ℕ} {read_addr count : UInt32} {r : UInt32 × Store}
    (hle : fuel ≤ fuel') (hrun : getcluRun dev (fun _ => true) d fuel read_addr count = some r) :
    getcluLoop dev d fuel' read_addr count = r := by
  induction fuel generalizing fuel' read_addr count with
  | zero => cases hrun
  | succ fuel ih =>
    obtain ⟨more, rfl⟩ : ∃ more, fuel' = more + 1 := ⟨fuel' - 1, by omega⟩
    rw [getcluRun] at hrun
    rw [getcluLoop]
    by_cases hpos : count > 0
    · rw [if_pos hpos] at hrun ⊢
      simp only [Bool.not_true, Bool.false_eq_true, if_false] at hrun
      generalize lookup d ((BLOCK_SIZE - read_addr % BLOCK_SIZE) / 4).toNat read_addr count = res
        at hrun ⊢
      rcases res with ⟨addr, left⟩ | addr
      · exact ih (by omega) hrun
      · exact Option.some.inj hrun
    · rw [if_neg hpos] at hrun ⊢
      exact Option.some.inj hrun

/-- The search does what it is for exactly if it comes to the first free entry before it ends, or the
table is full and the search ends before it comes to a zero word behind the table. -/
theorem searched_iff {boot : BootSec} {dev : Fat32Dev} (hinit : fat32Init boot = some dev)
    (buffered : UInt32 → Bool) (d : Store) :
    Searched dev buffered d ↔ SearchOk dev buffered d := by
  have hstart : dev.newCluStart = 0 := by
    rw [fat32Init] at hinit
    split_ifs at hinit
    obtain rfl := Option.some.inj hinit
    rfl
  have haddr : dev.fatAddr + dev.newCluStart = scanAddr dev 0 := by
    rw [hstart]
    rfl
  have hcount : dev.secPerFat * dev.bytPerSec = scanCount dev 0 := by
    rw [scanCount]
    exact (UInt32.sub_zero _).symm
  rw [Searched, haddr, hcount]
  constructor
  · rintro ⟨fuel, clu, d', hrun, hres⟩
    exact searchOk_of_run hrun hres
  · intro hok
    exact run_of_searchOk hok

end Pass

/-- All 128 entries of the table are taken; the clusters behind it are filled with zeros. -/
def fullStore : Store := fun a => if a < 4608 then 1 else 0

/-- The blocks of a device of 16 kilobytes. -/
def fourBlocks (block : UInt32) : Bool := block < 4

theorem searched_iff_small :
    Searched smallDev fourBlocks fullStore ↔ SearchOk smallDev fourBlocks fullStore :=
  @searched_iff smallBoot smallDev rfl fourBlocks fullStore

/-- The search of a full table that ends inside a block marks the first word of the first cluster,
and gives its number as an entry of the table. -/
theorem not_searched : ¬∀ (boot : BootSec) (dev : Fat32Dev) (buffered : UInt32 → Bool) (d : Store),
    fat32Init boot = some dev → (∀ b : UInt32, b < 4 → buffered b = true) →
      Searched dev buffered d := by
  intro h
  obtain ⟨fuel, clu, d', hrun, hres⟩ := h smallBoot smallDev fourBlocks fullStore rfl
    fun b hb => decide_eq_true hb
  have hlookup : lookup fullStore 1024 4096 512 = .ok 4608 := by decide +kernel
  have htake : ∀ n, getcluRun smallDev fourBlocks fullStore (n + 1) 4096 512 =
      some (128, writeWord fullStore 4608 0xffffffff) := by
    intro n
    have hroom : ((BLOCK_SIZE - 4096 % BLOCK_SIZE) / 4).toNat = 1024 := by decide
    rw [getcluRun, if_pos (by decide), if_neg (by decide), hroom, hlookup]
    rfl
  cases fuel with
  | zero => cases hrun
  | succ n =>
    obtain ⟨rfl, -⟩ := Prod.mk.inj (Option.some.inj ((htake n).symm.trans hrun))
    rcases hres with ⟨-, hzero, -⟩ | ⟨-, hfree, -⟩
    · exact absurd hzero (by decide)
    · exact absurd hfree.1 (by decide)

end Search

end Sgos.Fat32
