import Sgos.Fat32Directory
import Sgos.Fat32Search

/-!
# A full volume

When the search finds no free cluster, `fat32_allocclu` has already overwritten the end mark of the
chain that it wanted to append to. Its callers see a 0 and give up, and the file has lost its end.
-/
namespace Sgos.Fat32
open ByteStore

namespace Full

section Volume
variable (dev : Fat32Dev) (n : ℕ) (d : Store)

/-- No cluster is left: the search for a free one ends and has found none. -/
def IsFull : Prop :=
  ∃ fuel, Search.getcluRun dev (fun _ => true) d fuel (dev.fatAddr + dev.newCluStart)
    (dev.secPerFat * dev.bytPerSec) = some (0, d)

/-- Every entry of the table is as before. -/
def Intact (d' : Store) : Prop :=
  ∀ c : UInt32, c.toNat < dev.secPerFat.toNat * dev.bytPerSec.toNat / 4 →
    nextclu dev d' c = nextclu dev d c

/-- The chain of a file ends in an end mark. An empty file has no cluster; its chain is the first
entry of the table, which is an end mark. -/
structure Chained (f : File) (cs : List UInt32) : Prop where
  chain : IsChain (nextclu dev d) f.data cs
  clusters : cs = [0] ∨ cs ≠ [] ∧ ∀ c ∈ cs, IsCluster n c
  nodup : cs.Nodup

end Volume

variable {dev : Fat32Dev} {n : ℕ} {d : Store} {f : File} {cs : List UInt32}

/-! ## What full means -/

lemma scan_start (h : dev.Proper n) : dev.fatAddr + dev.newCluStart = Search.scanAddr dev 0 ∧
    dev.secPerFat * dev.bytPerSec = Search.scanCount dev 0 := by
  rw [h.newCluStart_eq, Search.scanCount]
  exact ⟨rfl, (UInt32.sub_zero _).symm⟩

lemma table_bytes (h : dev.Proper n) :
    (dev.secPerFat * dev.bytPerSec).toNat = 512 * dev.secPerFat.toNat := by
  have hfat := h.fat_le
  have hlt := dev.dataAddr.toNat_lt
  have h512 : (512 : UInt32).toNat = 512 := rfl
  rw [h.bytPerSec_eq, toNat_mul_of_lt, h512, Nat.mul_comm]
  rw [h512, addressSpace]
  omega

lemma freeEntry_iff (h : dev.Proper n) {i : ℕ} : Search.FreeEntry dev d i ↔
    i < 128 * dev.secPerFat.toNat ∧ readWord d (dev.fatAddr.toNat + 4 * i) = 0 := by
  have h512 : dev.bytPerSec.toNat = 512 := by rw [h.bytPerSec_eq]; rfl
  rw [Search.FreeEntry, h512]
  refine and_congr_left fun _ => ?_
  omega

lemma not_free_iff (h : dev.Proper n) : (∀ i, ¬Search.FreeEntry dev d i) ↔
    ∀ i, i < 128 * dev.secPerFat.toNat → ¬Search.scanFree dev d i := by
  have hfat := h.fat_le
  have hlt := dev.dataAddr.toNat_lt
  refine forall_congr' fun i => ?_
  rw [freeEntry_iff h, not_and]
  refine imp_congr_right fun hi => not_congr ?_
  rw [Search.scanFree_iff (by rw [addressSpace]; omega)]

lemma run_of_full (h : dev.Proper n) (hnone : ∀ i, ¬Search.FreeEntry dev d i)
    (hends : 4096 ∣ dev.fatAddr.toNat + 512 * dev.secPerFat.toNat) :
    ∃ fuel ≤ addressSpace, Search.getcluRun dev (fun _ => true) d fuel
      (dev.fatAddr + dev.newCluStart) (dev.secPerFat * dev.bytPerSec) = some (0, d) := by
  obtain ⟨haddr, hcount⟩ := scan_start h
  obtain ⟨q, hq⟩ := h.fatAddr_dvd
  have hfat := h.fat_le
  have hlt := dev.dataAddr.toNat_lt
  have hzero : Search.scanCount dev (128 * dev.secPerFat.toNat) = 0 := by
    rw [Search.scanCount_eq_zero, table_bytes h, addressSpace]
    omega
  have hhead : Search.Head dev (128 * dev.secPerFat.toNat) :=
    .inr (.inl ⟨⟨128 * q, by omega⟩, by rwa [← Nat.mul_assoc]⟩)
  obtain ⟨fuel, hfuel, hrun⟩ := @Search.run_ends dev (fun _ => true) d _ 0 (.inl rfl)
    ⟨hhead, .inl hzero⟩ (Nat.zero_le _) fun i _ hi => (not_free_iff h).mp hnone i hi
  refine ⟨fuel, hfuel.trans (by rw [addressSpace]; omega), ?_⟩
  rw [haddr, hcount]
  exact hrun

/-- The search finds none exactly if no entry is free and the table ends with a block. -/
theorem isFull_iff (h : dev.Proper n) : IsFull dev d ↔
    (∀ i, ¬Search.FreeEntry dev d i) ∧ 4096 ∣ dev.fatAddr.toNat + 512 * dev.secPerFat.toNat := by
  constructor
  · rintro ⟨fuel, hrun⟩
    obtain ⟨haddr, hcount⟩ := scan_start h
    obtain ⟨q, hq⟩ := h.fatAddr_dvd
    have hentries := h.entries_le
    rw [haddr, hcount] at hrun
    rcases Search.run_cases (.inl rfl) hrun with
      ⟨-, s, -, ⟨hhead, hend⟩, hused⟩ | ⟨f, -, hr, hfree, -⟩
    · have hzero : Search.scanCount dev s = 0 := hend.resolve_right (by simp)
      rw [Search.scanCount_eq_zero, table_bytes h, addressSpace] at hzero
      refine ⟨(not_free_iff h).mpr fun i hi => hused i (Nat.zero_le i) (by omega), ?_⟩
      rcases hhead with rfl | ⟨-, hdvd⟩ | ⟨hnot, -⟩
      · omega
      · omega
      · exact absurd ⟨128 * q, by omega⟩ hnot
    · -- a search that takes an entry marks it
      have hmark : readWord (Search.taken dev d f).2 (Search.scanAddr dev f).toNat = 0xffffffff :=
        readWord_writeWord ..
      rw [← hr, show readWord d (Search.scanAddr dev f).toNat = 0 from hfree] at hmark
      cases hmark
  · rintro ⟨hnone, hends⟩
    obtain ⟨fuel, -, hrun⟩ := run_of_full h hnone hends
    exact ⟨fuel, hrun⟩

lemma getclu_full (h : dev.Proper n) (hfull : IsFull dev d) : getclu dev d = (0, d) := by
  obtain ⟨hnone, hends⟩ := (isFull_iff h).mp hfull
  obtain ⟨fuel, hfuel, hrun⟩ := run_of_full h hnone hends
  exact Search.getcluLoop_of_run hfuel hrun

lemma Chained.entry_lt (hc : Chained dev n d f cs) {c : UInt32} (hmem : c ∈ cs) :
    c.toNat < n + 2 := by
  rcases hc.clusters with rfl | ⟨-, hall⟩
  · rw [List.mem_singleton.mp hmem, UInt32.toNat_zero]
    omega
  · exact (hall c hmem).2

/-- The last cluster of a chain: its entry is the end mark that a new cluster replaces. -/
lemma Chained.last (hc : Chained dev n d f cs) (h : dev.Proper n) :
    ∃ l ∈ cs, IS_FAT32CLU_END (nextclu dev d l) ∧
      ∀ e : Store, (∀ x : UInt32, x.toNat < n + 2 → nextclu dev e x = nextclu dev d x) →
        lastclu dev e addressSpace f.data = l := by
  have hlen := nodup_length_le hc.nodup
  have hlt : ∀ c ∈ cs, c.toNat < n + 2 := fun c => hc.entry_lt
  obtain ⟨b, hfollow, hend⟩ := hc.chain
  have hnot := not_inuse_of_end hend
  rcases hc.clusters with rfl | ⟨hne, hall⟩
  · obtain ⟨hdata, rfl⟩ : f.data = 0 ∧ nextclu dev d 0 = b := hfollow
    refine ⟨0, List.mem_singleton.mpr rfl, hend, fun e he => ?_⟩
    rw [hdata, addressSpace, lastclu, he 0 (hlt 0 (List.mem_singleton.mpr rfl)), hnot]
    rfl
  · obtain ⟨xs, l, rfl⟩ := (List.eq_nil_or_concat' cs).resolve_left hne
    rw [List.length_append, List.length_singleton] at hlen
    obtain ⟨m, -, hl⟩ := hfollow.split
    refine ⟨l, by simp, ?_, fun e he => lastclu_follows (hfollow.congr fun x hx => he x (hlt x hx))
      (fun x hx => (hall x hx).inuse h.numbers_lt) hnot (by omega)⟩
    rw [hl.2]
    exact hend

/-- Appending to the chain of a file clears its end mark. -/
lemma allocclu_full (h : dev.Proper n) (hfull : IsFull dev d) {l : UInt32} (hl : l.toNat < n + 2)
    (hlast : lastclu dev d addressSpace f.data = l) (hend : IS_FAT32CLU_END (nextclu dev d l)) :
    allocclu dev d f = (0, writeWord d (entryAddr dev l) 0) := by
  simp only [allocclu, hlast, if_neg (h.entry_in_block hl), hend, if_true, getclu_full h hfull]

lemma not_intact (h : dev.Proper n) {d' : Store} {l : UInt32} (hl : l.toNat < n + 2)
    (hend : IS_FAT32CLU_END (nextclu dev d l)) (hzero : nextclu dev d' l = 0) :
    ¬Intact dev d d' := by
  intro hi
  have hentries := h.entries_le
  have h512 : dev.bytPerSec.toNat = 512 := by rw [h.bytPerSec_eq]; rfl
  have heq := hi l (by rw [h512]; omega)
  rw [hzero] at heq
  exact ne_zero_of_end hend heq.symm

/-- What is left behind when a cluster was wanted. -/
lemma Chained.allocclu (hc : Chained dev n d f cs) (h : dev.Proper n) (hfull : IsFull dev d) :
    ∃ d', Fat32.allocclu dev d f = (0, d') ∧ ¬Intact dev d d' := by
  obtain ⟨l, hmem, hend, hlast⟩ := hc.last h
  have hl := hc.entry_lt hmem
  refine ⟨_, allocclu_full h hfull hl (hlast d fun _ _ => rfl) hend,
    not_intact h hl hend ?_⟩
  rw [h.nextclu_setEntry d hl _ hl, if_pos rfl]

/-! ## Writing -/

end Full

end Sgos.Fat32
