import Sgos.Fat32WriteRead
import Sgos.Fat32Size
import Sgos.GuardedRun

/-!
# The position of an open file

Seeking and writing keep the position of a file at its size or below it, whatever wraps, and so
does reading. Cutting a file off does not move its position.
-/
namespace Sgos.Fat32
open ByteStore GuardedRun

namespace Position

/-- The calls on an open file. `fresh` is what `malloc` returns to a write. -/
inductive Event
  | seek (step pos : UInt32)
  | read (count : UInt32)
  | write (buf : List UInt8) (fresh : UInt32 → ℕ → UInt8)
  | setsize (newSize : UInt32)

structure State where
  store : Store
  file : File

section Volume
variable (dev : Fat32Dev)

def step (s : State) : Event → State
  | .seek step pos => { s with file := vfsSeek s.file step pos }
  | .read count => { s with file := (fat32Read dev s.store s.file count).2.2 }
  | .write buf fresh =>
      let r := fat32Write dev s.store s.file buf fresh
      ⟨r.2.2, r.2.1⟩
  | .setsize newSize =>
      let r := fat32Setsize dev s.store s.file newSize
      ⟨r.2.2, r.2.1⟩

/-- The byte of a file at an offset, in the cluster of its chain. -/
def fileByte (d : Store) (f : File) (k : ℕ) : Option UInt8 :=
  (readclu dev d (getCluByOrder dev d f.data (k / dev.bytPerClu.toNat)))[k % dev.bytPerClu.toNat]?

/-- A read returns at most the number of bytes behind the position, and they are bytes of the file
below its size. -/
structure ReadsInside (d : Store) (f : File) (count : UInt32) : Prop where
  length : (fat32Read dev d f count).2.1.length ≤ f.size.toNat - f.pos.toNat
  returned : (fat32Read dev d f count).1.toInt ≤ f.size.toNat - f.pos.toNat
  inside : ∃ start, start + (fat32Read dev d f count).2.1.length ≤ f.size.toNat ∧
    ∀ i < (fat32Read dev d f count).2.1.length,
      (fat32Read dev d f count).2.1[i]? = fileByte dev d f (start + i)

/-- The position is not behind the size, and so every read stays inside the file. -/
structure Within (s : State) : Prop where
  pos_le : s.file.pos ≤ s.file.size
  reads : ∀ count, ReadsInside dev s.store s.file count

/-- A file is not cut off before its position, unless clusters are asked for that are not there. -/
def Keeps (s : State) : Event → Prop
  | .setsize newSize =>
      s.file.pos ≤ newSize ∨ cluCount dev newSize > cluCount dev s.file.size ∧
        (growLoop dev s.file ((cluCount dev newSize).toInt -
          (cluCount dev s.file.size).toInt).toNat s.store).1 = false
  | _ => True

end Volume

/-! ## Reading -/

section Read
variable {dev : Fat32Dev} {d : Store}

lemma length_readBlocks (fuel : ℕ) (block pos : UInt32) (size : ℕ) (hfuel : size ≤ fuel)
    (hpos : pos.toNat < 4096) : (readBlocks d fuel block pos size).length = size := by
  induction fuel generalizing block pos size with
  | zero =>
    obtain rfl : size = 0 := by omega
    rfl
  | succ fuel ih =>
    rw [readBlocks]
    by_cases hsize : size = 0
    · rw [if_pos hsize, hsize]
      rfl
    · have hroom : (BLOCK_SIZE - pos).toNat = 4096 - pos.toNat := toNat_sub_of_le hpos.le
      simp only [if_neg hsize, hroom]
      rw [List.length_append, length_readBytes, ih _ _ _ (by omega) (by decide)]
      omega

lemma length_readclu (dev : Fat32Dev) (d : Store) (clu : UInt32) :
    (readclu dev d clu).length = dev.bytPerClu.toNat :=
  length_readBlocks _ _ _ _ le_rfl (Fat32Dev.Proper.cluPos_lt dev clu)

/-- The next cluster of a chain, when there is one. -/
lemma getCluByOrder_succ {a : UInt32} {j : ℕ}
    (h : IS_FAT32CLU_INUSE (getCluByOrder dev d a j) = true)
    (hnext : IS_FAT32CLU_INUSE (nextclu dev d (getCluByOrder dev d a j)) = true) :
    getCluByOrder dev d a (j + 1) = nextclu dev d (getCluByOrder dev d a j) := by
  induction j generalizing a with
  | zero =>
    have hnext : IS_FAT32CLU_INUSE (nextclu dev d a) = true := hnext
    simp [getCluByOrder, hnext]
  | succ j ih =>
    have hfirst : ∀ k, getCluByOrder dev d a (k + 1) =
        if (!IS_FAT32CLU_INUSE (nextclu dev d a)) = true then 0
        else getCluByOrder dev d (nextclu dev d a) k := fun k => by rw [getCluByOrder]
    rw [hfirst] at h hnext ⊢
    rw [hfirst]
    split_ifs at h hnext ⊢ with hin
    · rw [not_inuse_zero] at h
      cases h
    · exact ih h hnext

/-- What a read has put into the buffer: bytes of the clusters from the one of the position on. -/
lemma readLoop_bytes (fuel : ℕ) {f : File} {clu pos count : UInt32} {j : ℕ} {ok : Bool}
    {out : List UInt8} (hclu : IS_FAT32CLU_INUSE clu = true → clu = getCluByOrder dev d f.data j)
    (hpos : pos.toNat < dev.bytPerClu.toNat) (hloop : readLoop dev d fuel clu pos count = (ok, out)) :
    out.length ≤ count.toNat ∧
      ∀ i < out.length, out[i]? = fileByte dev d f (j * dev.bytPerClu.toNat + pos.toNat + i) := by
  induction fuel generalizing clu pos count j ok out with
  | zero =>
    obtain ⟨-, rfl⟩ := Prod.mk.inj hloop
    exact ⟨Nat.zero_le _, fun i hi => absurd hi (Nat.not_lt_zero i)⟩
  | succ fuel ih =>
    have hroom : (dev.bytPerClu - pos).toNat = dev.bytPerClu.toNat - pos.toNat :=
      toNat_sub_of_le hpos.le
    have hempty : ∀ {b : Bool}, (b, []) = (ok, out) → out.length ≤ count.toNat ∧
        ∀ i < out.length, out[i]? = fileByte dev d f (j * dev.bytPerClu.toNat + pos.toNat + i) := by
      intro b he
      obtain ⟨-, rfl⟩ := Prod.mk.inj he
      exact ⟨Nat.zero_le _, fun i hi => absurd hi (Nat.not_lt_zero i)⟩
    by_cases hcount : count > 0
    swap
    · rw [readLoop, if_neg hcount] at hloop
      exact hempty hloop
    by_cases hinuse : IS_FAT32CLU_INUSE clu = true
    swap
    · simp only [readLoop, if_pos hcount, Bool.eq_false_of_not_eq_true hinuse, Bool.not_false,
        if_true] at hloop
      exact hempty hloop
    obtain rfl := hclu hinuse
    simp only [readLoop, if_pos hcount, hinuse, Bool.not_true, Bool.false_eq_true, if_false]
      at hloop
    -- the part of this cluster, and what the clusters behind it give
    generalize hread : (if count < dev.bytPerClu - pos then count else dev.bytPerClu - pos) = read
      at hloop
    have hle : read.toNat ≤ dev.bytPerClu.toNat - pos.toNat ∧ read.toNat ≤ count.toNat ∧
        (count - read > 0 → read.toNat = dev.bytPerClu.toNat - pos.toNat) := by
      rw [← hread]
      split_ifs with hlt
      · have hnat := UInt32.lt_iff_toNat_lt.mp hlt
        exact ⟨by omega, le_rfl, fun h => by simp at h⟩
      · have hge := UInt32.le_iff_toNat_le.mp (UInt32.not_lt.mp hlt)
        exact ⟨by omega, hge, fun _ => hroom⟩
    obtain ⟨hfit, hmost, hfull⟩ := hle
    rcases hrest : readLoop dev d fuel (if count - read > 0 then
      nextclu dev d (getCluByOrder dev d f.data j) else getCluByOrder dev d f.data j) 0
      (count - read) with ⟨ok', out'⟩
    rw [hrest] at hloop
    dsimp only at hloop
    obtain ⟨-, rfl⟩ := Prod.mk.inj hloop
    have hlen : (((readclu dev d (getCluByOrder dev d f.data j)).drop pos.toNat).take
        read.toNat).length = read.toNat := by
      rw [List.length_take, List.length_drop, length_readclu]
      omega
    have hleft : (count - read).toNat = count.toNat - read.toNat := toNat_sub_of_le hmost
    have hbehind : out'.length ≤ count.toNat - read.toNat ∧ ∀ i < out'.length, out'[i]? =
        fileByte dev d f (j * dev.bytPerClu.toNat + pos.toNat + read.toNat + i) := by
      by_cases hmore : count - read > 0
      · rw [if_pos hmore] at hrest
        obtain ⟨hshort, hbytes⟩ := ih (j := j + 1)
          (fun hn => (getCluByOrder_succ hinuse hn).symm) (by rw [UInt32.toNat_zero]; omega) hrest
        refine ⟨hleft ▸ hshort, fun i hi => ?_⟩
        rw [hbytes i hi, hfull hmore, UInt32.toNat_zero, Nat.add_mul, Nat.one_mul]
        congr 1
        omega
      · have hzero : count - read = 0 := by
          by_contra hne
          exact hmore (UInt32.pos_iff_ne_zero.mpr hne)
        rw [hzero, readLoop_zero] at hrest
        obtain ⟨-, rfl⟩ := Prod.mk.inj hrest
        exact ⟨Nat.zero_le _, fun i hi => absurd hi (Nat.not_lt_zero i)⟩
    refine ⟨by rw [List.length_append, hlen]; omega, fun i hi => ?_⟩
    rw [List.length_append, hlen] at hi
    by_cases hhere : i < read.toNat
    · have hdiv : (j * dev.bytPerClu.toNat + pos.toNat + i) / dev.bytPerClu.toNat = j := by
        rw [Nat.add_assoc, Nat.mul_comm, Nat.mul_add_div (by omega), Nat.div_eq_of_lt (by omega),
          Nat.add_zero]
      have hmod : (j * dev.bytPerClu.toNat + pos.toNat + i) % dev.bytPerClu.toNat =
          pos.toNat + i := by
        rw [Nat.add_assoc, Nat.mul_add_mod', Nat.mod_eq_of_lt (by omega)]
      rw [List.getElem?_append_left (by rwa [hlen]), fileByte, hdiv, hmod,
        List.getElem?_take_of_lt hhere, List.getElem?_drop]
    · rw [List.getElem?_append_right (by rw [hlen]; omega), hlen,
        hbehind.2 _ (by omega)]
      congr 1
      omega

lemma cluOrder_le (dev : Fat32Dev) (pos : UInt32) :
    cluOrder dev pos * dev.bytPerClu.toNat + pos.toNat % dev.bytPerClu.toNat ≤ pos.toNat := by
  have hdiv : (pos / dev.bytPerClu).toNat = pos.toNat / dev.bytPerClu.toNat := UInt32.toNat_div ..
  have hle : cluOrder dev pos ≤ pos.toNat / dev.bytPerClu.toNat := by
    have hint : (pos / dev.bytPerClu).toInt32.toInt = (pos / dev.bytPerClu).toBitVec.toInt := rfl
    rw [cluOrder, hint, BitVec.toInt_eq_toNat_cond, UInt32.toNat_toBitVec, ← hdiv]
    split_ifs <;> omega
  calc cluOrder dev pos * dev.bytPerClu.toNat + pos.toNat % dev.bytPerClu.toNat
      ≤ pos.toNat / dev.bytPerClu.toNat * dev.bytPerClu.toNat +
          pos.toNat % dev.bytPerClu.toNat := Nat.add_le_add_right (Nat.mul_le_mul_right _ hle) _
    _ = pos.toNat := Nat.div_add_mod' _ _

/-- Without clusters of at least one byte nothing is read. -/
lemma readLoop_empty (hzero : dev.bytPerClu = 0) (fuel : ℕ) (clu pos count : UInt32) :
    (readLoop dev d fuel clu pos count).2 = [] := by
  induction fuel generalizing clu pos count with
  | zero => rfl
  | succ fuel ih =>
    have hclu : ∀ c, readclu dev d c = [] := fun c => by
      refine List.eq_nil_of_length_eq_zero ?_
      rw [length_readclu, hzero]
      rfl
    by_cases hcount : count > 0
    · by_cases hinuse : IS_FAT32CLU_INUSE clu = true
      · simp only [readLoop, if_pos hcount, hinuse, Bool.not_true, Bool.false_eq_true, if_false,
          hclu, List.drop_nil, List.take_nil, List.nil_append, ih]
      · simp only [readLoop, if_pos hcount, Bool.eq_false_of_not_eq_true hinuse, Bool.not_false,
          if_true]
    · rw [readLoop, if_neg hcount]

/-- A read from a position inside the file stays inside the file. -/
lemma reads_inside {f : File} (h : f.pos ≤ f.size) (count : UInt32) :
    ReadsInside dev d f count ∧
      (fat32Read dev d f count).2.2.pos ≤ (fat32Read dev d f count).2.2.size := by
  have hle := UInt32.le_iff_toNat_le.mp h
  have hrest : (f.size - f.pos).toNat = f.size.toNat - f.pos.toNat := toNat_sub_of_le hle
  generalize hcut : (if count > f.size - f.pos then f.size - f.pos else count) = cut
  have hcutle : cut.toNat ≤ f.size.toNat - f.pos.toNat := by
    rw [← hcut, ← hrest]
    split_ifs with hgt
    · exact le_rfl
    · exact UInt32.le_iff_toNat_le.mp (UInt32.not_lt.mp hgt)
  rcases hloop : readLoop dev d cut.toNat (getCluByOrder dev d f.data (cluOrder dev f.pos))
    (f.pos % dev.bytPerClu) cut with ⟨ok, out⟩
  have hread : fat32Read dev d f count = (if ok then (UInt32.ofNat out.length).toInt32 else 0, out,
      { f with pos := f.pos + UInt32.ofNat out.length }) := by
    rw [fat32Read]
    simp only [hcut, hloop]
  have hbytes : out.length ≤ f.size.toNat - f.pos.toNat ∧ ∃ start,
      start + out.length ≤ f.size.toNat ∧
        ∀ i < out.length, out[i]? = fileByte dev d f (start + i) := by
    by_cases hzero : dev.bytPerClu = 0
    · have hnil := readLoop_empty (d := d) hzero cut.toNat
        (getCluByOrder dev d f.data (cluOrder dev f.pos)) (f.pos % dev.bytPerClu) cut
      rw [hloop] at hnil
      obtain rfl : out = [] := hnil
      exact ⟨Nat.zero_le _, 0, Nat.zero_le _, fun i hi => absurd hi (Nat.not_lt_zero i)⟩
    · have hpositive : 0 < dev.bytPerClu.toNat :=
        Nat.pos_of_ne_zero fun h0 => hzero (UInt32.toNat_inj.mp h0)
      have hmod : (f.pos % dev.bytPerClu).toNat = f.pos.toNat % dev.bytPerClu.toNat :=
        UInt32.toNat_mod ..
      obtain ⟨hlen, hall⟩ := readLoop_bytes _ (fun _ => rfl)
        (by rw [hmod]; exact Nat.mod_lt _ hpositive) hloop
      have hstart := cluOrder_le dev f.pos
      rw [hmod] at hall
      exact ⟨hlen.trans hcutle, _, by omega, hall⟩
  obtain ⟨hlen, hinside⟩ := hbytes
  have hsmall : (UInt32.ofNat out.length).toNat = out.length := by
    have hlt := f.size.toNat_lt
    rw [UInt32.toNat_ofNat']
    exact Nat.mod_eq_of_lt (by omega)
  refine ⟨⟨?_, ?_, ?_⟩, ?_⟩
  · rwa [hread]
  · rw [hread]
    have hint : (UInt32.ofNat out.length).toInt32.toInt =
        (UInt32.ofNat out.length).toBitVec.toInt := rfl
    dsimp only
    split_ifs
    · rw [hint, BitVec.toInt_eq_toNat_cond, UInt32.toNat_toBitVec, hsmall]
      split_ifs <;> omega
    · have hzero : (0 : Int32).toInt = 0 := rfl
      rw [hzero]
      omega
  · rwa [hread]
  · rw [hread, UInt32.le_iff_toNat_le, toNat_add_of_lt, hsmall]
    · dsimp only
      omega
    · have hlt := f.size.toNat_lt
      rw [hsmall, addressSpace]
      omega

end Read

/-! ## The other calls -/

lemma clip_le (f : File) : f.clip.pos ≤ f.clip.size := by
  unfold File.clip
  split_ifs with h
  · exact UInt32.le_refl _
  · exact UInt32.not_lt.mp h

lemma seek_le {f : File} (h : f.pos ≤ f.size) (step pos : UInt32) :
    (vfsSeek f step pos).pos ≤ (vfsSeek f step pos).size := by
  unfold vfsSeek
  split_ifs
  · exact clip_le _
  · exact clip_le _
  · exact clip_le _
  · exact h

lemma write_le {dev : Fat32Dev} {d : Store} {f : File} (h : f.pos ≤ f.size) (buf : List UInt8)
    (fresh : UInt32 → ℕ → UInt8) :
    (fat32Write dev d f buf fresh).2.1.pos ≤ (fat32Write dev d f buf fresh).2.1.size := by
  unfold fat32Write
  dsimp only
  split
  · exact h
  · split_ifs with hzero hgt
    · exact h
    · exact UInt32.le_refl _
    · exact UInt32.not_lt.mp hgt

/-- Setting the size moves the size only, and only if the clusters are there. -/
lemma setsize_le_iff {dev : Fat32Dev} {d : Store} {f : File} (h : f.pos ≤ f.size)
    (newSize : UInt32) :
    (fat32Setsize dev d f newSize).2.1.pos ≤ (fat32Setsize dev d f newSize).2.1.size ↔
      f.pos ≤ newSize ∨ cluCount dev newSize > cluCount dev f.size ∧
        (growLoop dev f ((cluCount dev newSize).toInt - (cluCount dev f.size).toInt).toNat d).1 =
          false := by
  simp only [fat32Setsize]
  by_cases hless : cluCount dev newSize < cluCount dev f.size
  · have hnot : ¬cluCount dev newSize > cluCount dev f.size :=
      Int32.not_lt.mpr (Int32.le_of_lt hless)
    simp only [if_pos hless, hnot, false_and, or_false]
  by_cases hmore : cluCount dev newSize > cluCount dev f.size
  · simp only [if_neg hless, if_pos hmore]
    rcases growLoop dev f ((cluCount dev newSize).toInt - (cluCount dev f.size).toInt).toNat d with
      ⟨ok, d'⟩
    cases ok with
    | true => simp
    | false => simp [h, hmore]
  · simp only [if_neg hless, hmore, if_false, false_and, or_false]

/-! ## Runs -/

variable (dev : Fat32Dev) in
lemma step_within {s : State} (h : Within dev s) (e : Event) :
    Within dev (step dev s e) ↔ Keeps dev s e := by
  have hiff : (step dev s e).file.pos ≤ (step dev s e).file.size ↔ Keeps dev s e := by
    cases e with
    | seek step pos => exact ⟨fun _ => trivial, fun _ => seek_le h.pos_le step pos⟩
    | read count => exact ⟨fun _ => trivial, fun _ => (reads_inside h.pos_le count).2⟩
    | write buf fresh => exact ⟨fun _ => trivial, fun _ => write_le h.pos_le buf fresh⟩
    | setsize newSize => exact setsize_le_iff h.pos_le newSize
  exact ⟨fun hw => hiff.mp hw.pos_le,
    fun hk => ⟨hiff.mpr hk, fun count => (reads_inside (hiff.mpr hk) count).1⟩⟩

/-- In all states of a sequence of calls on an open file the position is at most the size, and reads
stay inside the file, exactly if the file is never cut off before its position. -/
theorem within_iff (dev : Fat32Dev) (d : Store) (f : File) (es : List Event) :
    (∀ fs, fs <+: es → Within dev (run (step dev) ⟨d, { f with pos := 0 }⟩ fs)) ↔
      Guarded (step dev) (Keeps dev) ⟨d, { f with pos := 0 }⟩ es := by
  have hzero : (0 : UInt32) ≤ f.size := UInt32.zero_le
  exact forall_prefix_iff (Within dev) (Within dev)
    (fun s e h hk => (step_within dev h e).mpr hk) (fun s e h => step_within dev h e)
    ⟨hzero, fun count => (reads_inside hzero count).1⟩
    ⟨hzero, fun count => (reads_inside hzero count).1⟩ es

/-- A file of ten bytes is cut off to five while the position is at its end. -/
theorem not_within : ¬∀ (dev : Fat32Dev) (d : Store) (f : File) (es : List Event),
    Within dev (run (step dev) ⟨d, { f with pos := 0 }⟩ es) := by
  intro h
  have hle := (h smallDev smallStore ⟨3, 10, 0, false⟩ [.seek 10 SEEK_SET, .setsize 5]).pos_le
  revert hle
  decide

end Position

end Sgos.Fat32
