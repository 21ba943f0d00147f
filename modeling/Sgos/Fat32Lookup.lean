import Mathlib.Data.List.DropRight
import Sgos.Fat32Scan
import Sgos.Fat32Position

/-!
# Looking a name up

`fat32_open`, `fat32_remove_ent` and `fat32_saveinfo` take the first file of a directory whose name
agrees with theirs as far as both go. That it has this very name, and that the entries in front of it
are its own, is not seen to.
-/
namespace Sgos.Fat32
open ByteBuffer ByteStore

namespace Lookup
open Scan

/-! ## The names of the files of a directory -/

/-- Without the blanks at the end. -/
def trim (s : List UInt8) : List UInt8 := s.rdropWhile (· = 32)

/-- The short name of an entry, as `NAME.EXT`. -/
def shortName (ff : FAT32_ENTRY) : List UInt8 :=
  trim ff.name ++ if trim ff.extention = [] then [] else 46 :: trim ff.extention

def wideChars : List UInt8 → List ℕ
  | a :: b :: bs => (a.toNat + 256 * b.toNat) :: wideChars bs
  | _ => []

/-- Part `k` of the `m` parts of the long name of an entry whose short name has the checksum `sum`. -/
def isPart (sum : UInt8) (m k : ℕ) (b : List UInt8) : Bool :=
  let lne := FAT32_NAME_ENTRY.ofBytes b
  FAT32_IS_LNAME lne.attr && lne.checksum = sum && lne.id.toNat = k + if k = m then 0x40 else 0

/-- How many parts the long name of entry `q` has, which stand in front of it from the last one on; 0
if it has no long name. -/
def longEntries (rs : List (List UInt8)) (q : ℕ) : ℕ :=
  ((List.range' 1 20).find? fun m => decide (m ≤ q) && (List.range' 1 m).all fun k =>
    isPart (checksum (field (rs.getD q []) 0 11)) m k (rs.getD (q - k) [])).getD 0

def longName (rs : List (List UInt8)) (q m : ℕ) : List ℕ :=
  ((List.range' 1 m).flatMap fun k =>
    let lne := FAT32_NAME_ENTRY.ofBytes (rs.getD (q - k) [])
    wideChars (lne.name1 ++ lne.name2 ++ lne.name3)).takeWhile (· ≠ 0)

/-- The characters of the name of entry `q`: its long name, if it has one. -/
def fileName (rs : List (List UInt8)) (q : ℕ) : List ℕ :=
  if longEntries rs q = 0 then (shortName (FAT32_ENTRY.ofBytes (rs.getD q []))).map UInt8.toNat
  else longName rs q (longEntries rs q)

def lowerCase (c : ℕ) : ℕ := if 65 ≤ c ∧ c ≤ 90 then c + 32 else c

/-- Entry `q` is a file of this name. -/
def Named (rs : List (List UInt8)) (name : List UInt8) (q : ℕ) : Prop :=
  q < rs.length ∧ isFile (rs.getD q []) = true ∧
    (fileName rs q).map lowerCase = name.map fun c => lowerCase c.toNat

instance (rs : List (List UInt8)) (name : List UInt8) (q : ℕ) : Decidable (Named rs name q) :=
  inferInstanceAs (Decidable (_ ∧ _ ∧ _))

/-- Entry `p` is entry `q`, or a part of its long name. -/
def Own (rs : List (List UInt8)) (q p : ℕ) : Prop := p ≤ q ∧ q ≤ p + longEntries rs q

instance (rs : List (List UInt8)) (q p : ℕ) : Decidable (Own rs q p) :=
  inferInstanceAs (Decidable (_ ∧ _))

variable {rs : List (List UInt8)} {name : List UInt8} {q p : ℕ}

lemma isPart_of_own (h : Own rs q p) (hne : p ≠ q) :
    ∃ sum m k, isPart sum m k (rs.getD p []) = true := by
  obtain ⟨hle, hlong⟩ := h
  rw [longEntries] at hlong
  cases hfind : (List.range' 1 20).find? fun m => decide (m ≤ q) && (List.range' 1 m).all fun k =>
      isPart (checksum (field (rs.getD q []) 0 11)) m k (rs.getD (q - k) []) with
  | none =>
    rw [hfind] at hlong
    have hzero : (none : Option ℕ).getD 0 = 0 := rfl
    omega
  | some m =>
    rw [hfind, Option.getD_some] at hlong
    have hparts := List.find?_some hfind
    simp only [Bool.and_eq_true, decide_eq_true_eq, List.all_eq_true, List.mem_range'_1] at hparts
    have hpart := hparts.2 (q - p) ⟨by omega, by omega⟩
    rw [Nat.sub_sub_self hle] at hpart
    exact ⟨_, _, _, hpart⟩

/-- Of the entries of a file only one is not a part of its name. -/
lemma eq_of_own (h : Own rs q p) (hfile : isFile (rs.getD p []) = true) : p = q := by
  by_contra hne
  obtain ⟨sum, m, k, hpart⟩ := isPart_of_own h hne
  simp only [isPart, Bool.and_eq_true] at hpart
  simp only [isFile, Bool.and_eq_true, Bool.not_eq_true'] at hfile
  exact Bool.false_ne_true (hfile.2.symm.trans hpart.1.1)

lemma own_self (rs : List (List UInt8)) (q : ℕ) : Own rs q q := ⟨le_rfl, Nat.le_add_right _ _⟩

/-! ## What a lookup should do -/

/-- The file has what is in the entry. A time that is not valid is not there to be loaded. -/
structure Loads (clock : Clock) (f : FileEnt) (ff : FAT32_ENTRY) : Prop where
  size : f.size = ff.size
  data : f.data = ff.cluster_high.toUInt32 <<< 16 ||| ff.cluster.toUInt32
  attrib : f.attrib = fileAttr ff.attrib
  ctime : ∀ t, fat32Gettime clock ff 0 = some t → f.ctime = t
  mtime : ∀ t, fat32Gettime clock ff 1 = some t → f.mtime = t

/-- The directory `parent` has the clusters `cs`. -/
structure Directory (dev : Fat32Dev) (n : ℕ) (d : Store) (parent : File) (cs : List UInt32) :
    Prop where
  proper : dev.Proper n
  chain : IsChain (nextclu dev d) parent.data cs
  clusters : ∀ c ∈ cs, IsCluster n c
  nodup : cs.Nodup
  nonempty : cs ≠ []

/-- Where entry `p` of a directory is. -/
def recordAddr (dev : Fat32Dev) (cs : List UInt32) (p : ℕ) : ℕ :=
  cluAddr dev (cs.getD (p / maxEntries dev) 0) + entrySize * (p % maxEntries dev)

def InRecord (dev : Fat32Dev) (cs : List UInt32) (p a : ℕ) : Prop :=
  recordAddr dev cs p ≤ a ∧ a < recordAddr dev cs p + entrySize

section Volume
variable (dev : Fat32Dev) (clock : Clock) (d : Store) (cs : List UInt32) (parent : File)
  (stack : Stack) (f : FileEnt) (name : List UInt8)

/-- Opening succeeds if there is a file of this name, and loads the entry of one. -/
def Opens : Prop :=
  ∃ ret f', openExisting dev clock d parent stack f name = some (ret, f') ∧
    (ret = 0 ↔ ∃ q, Named (records dev d cs) name q) ∧
    (ret = 0 → ∃ q, Named (records dev d cs) name q ∧
      Loads clock f' (FAT32_ENTRY.ofBytes ((records dev d cs).getD q [])))

/-- Removing changes only the entries of a file of this name. -/
def Removes : Prop :=
  ∃ ret d', fat32RemoveEnt dev clock d parent stack { f with name := name } = some (ret, d') ∧
    (ret = 0 ↔ ∃ q, Named (records dev d cs) name q) ∧
    ∀ a, d' a ≠ d a → ∃ q p, Named (records dev d cs) name q ∧ Own (records dev d cs) q p ∧
      InRecord dev cs p a

/-- Saving changes only the entry of a file of this name. -/
def Saves : Prop :=
  ∃ ret d', fat32Saveinfo dev clock d parent stack { f with name := name } = some (ret, d') ∧
    (ret = 0 ↔ ∃ q, Named (records dev d cs) name q) ∧
    ∀ a, d' a ≠ d a → ∃ q, Named (records dev d cs) name q ∧ InRecord dev cs q a

end Volume

/-! ## Where it does -/

/-- The name that the scan puts together for an entry. -/
def scannedName (s : Scan) (b : List UInt8) : List UInt8 :=
  (readBytes (s.fill (FAT32_ENTRY.ofBytes b)) 0 FILE_NAME_LEN).takeWhile (· ≠ 0)

/-- The scan arrives in the state `s` at entry `q`, a file whose name agrees with `name` as far as
both go. -/
def Agrees (st : Scan) (rs : List (List UInt8)) (name : List UInt8) (q : ℕ) (s : Scan) : Prop :=
  q < rs.length ∧ isFile (rs.getD q []) = true ∧ after st (rs.take q) = some s ∧
    strnicmp (scannedName s (rs.getD q [])) name = 0

/-- The first file that agrees has the name. The entries that are counted as its long name are in its
cluster, and each is deleted or belongs to a file of the name. -/
structure Finds (st : Scan) (max : ℕ) (rs : List (List UInt8)) (name : List UInt8) (q : ℕ)
    (s : Scan) : Prop where
  agrees : Agrees st rs name q s
  first : ∀ p < q, ∀ s, ¬Agrees st rs name p s
  named : Named rs name q
  room : s.nameEntries ≤ q % max
  own : ∀ k ≤ s.nameEntries, (rs.getD (q - k) []).getD 0 0 = 0xe5 ∨
    ∃ q', Named rs name q' ∧ Own rs q' (q - k)

/-- No file agrees, and none has the name; the scan gets through the directory. -/
structure Misses (st : Scan) (rs : List (List UInt8)) (name : List UInt8) : Prop where
  disagree : ∀ q s, ¬Agrees st rs name q s
  unnamed : ∀ q, ¬Named rs name q
  ends : (after st rs).isSome

/-- The locals of `fat32_enum_ent` before the first entry. -/
def start (stack : Stack) : Scan := { stack.toScan with nameEntries := 0 }

/-! ## The loop with these enumerators -/

variable {dev : Fat32Dev} {n : ℕ} {clock : Clock} {d : Store} {cs : List UInt32} {parent : File}
  {stack : Stack} {f : FileEnt} {st s : Scan} {c : UInt32} {a k : ℕ}

/-- The reports that an enumerator compares with `name` successfully. -/
def matching (name : List UInt8) (rep : Report) : Bool := strnicmp rep.fname name = 0

lemma getD_of_getElem? {b : List UInt8} (h : rs[q]? = some b) : rs.getD q [] = b := by
  rw [List.getD_eq_getElem?_getD, h, Option.getD_some]

lemma getElem?_of_lt (h : q < rs.length) : rs[q]? = some (rs.getD q []) := by
  rw [List.getElem?_eq_getElem h, List.getD_eq_getElem _ _ h]

lemma wanted_iff : Wanted clock (matching name) st rs q ↔ ∃ s, Agrees st rs name q s := by
  constructor
  · rintro ⟨b, s, hb, hfile, hs, hmatch⟩
    have hlt := (List.getElem?_eq_some_iff.mp hb).1
    obtain rfl := getD_of_getElem? hb
    exact ⟨s, hlt, hfile, hs, of_decide_eq_true hmatch⟩
  · rintro ⟨s, hlt, hfile, hs, hmatch⟩
    exact ⟨_, s, getElem?_of_lt hlt, hfile, hs, decide_eq_true hmatch⟩

lemma openEnumerator_eq (name : List UInt8) : openEnumerator name = answer (matching name) 1 := by
  funext rep
  simp [openEnumerator, answer, matching]

lemma removeEnumerator_eq (name : List UInt8) :
    removeEnumerator name = answer (matching name) 2 := by
  funext rep
  simp [removeEnumerator, answer, matching]

lemma saveinfoEnumerator_eq (name : List UInt8) :
    saveinfoEnumerator name = answer (matching name) 3 := by
  funext rep
  simp [saveinfoEnumerator, answer, matching]

/-- The scan starts at the first cluster. -/
lemma enumEnt_eq (enumerator : Report → Int32) :
    fat32EnumEnt dev clock d { parent with pos := 0 } stack enumerator f =
      enumLoop dev clock d enumerator f addressSpace (start stack) parent.data 0 := by
  have horder : cluOrder dev 0 = 0 := by
    rw [cluOrder, UInt32.zero_div]
    rfl
  have hpos : ((0 : UInt32) % dev.bytPerClu).toNat = 0 := by
    rw [UInt32.zero_mod]
    rfl
  rw [fat32EnumEnt]
  dsimp only
  rw [horder, hpos, getCluByOrder, start]

lemma maxEntries_eq (h : dev.Proper n) : entrySize * maxEntries dev = dev.bytPerClu.toNat := by
  have hbytes := h.bytPerClu_eq
  have hsize : entrySize = 32 := rfl
  rw [maxEntries, hsize]
  omega

lemma maxEntries_pos (h : dev.Proper n) : 0 < maxEntries dev := by
  have hbytes := h.bytPerClu_eq
  have hpos := h.secPerClu_pos
  have hsize : entrySize = 32 := rfl
  rw [maxEntries, hsize]
  omega

namespace Directory

lemma inuse (h : Directory dev n d parent cs) : ∀ c ∈ cs, IS_FAT32CLU_INUSE c :=
  fun c hc => (h.clusters c hc).inuse h.proper.numbers_lt

lemma found (h : Directory dev n d parent cs) (clock : Clock) (f : FileEnt) {ret : Int32}
    (hret : ret = 1 ∨ ret = 2 ∨ ret = 3)
    (hq : Agrees (start stack) (records dev d cs) name q s)
    (hfirst : ∀ p < q, ∀ s, ¬Agrees (start stack) (records dev d cs) name p s) :
    ∃ c, cs[q / maxEntries dev]? = some c ∧
      fat32EnumEnt dev clock d { parent with pos := 0 } stack (answer (matching name) ret) f =
        stopped dev clock d f c ⟨ret, q % maxEntries dev, s.nameEntries,
          reported clock s ((records dev d cs).getD q [])⟩ := by
  obtain ⟨e, hfollow, -⟩ := h.chain
  obtain ⟨hlt, hfile, hs, hmatch⟩ := id hq
  rw [enumEnt_eq]
  exact enumLoop_found hret (maxEntries_pos h.proper) hfollow h.inuse (nodup_length_le h.nodup)
    (getElem?_of_lt hlt) hs (wanted_iff.mpr ⟨s, hq⟩) fun p hp hwant =>
      let ⟨s', hs'⟩ := wanted_iff.mp hwant
      hfirst p hp s' hs'

lemma missed (h : Directory dev n d parent cs) (clock : Clock) (f : FileEnt) (ret : Int32)
    (hq : ∀ q s, ¬Agrees (start stack) (records dev d cs) name q s) :
    fat32EnumEnt dev clock d { parent with pos := 0 } stack (answer (matching name) ret) f =
      (after (start stack) (records dev d cs)).map fun _ => (-1, none, d) := by
  obtain ⟨e, hfollow, hend⟩ := h.chain
  rw [enumEnt_eq]
  exact enumLoop_end ret hfollow h.inuse (not_inuse_of_end hend) h.nonempty
    (nodup_length_le h.nodup) fun q hwant =>
      let ⟨s, hs⟩ := wanted_iff.mp hwant
      hq q s hs

end Directory

/-! ## Entries on the device -/

lemma length_records (dev : Fat32Dev) (d : Store) (cs : List UInt32) :
    (records dev d cs).length = cs.length * maxEntries dev := by
  induction cs with
  | nil => simp [records]
  | cons c cs ih =>
    rw [records_cons, List.length_append, length_entries, ih, List.length_cons, Nat.succ_mul,
      Nat.add_comm]

lemma getD_readBytes {j m : ℕ} (hj : j < m) : (readBytes d a m).getD j 0 = d (a + j) := by
  simp [readBytes, hj]

lemma cluster_of_record (hp : p < (records dev d cs).length) :
    cs.getD (p / maxEntries dev) 0 ∈ cs ∧
      cs[p / maxEntries dev]? = some (cs.getD (p / maxEntries dev) 0) := by
  rw [length_records] at hp
  have hlt : p / maxEntries dev < cs.length := Nat.div_lt_of_lt_mul (by rwa [Nat.mul_comm])
  rw [List.getD_eq_getElem _ _ hlt]
  exact ⟨List.getElem_mem hlt, List.getElem?_eq_getElem hlt⟩

namespace Directory

/-- An entry does not get over the end of its cluster. -/
lemma record_fits (h : Directory dev n d parent cs) (p : ℕ) :
    entrySize * (p % maxEntries dev) + entrySize ≤ dev.bytPerClu.toNat := by
  rw [← maxEntries_eq h.proper, ← Nat.mul_succ]
  exact Nat.mul_le_mul_left _ (Nat.mod_lt _ (maxEntries_pos h.proper))

lemma read_byte (h : Directory dev n d parent cs) (hc : c ∈ cs) {j : ℕ}
    (hj : j < dev.bytPerClu.toNat) : (readclu dev d c).getD j 0 = d (cluAddr dev c + j) := by
  rw [h.proper.readclu_eq d (h.clusters c hc), getD_readBytes hj]

lemma write_byte (h : Directory dev n d parent cs) (hc : c ∈ cs) {data : List UInt8}
    (hlen : data.length = dev.bytPerClu.toNat) (a : ℕ) : writeclu dev d c data a =
      if cluAddr dev c ≤ a ∧ a < cluAddr dev c + dev.bytPerClu.toNat then
        data.getD (a - cluAddr dev c) 0 else d a := by
  rw [h.proper.writeclu_eq d (h.clusters c hc) hlen]
  by_cases hin : cluAddr dev c ≤ a ∧ a < cluAddr dev c + dev.bytPerClu.toNat
  · have hlt : a - cluAddr dev c < data.length := by omega
    rw [if_pos hin, writeBytes, if_pos hin.1, List.getD_eq_getElem _ _ hlt,
      List.getD_eq_getElem _ _ hlt]
  · rw [if_neg hin, writeBytes_outside]
    omega

lemma record_byte (h : Directory dev n d parent cs) (hp : p < (records dev d cs).length) {j : ℕ}
    (hj : j < entrySize) :
    ((records dev d cs).getD p []).getD j 0 = d (recordAddr dev cs p + j) := by
  obtain ⟨hmem, hget⟩ := cluster_of_record hp
  have hfits := h.record_fits p
  have hrec : (records dev d cs)[p]? = some (field
      (readclu dev d (cs.getD (p / maxEntries dev) 0)) (entrySize * (p % maxEntries dev))
      entrySize) := by
    rw [records_getElem? (maxEntries_pos h.proper), hget, Option.map_some]
  rw [getD_of_getElem? hrec, recordAddr, Nat.add_assoc, ← h.read_byte hmem (by omega)]
  simp [field, hj]

/-- No byte is in two entries. -/
lemma inRecord_inj (h : Directory dev n d parent cs) (hp : p < (records dev d cs).length)
    (hq : q < (records dev d cs).length) (hpa : InRecord dev cs p a) (hqa : InRecord dev cs q a) :
    p = q := by
  obtain ⟨hpmem, hpget⟩ := cluster_of_record hp
  obtain ⟨hqmem, hqget⟩ := cluster_of_record hq
  have hpfits := h.record_fits p
  have hqfits := h.record_fits q
  obtain ⟨hple, hplt⟩ := hpa
  obtain ⟨hqle, hqlt⟩ := hqa
  rw [recordAddr, entrySize] at hple hplt hqle hqlt
  rw [entrySize] at hpfits hqfits
  by_cases hclu : cs.getD (p / maxEntries dev) 0 = cs.getD (q / maxEntries dev) 0
  · have hlt := (List.getElem?_eq_some_iff.mp hpget).1
    have hdiv : p / maxEntries dev = q / maxEntries dev :=
      (List.getElem?_inj hlt h.nodup).mp (by rw [hpget, hqget, hclu])
    have hmod : p % maxEntries dev = q % maxEntries dev := by
      rw [hclu] at hple hplt
      omega
    rw [← Nat.div_add_mod p (maxEntries dev), hdiv, hmod, Nat.div_add_mod]
  · rcases Fat32Dev.Proper.cluAddr_disjoint dev (h.clusters _ hpmem) (h.clusters _ hqmem) hclu with
      hdisj | hdisj <;> omega

/-- The entries in front of another one in its cluster. -/
lemma recordAddr_sub (h : Directory dev n d parent cs) (hk : k ≤ q % maxEntries dev) :
    recordAddr dev cs (q - k) = cluAddr dev (cs.getD (q / maxEntries dev) 0) +
      (entrySize * (q % maxEntries dev) - entrySize * k) := by
  have hpos := maxEntries_pos h.proper
  have hsplit := Nat.div_add_mod q (maxEntries dev)
  have hlt := Nat.mod_lt q hpos
  have heq : q - k = q % maxEntries dev - k + maxEntries dev * (q / maxEntries dev) := by omega
  have hdiv : (q - k) / maxEntries dev = q / maxEntries dev := by
    rw [heq, Nat.add_mul_div_left _ _ hpos, Nat.div_eq_of_lt (by omega), Nat.zero_add]
  have hmod : (q - k) % maxEntries dev = q % maxEntries dev - k := by
    rw [heq, Nat.add_mul_mod_self_left]
    exact Nat.mod_eq_of_lt (by omega)
  rw [recordAddr, hdiv, hmod, Nat.mul_sub]

end Directory

lemma length_deleteEntries (data : List UInt8) (off m : ℕ) :
    (deleteEntries data off m).length = data.length := by
  induction m generalizing data with
  | zero => simp [deleteEntries]
  | succ m ih => rw [deleteEntries, ih, List.length_set]

lemma getD_deleteEntries {data : List UInt8} {off m : ℕ} (hm : entrySize * m ≤ off)
    (hoff : off < data.length) (j : ℕ) : (deleteEntries data off m).getD j 0 =
      if ∃ k ≤ m, j = off - entrySize * k then 0xe5 else data.getD j 0 := by
  induction m generalizing data with
  | zero =>
    by_cases hj : j = off
    · subst hj
      simp [deleteEntries, hoff]
    · simp [deleteEntries, hj, Ne.symm hj]
  | succ m ih =>
    rw [deleteEntries, ih (by rw [Nat.mul_succ] at hm; omega) (by rwa [List.length_set])]
    by_cases hk : ∃ k ≤ m, j = off - entrySize * k
    · obtain ⟨k, hk, hj⟩ := hk
      rw [if_pos ⟨k, hk, hj⟩, if_pos ⟨k, Nat.le_succ_of_le hk, hj⟩]
    · rw [if_neg hk]
      by_cases hj : j = off - entrySize * (m + 1)
      · rw [if_pos ⟨m + 1, le_rfl, hj⟩, hj]
        simp [Nat.lt_of_le_of_lt (Nat.sub_le _ _) hoff]
      · have hnone : ¬∃ k ≤ m + 1, j = off - entrySize * k := by
          rintro ⟨k, hle, rfl⟩
          rcases Nat.lt_or_eq_of_le hle with hlt | rfl
          · exact hk ⟨k, Nat.le_of_lt_succ hlt, rfl⟩
          · exact hj rfl
        rw [if_neg hnone, List.getD_eq_getElem?_getD, List.getElem?_set_ne (Ne.symm hj),
          ← List.getD_eq_getElem?_getD]

lemma getD_memcpy {data bytes : List UInt8} {off j : ℕ} (hfit : off + bytes.length ≤ data.length)
    (hj : j < off ∨ off + bytes.length ≤ j) : (memcpy data off bytes).getD j 0 = data.getD j 0 := by
  have htake : (data.take off).length = off := by
    rw [List.length_take]
    omega
  rw [memcpy, List.append_assoc]
  rcases hj with hlt | hge
  · rw [List.getD_append _ _ _ _ (by rwa [htake])]
    simp [hlt]
  · rw [List.getD_append_right _ _ _ _ (by omega), htake,
      List.getD_append_right _ _ _ _ (by omega), List.getD_eq_getElem?_getD, List.getElem?_drop,
      List.getD_eq_getElem?_getD, show off + bytes.length + (j - off - bytes.length) = j by omega]

namespace Directory

/-- Deleting marks the first bytes of the entries and keeps all others. -/
lemma removed_byte (h : Directory dev n d parent cs) (hget : cs[q / maxEntries dev]? = some c)
    {m : ℕ} (hm : m ≤ q % maxEntries dev) (a : ℕ) :
    writeclu dev d c (deleteEntries (readclu dev d c) (entrySize * (q % maxEntries dev)) m) a =
      if ∃ k ≤ m, a = recordAddr dev cs (q - k) then 0xe5 else d a := by
  have hmem := List.mem_of_getElem? hget
  have hfits := h.record_fits q
  have hlen := h.proper.length_readclu d (h.clusters c hmem)
  have hsize : entrySize = 32 := rfl
  have hoff : entrySize * (q % maxEntries dev) < (readclu dev d c).length := by omega
  have hcs : cs.getD (q / maxEntries dev) 0 = c := by
    rw [List.getD_eq_getElem?_getD, hget, Option.getD_some]
  have haddr : ∀ k ≤ m, recordAddr dev cs (q - k) =
      cluAddr dev c + (entrySize * (q % maxEntries dev) - entrySize * k) := fun k hk => by
    rw [h.recordAddr_sub (hk.trans hm), hcs]
  rw [h.write_byte hmem (by rw [length_deleteEntries, hlen])]
  by_cases hin : cluAddr dev c ≤ a ∧ a < cluAddr dev c + dev.bytPerClu.toNat
  · rw [if_pos hin, getD_deleteEntries (Nat.mul_le_mul_left _ hm) hoff,
      h.read_byte hmem (by omega), Nat.add_sub_cancel' hin.1]
    refine if_congr (exists_congr fun k => and_congr_right fun hk => ?_) rfl rfl
    rw [haddr k hk]
    omega
  · rw [if_neg hin, if_neg]
    rintro ⟨k, hk, rfl⟩
    rw [haddr k hk] at hin
    omega

/-- Saving changes the entry only. -/
lemma saved_byte (h : Directory dev n d parent cs) (hget : cs[q / maxEntries dev]? = some c)
    {bytes : List UInt8} (hbytes : bytes.length = entrySize) {a : ℕ}
    (hne : writeclu dev d c (memcpy (readclu dev d c) (entrySize * (q % maxEntries dev)) bytes) a ≠
      d a) : InRecord dev cs q a := by
  have hmem := List.mem_of_getElem? hget
  have hfits := h.record_fits q
  have hlen := h.proper.length_readclu d (h.clusters c hmem)
  have hcs : cs.getD (q / maxEntries dev) 0 = c := by
    rw [List.getD_eq_getElem?_getD, hget, Option.getD_some]
  by_contra hout
  rw [InRecord, recordAddr, hcs, not_and_or] at hout
  rw [h.write_byte hmem (by rw [length_memcpy (by omega), hlen])] at hne
  split_ifs at hne with hin
  · rw [getD_memcpy (by omega) (by omega), h.read_byte hmem (by omega),
      Nat.add_sub_cancel' hin.1] at hne
    exact hne rfl
  · exact hne rfl

end Directory

/-! ## The calls -/

lemma stopped_open (clock : Clock) (i m : ℕ) (rep : Report) :
    stopped dev clock d f c ⟨1, i, m, rep⟩ = some (1, some rep, d) := rfl

lemma stopped_remove (clock : Clock) {i m : ℕ} (rep : Report) :
    stopped dev clock d f c ⟨2, i, m, rep⟩ = if i < m then none else
      some (2, some rep, writeclu dev d c (deleteEntries (readclu dev d c) (entrySize * i) m)) := by
  have hlt : entrySize * i < entrySize * m ↔ i < m := Nat.mul_lt_mul_left (by decide)
  rw [stopped, enumStop]
  simp only [Nat.zero_add, if_true, hlt]
  split_ifs <;> rfl

lemma stopped_save (clock : Clock) (i m : ℕ) (rep : Report) :
    stopped dev clock d f c ⟨3, i, m, rep⟩ = some (3, some rep, writeclu dev d c
      (memcpy (readclu dev d c) (entrySize * i) (saveEntry clock f (FAT32_ENTRY.ofBytes
        (field (readclu dev d c) (entrySize * i) entrySize))).toBytes)) := by
  have htwo : ¬(3 : Int32) = 2 := by decide
  rw [stopped, enumStop]
  simp only [Nat.zero_add, htwo, if_false, if_true, Option.map_some, Option.elim_some]

lemma settime_fields (clock : Clock) (ff : FAT32_ENTRY) (t : UInt32) (op : ℕ) :
    (fat32Settime clock ff t op).name = ff.name ∧
      (fat32Settime clock ff t op).extention = ff.extention := by
  rw [fat32Settime]
  dsimp only
  split_ifs <;> exact ⟨rfl, rfl⟩

lemma length_saveEntry (clock : Clock) (f : FileEnt) {b : List UInt8} (hb : 11 ≤ b.length) :
    (saveEntry clock f (FAT32_ENTRY.ofBytes b)).toBytes.length = entrySize := by
  have hname : (saveEntry clock f (FAT32_ENTRY.ofBytes b)).name = field b 0 8 := by
    rw [saveEntry]
    dsimp only
    rw [(settime_fields ..).1, (settime_fields ..).1, FAT32_ENTRY.ofBytes]
  have hext : (saveEntry clock f (FAT32_ENTRY.ofBytes b)).extention = field b 8 3 := by
    rw [saveEntry]
    dsimp only
    rw [(settime_fields ..).2, (settime_fields ..).2, FAT32_ENTRY.ofBytes]
  rw [FAT32_ENTRY.toBytes]
  simp only [List.length_append, hname, hext, field, List.length_take, List.length_drop,
    length_littleEndian, List.length_cons, List.length_nil, entrySize]
  omega

namespace Directory

lemma open_found (h : Directory dev n d parent cs) (clock : Clock) (f : FileEnt)
    (hq : Agrees (start stack) (records dev d cs) name q s)
    (hfirst : ∀ p < q, ∀ s, ¬Agrees (start stack) (records dev d cs) name p s) :
    ∃ f', openExisting dev clock d parent stack f name = some (0, f') ∧
      Loads clock f' (FAT32_ENTRY.ofBytes ((records dev d cs).getD q [])) := by
  obtain ⟨c, -, henum⟩ := h.found clock f (.inl rfl) hq hfirst
  rw [stopped_open, ← openEnumerator_eq] at henum
  simp only [openExisting]
  rw [henum]
  refine ⟨_, rfl, rfl, rfl, rfl, fun t ht => ?_, fun t ht => ?_⟩
  · exact congrArg (Option.getD · stack.ctime) ht
  · exact congrArg (Option.getD · stack.mtime) ht

lemma remove_found (h : Directory dev n d parent cs) (clock : Clock) (f : FileEnt)
    (hq : Agrees (start stack) (records dev d cs) name q s)
    (hfirst : ∀ p < q, ∀ s, ¬Agrees (start stack) (records dev d cs) name p s) :
    (q % maxEntries dev < s.nameEntries →
      fat32RemoveEnt dev clock d parent stack { f with name := name } = none) ∧
    (s.nameEntries ≤ q % maxEntries dev → ∃ d',
      fat32RemoveEnt dev clock d parent stack { f with name := name } = some (0, d') ∧
      ∀ a, d' a = if ∃ k ≤ s.nameEntries, a = recordAddr dev cs (q - k) then 0xe5 else d a) := by
  obtain ⟨c, hget, henum⟩ := h.found clock { f with name := name } (.inr (.inl rfl)) hq hfirst
  rw [stopped_remove, ← removeEnumerator_eq] at henum
  refine ⟨fun hlt => ?_, fun hle => ⟨_, ?_, h.removed_byte hget hle⟩⟩
  · rw [if_pos hlt] at henum
    rw [fat32RemoveEnt]
    dsimp only
    rw [henum]
    rfl
  · rw [if_neg (Nat.not_lt.mpr hle)] at henum
    rw [fat32RemoveEnt]
    dsimp only
    rw [henum]
    rfl

lemma save_found (h : Directory dev n d parent cs) (clock : Clock) (f : FileEnt)
    (hq : Agrees (start stack) (records dev d cs) name q s)
    (hfirst : ∀ p < q, ∀ s, ¬Agrees (start stack) (records dev d cs) name p s) :
    ∃ d', fat32Saveinfo dev clock d parent stack { f with name := name } = some (0, d') ∧
      ∀ a, d' a ≠ d a → InRecord dev cs q a := by
  obtain ⟨c, hget, henum⟩ := h.found clock { f with name := name } (.inr (.inr rfl)) hq hfirst
  rw [stopped_save, ← saveinfoEnumerator_eq] at henum
  rw [fat32Saveinfo]
  dsimp only
  rw [henum]
  refine ⟨_, rfl, fun a hne => h.saved_byte hget (length_saveEntry clock _ ?_) hne⟩
  have hfits := h.record_fits q
  have hlen := h.proper.length_readclu d (h.clusters c (List.mem_of_getElem? hget))
  have hsize : entrySize = 32 := rfl
  rw [field, List.length_take, List.length_drop]
  omega

lemma open_missed (h : Directory dev n d parent cs) (clock : Clock) (f : FileEnt)
    (hq : ∀ q s, ¬Agrees (start stack) (records dev d cs) name q s) :
    openExisting dev clock d parent stack f name =
      (after (start stack) (records dev d cs)).map fun _ => (-1, f) := by
  have henum := h.missed clock f 1 hq
  rw [← openEnumerator_eq] at henum
  simp only [openExisting]
  rw [henum]
  cases after (start stack) (records dev d cs) <;> rfl

lemma remove_missed (h : Directory dev n d parent cs) (clock : Clock) (f : FileEnt)
    (hq : ∀ q s, ¬Agrees (start stack) (records dev d cs) name q s) :
    fat32RemoveEnt dev clock d parent stack { f with name := name } =
      (after (start stack) (records dev d cs)).map fun _ => (-1, d) := by
  have henum := h.missed clock { f with name := name } 2 hq
  rw [← removeEnumerator_eq] at henum
  rw [fat32RemoveEnt]
  dsimp only
  rw [henum]
  cases after (start stack) (records dev d cs) <;> rfl

lemma save_missed (h : Directory dev n d parent cs) (clock : Clock) (f : FileEnt)
    (hq : ∀ q s, ¬Agrees (start stack) (records dev d cs) name q s) :
    fat32Saveinfo dev clock d parent stack { f with name := name } =
      (after (start stack) (records dev d cs)).map fun _ => (-1, d) := by
  have henum := h.missed clock { f with name := name } 3 hq
  rw [← saveinfoEnumerator_eq] at henum
  rw [fat32Saveinfo]
  dsimp only
  rw [henum]
  cases after (start stack) (records dev d cs) <;> rfl

/-- Removing keeps to the entries of the file exactly if the first file that agrees has the name. -/
lemma removes_iff (h : Directory dev n d parent cs) (clock : Clock) (f : FileEnt)
    (hq : Agrees (start stack) (records dev d cs) name q s)
    (hfirst : ∀ p < q, ∀ s, ¬Agrees (start stack) (records dev d cs) name p s) :
    Removes dev clock d cs parent stack f name ↔
      Finds (start stack) (maxEntries dev) (records dev d cs) name q s := by
  obtain ⟨hnone, hsome⟩ := h.remove_found clock f hq hfirst
  obtain ⟨hlt, hfile, -, -⟩ := id hq
  constructor
  · rintro ⟨ret, d', hremove, -, hchange⟩
    have hroom : s.nameEntries ≤ q % maxEntries dev := by
      by_contra hfull
      rw [hnone (Nat.lt_of_not_le hfull)] at hremove
      cases hremove
    obtain ⟨d₁, hremove', hbytes⟩ := hsome hroom
    obtain ⟨-, rfl⟩ := Prod.mk.inj (Option.some.inj (hremove'.symm.trans hremove))
    -- a mark that is new is in an entry of a file of the name
    have hown : ∀ k ≤ s.nameEntries, ((records dev d cs).getD (q - k) []).getD 0 0 = 0xe5 ∨
        ∃ q', Named (records dev d cs) name q' ∧ Own (records dev d cs) q' (q - k) := by
      intro k hk
      have hpos : q - k < (records dev d cs).length := Nat.lt_of_le_of_lt (Nat.sub_le q k) hlt
      have hrec := h.record_byte hpos (j := 0) (by decide)
      have hmark := hbytes (recordAddr dev cs (q - k))
      rw [if_pos ⟨k, hk, rfl⟩] at hmark
      rw [hrec, Nat.add_zero]
      by_cases hold : d (recordAddr dev cs (q - k)) = 0xe5
      · exact .inl hold
      · obtain ⟨q', p, hnamed, hown, hin⟩ :=
          hchange (recordAddr dev cs (q - k)) (by rw [hmark]; exact Ne.symm hold)
        have hp : p < (records dev d cs).length := Nat.lt_of_le_of_lt hown.1 hnamed.1
        have hself : InRecord dev cs (q - k) (recordAddr dev cs (q - k)) :=
          ⟨le_rfl, Nat.lt_add_of_pos_right (by decide)⟩
        exact .inr ⟨q', hnamed, h.inRecord_inj hp hpos hin hself ▸ hown⟩
    refine ⟨hq, hfirst, ?_, hroom, hown⟩
    have hself := hown 0 (Nat.zero_le _)
    rw [Nat.sub_zero] at hself
    rcases hself with hdel | ⟨q', hnamed, hown⟩
    · have hunused : unused ((records dev d cs).getD q []) = true := by
        rw [unused, hdel]
        rfl
      rw [isFile, hunused] at hfile
      cases hfile
    · rwa [eq_of_own hown hfile]
  · rintro ⟨-, -, hnamed, hroom, hown⟩
    obtain ⟨d', hremove, hbytes⟩ := hsome hroom
    refine ⟨0, d', hremove, ⟨fun _ => ⟨q, hnamed⟩, fun _ => rfl⟩, fun a hne => ?_⟩
    rw [hbytes a] at hne
    split_ifs at hne with hk
    · obtain ⟨k, hk, rfl⟩ := hk
      have hpos : q - k < (records dev d cs).length := Nat.lt_of_le_of_lt (Nat.sub_le q k) hlt
      rcases hown k hk with hdel | ⟨q', hnamed', hown'⟩
      · rw [h.record_byte hpos (by decide)] at hdel
        exact absurd hdel.symm hne
      · exact ⟨q', q - k, hnamed', hown', le_rfl, Nat.lt_add_of_pos_right (by decide)⟩
    · exact absurd rfl hne

lemma opens_of_named (h : Directory dev n d parent cs) (clock : Clock) (f : FileEnt)
    (hq : Agrees (start stack) (records dev d cs) name q s)
    (hfirst : ∀ p < q, ∀ s, ¬Agrees (start stack) (records dev d cs) name p s)
    (hnamed : Named (records dev d cs) name q) : Opens dev clock d cs parent stack f name := by
  obtain ⟨f', hopen, hloads⟩ := h.open_found clock f hq hfirst
  exact ⟨0, f', hopen, ⟨fun _ => ⟨q, hnamed⟩, fun _ => rfl⟩, fun _ => ⟨q, hnamed, hloads⟩⟩

lemma saves_of_named (h : Directory dev n d parent cs) (clock : Clock) (f : FileEnt)
    (hq : Agrees (start stack) (records dev d cs) name q s)
    (hfirst : ∀ p < q, ∀ s, ¬Agrees (start stack) (records dev d cs) name p s)
    (hnamed : Named (records dev d cs) name q) : Saves dev clock d cs parent stack f name := by
  obtain ⟨d', hsave, hbytes⟩ := h.save_found clock f hq hfirst
  exact ⟨0, d', hsave, ⟨fun _ => ⟨q, hnamed⟩, fun _ => rfl⟩, fun a hne =>
    ⟨q, hnamed, hbytes a hne⟩⟩

/-- When no file agrees, nothing is found and nothing changes, if the scan gets to its end. -/
lemma misses_iff (h : Directory dev n d parent cs) (clock : Clock) (f : FileEnt)
    (hq : ∀ q s, ¬Agrees (start stack) (records dev d cs) name q s) :
    (Opens dev clock d cs parent stack f name ∧ Removes dev clock d cs parent stack f name ∧
      Saves dev clock d cs parent stack f name) ↔
    Misses (start stack) (records dev d cs) name := by
  have hopen := h.open_missed clock f hq
  have hremove := h.remove_missed clock f hq
  have hsave := h.save_missed clock f hq
  have hfail : (-1 : Int32) ≠ 0 := by decide
  constructor
  · rintro ⟨⟨ret, f', hopen', hret, -⟩, -⟩
    cases hend : after (start stack) (records dev d cs) with
    | none =>
      rw [hopen, hend] at hopen'
      cases hopen'
    | some s =>
      rw [hopen, hend, Option.map_some] at hopen'
      obtain ⟨rfl, -⟩ := Prod.mk.inj (Option.some.inj hopen')
      exact ⟨hq, fun q hnamed => hfail (hret.mpr ⟨q, hnamed⟩), by rw [hend]; rfl⟩
  · rintro ⟨-, hnamed, hend⟩
    obtain ⟨s, hs⟩ := Option.isSome_iff_exists.mp hend
    rw [hs, Option.map_some] at hopen hremove hsave
    have hret : (-1 : Int32) = 0 ↔ ∃ q, Named (records dev d cs) name q :=
      ⟨fun he => absurd he hfail, fun ⟨q, hq⟩ => absurd hq (hnamed q)⟩
    exact ⟨⟨-1, f, hopen, hret, fun he => absurd he hfail⟩,
      ⟨-1, d, hremove, hret, fun a hne => absurd rfl hne⟩,
      ⟨-1, d, hsave, hret, fun a hne => absurd rfl hne⟩⟩

end Directory

/-- The first file that agrees, and the state of the scan at it, are determined. -/
lemma Finds.eq {max q' : ℕ} {s' : Scan} (h : Finds st max rs name q s)
    (hq : Agrees st rs name q' s') (hfirst : ∀ p < q', ∀ s, ¬Agrees st rs name p s) :
    q = q' ∧ s = s' := by
  have heq : q = q' := by
    rcases Nat.lt_trichotomy q q' with hlt | heq | hlt
    · exact absurd h.agrees (hfirst q hlt s)
    · exact heq
    · exact absurd hq (h.first q' hlt s')
  subst heq
  obtain ⟨-, -, hs, -⟩ := h.agrees
  obtain ⟨-, -, hs', -⟩ := hq
  exact ⟨rfl, Option.some.inj (hs.symm.trans hs')⟩

/-- The calls do what they should exactly if the first file that agrees with the name as far as both
go has this name, or none agrees and none has it. -/
theorem lookup_iff (h : Directory dev n d parent cs) (clock : Clock) (stack : Stack) (f : FileEnt)
    (name : List UInt8) :
    (Opens dev clock d cs parent stack f name ∧ Removes dev clock d cs parent stack f name ∧
      Saves dev clock d cs parent stack f name) ↔
    (∃ q s, Finds (start stack) (maxEntries dev) (records dev d cs) name q s) ∨
      Misses (start stack) (records dev d cs) name := by
  classical
  by_cases hex : ∃ q s, Agrees (start stack) (records dev d cs) name q s
  · obtain ⟨s, hq⟩ := Nat.find_spec hex
    have hfirst : ∀ p < Nat.find hex, ∀ s, ¬Agrees (start stack) (records dev d cs) name p s :=
      fun p hp s hs => Nat.find_min hex hp ⟨s, hs⟩
    generalize Nat.find hex = q at hq hfirst
    constructor
    · rintro ⟨-, hremove, -⟩
      exact .inl ⟨q, s, (h.removes_iff clock f hq hfirst).mp hremove⟩
    · rintro (⟨q', s', hfind⟩ | hmiss)
      · obtain ⟨rfl, rfl⟩ := hfind.eq hq hfirst
        exact ⟨h.opens_of_named clock f hq hfirst hfind.named,
          (h.removes_iff clock f hq hfirst).mpr hfind,
          h.saves_of_named clock f hq hfirst hfind.named⟩
      · exact absurd hq (hmiss.disagree q s)
  · have hnone : ∀ q s, ¬Agrees (start stack) (records dev d cs) name q s :=
      fun q s hs => hex ⟨q, s, hs⟩
    rw [h.misses_iff clock f hnone]
    exact ⟨.inr, fun hor => hor.resolve_left fun ⟨q, s, hfind⟩ => hnone q s hfind.agrees⟩

/-! ## A directory with one file -/

/-- The file is called `FOOBAR.TXT`. -/
def fooStore : Store :=
  writeBytes smallStore 4608 [70, 79, 79, 66, 65, 82, 32, 32, 84, 88, 84, 32]

def fooDir : File := ⟨2, 0, 0, false⟩

def noClock : Clock := ⟨fun _ => 0, fun _ => (-1, ⟨0, 0, 0, 0, 0, 0⟩)⟩

def noStack : Stack := ⟨⟨fun _ => 0, fun _ => [], 0, 0, 0⟩, 0, 0⟩

def noFile : FileEnt := ⟨⟨0, 0, 0, false⟩, [], 0, 0, 0, 0⟩

lemma foo_directory : Directory smallDev 4 fooStore fooDir [2] where
  proper := @fat32Init_proper smallDev 4 smallBoot rfl rfl (by decide) (by decide) (by decide)
    (by decide) (by decide) (by decide)
  chain := by
    have hnext : nextclu smallDev fooStore 2 = 0x0fffffff := by decide +kernel
    exact ⟨0x0fffffff, ⟨rfl, hnext⟩, rfl⟩
  clusters c hc := by
    obtain rfl := List.mem_singleton.mp hc
    exact ⟨by decide, by decide⟩
  nodup := by simp
  nonempty := by simp

/-- The file is found as `foobar.txt`. -/
theorem lookup_foobar :
    Opens smallDev noClock fooStore [2] fooDir noStack noFile
      [102, 111, 111, 98, 97, 114, 46, 116, 120, 116] ∧
    Removes smallDev noClock fooStore [2] fooDir noStack noFile
      [102, 111, 111, 98, 97, 114, 46, 116, 120, 116] ∧
    Saves smallDev noClock fooStore [2] fooDir noStack noFile
      [102, 111, 111, 98, 97, 114, 46, 116, 120, 116] := by
  have hnamed : Named (records smallDev fooStore [2])
      [102, 111, 111, 98, 97, 114, 46, 116, 120, 116] 0 := by decide +kernel
  exact (lookup_iff foo_directory noClock noStack noFile _).mpr (.inl ⟨0, start noStack,
    ⟨hnamed.1, hnamed.2.1, rfl, by decide +kernel⟩, fun p hp => absurd hp (Nat.not_lt_zero p),
    hnamed, Nat.zero_le _, fun k _ => .inr ⟨0, hnamed, by rw [Nat.zero_sub]; exact own_self _ 0⟩⟩)

/-- It is also found as `foo`, the name of no file. -/
theorem not_lookup : Directory smallDev 4 fooStore fooDir [2] ∧
    ¬ Opens smallDev noClock fooStore [2] fooDir noStack noFile [102, 111, 111] := by
  refine ⟨foo_directory, ?_⟩
  rintro ⟨ret, f', hopen, hret, -⟩
  have hzero : (openExisting smallDev noClock fooStore fooDir noStack noFile
      [102, 111, 111]).map (·.1) = some 0 := by decide +kernel
  rw [hopen, Option.map_some] at hzero
  obtain ⟨q, hq⟩ := hret.mp (Option.some.inj hzero)
  have hnone : ∀ q < (records smallDev fooStore [2]).length,
      ¬Named (records smallDev fooStore [2]) [102, 111, 111] q := by decide +kernel
  exact hnone q hq.1 hq

end Lookup

end Sgos.Fat32
