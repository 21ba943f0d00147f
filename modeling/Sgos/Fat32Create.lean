import Sgos.Fat32Names

/-!
# Putting an entry into a directory

What `fat32_create_ent` changes of the entries of a cluster: the unused entries that it has found
become the parts of a long name and the entry of the file.
-/
namespace Sgos.Fat32
open ByteBuffer ByteStore

namespace Create
open Scan Lookup Names

/-! ## Entries as bytes -/

variable {as bs : List UInt8} {off width : ℕ}

lemma field_append_right (h : as.length ≤ off) :
    field (as ++ bs) off width = field bs (off - as.length) width := by
  rw [field, field, List.drop_append, List.drop_eq_nil_of_le h, List.nil_append]

lemma field_append_left (h : as.length = width) : field (as ++ bs) 0 width = as := by
  rw [field, List.drop_zero, List.take_left' h]

lemma field_self (h : as.length = width) : field as 0 width = as := by
  rw [field, List.drop_zero, ← h, List.take_length]

lemma ofNat_littleEndian_two (x : UInt16) :
    UInt16.ofNat (ofLittleEndian (littleEndian 2 x.toNat)) = x := by
  rw [ofLittleEndian_littleEndian 2 _ x.toNat_lt, UInt16.ofNat_toNat]

lemma ofNat_littleEndian_four (x : UInt32) :
    UInt32.ofNat (ofLittleEndian (littleEndian 4 x.toNat)) = x := by
  rw [ofLittleEndian_littleEndian 4 _ x.toNat_lt, UInt32.ofNat_toNat]

/-- An entry is read as it was written. -/
theorem ofBytes_toBytes {ff : FAT32_ENTRY} (hname : ff.name.length = 8)
    (hext : ff.extention.length = 3) : FAT32_ENTRY.ofBytes ff.toBytes = ff := by
  have htwo := ofNat_littleEndian_two
  have hfour := ofNat_littleEndian_four
  rw [FAT32_ENTRY.toBytes]
  simp (disch := simp [*]) only [FAT32_ENTRY.ofBytes, field16, List.append_assoc,
    field_append_right, field_append_left, field_self, List.getD_append_right, hname, hext,
    length_littleEndian, Nat.sub_self, List.length_cons, List.length_nil, Nat.reduceSub,
    Nat.reduceAdd, htwo, hfour]
  rfl

theorem nameEntry_ofBytes_toBytes {lne : FAT32_NAME_ENTRY} (h₁ : lne.name1.length = 10)
    (h₂ : lne.name2.length = 12) (h₃ : lne.name3.length = 4) :
    FAT32_NAME_ENTRY.ofBytes lne.toBytes = lne := by
  have htwo := ofNat_littleEndian_two
  rw [FAT32_NAME_ENTRY.toBytes]
  simp (disch := simp [*]) only [FAT32_NAME_ENTRY.ofBytes, field16, List.append_assoc,
    field_append_right, field_append_left, field_self, List.getD_append_right, h₁, h₂,
    length_littleEndian, Nat.sub_self, List.length_cons, List.length_nil, Nat.reduceSub,
    Nat.reduceAdd, htwo]
  rfl

lemma length_toBytes {ff : FAT32_ENTRY} (hname : ff.name.length = 8)
    (hext : ff.extention.length = 3) : ff.toBytes.length = entrySize := by
  simp only [FAT32_ENTRY.toBytes, List.length_append, hname, hext, length_littleEndian,
    List.length_cons, List.length_nil, entrySize]

lemma length_nameEntry_toBytes {lne : FAT32_NAME_ENTRY} (h₁ : lne.name1.length = 10)
    (h₂ : lne.name2.length = 12) (h₃ : lne.name3.length = 4) :
    lne.toBytes.length = entrySize := by
  simp only [FAT32_NAME_ENTRY.toBytes, List.length_append, h₁, h₂, h₃, length_littleEndian,
    List.length_cons, List.length_nil, entrySize]

/-! ## Entries of a cluster -/

variable {data : List UInt8} {i max : ℕ} {rs : List (List UInt8)}

lemma getElem?_field (b : List UInt8) (off width k : ℕ) :
    (field b off width)[k]? = if k < width then b[off + k]? else none := by
  rw [field, List.getElem?_take, List.getElem?_drop]

lemma getElem?_memcpy (hfit : off + bs.length ≤ data.length) (j : ℕ) :
    (memcpy data off bs)[j]? =
      if j < off then data[j]? else if j < off + bs.length then bs[j - off]? else data[j]? := by
  have htake : (data.take off).length = off := by
    rw [List.length_take]
    omega
  rw [memcpy, List.append_assoc]
  split_ifs with hlt hin
  · rw [List.getElem?_append_left (by omega), List.getElem?_take_of_lt hlt]
  · rw [List.getElem?_append_right (by omega), htake, List.getElem?_append_left (by omega)]
  · rw [List.getElem?_append_right (by omega), htake, List.getElem?_append_right (by omega),
      List.getElem?_drop]
    congr 1
    omega

lemma getElem?_entries (data : List UInt8) (max j : ℕ) : (entries data 0 max)[j]? =
    if j < max then some (field data (entrySize * j) entrySize) else none := by
  rw [entries, List.getElem?_map]
  by_cases hj : j < max
  · rw [List.getElem?_range hj, if_pos hj, Option.map_some, Nat.zero_add]
  · rw [List.getElem?_eq_none (by rw [List.length_range]; omega), if_neg hj]
    rfl

/-- An entry that is copied to its place. -/
lemma entries_memcpy (hlen : data.length = entrySize * max) (hi : i < max)
    (hbs : bs.length = entrySize) :
    entries (memcpy data (entrySize * i) bs) 0 max = (entries data 0 max).set i bs := by
  have hsize : bs.length = 32 := hbs
  have hfit : entrySize * i + bs.length ≤ data.length := by
    rw [hlen, hbs, ← Nat.mul_succ]
    exact Nat.mul_le_mul_left _ hi
  apply List.ext_getElem?
  intro j
  rw [getElem?_entries, List.getElem?_set, length_entries, getElem?_entries]
  by_cases hj : j < max
  · rw [if_pos hj, if_pos hj]
    by_cases hij : i = j
    · subst hij
      rw [if_pos rfl, if_pos hj]
      refine congrArg some (List.ext_getElem? fun k => ?_)
      rw [getElem?_field, getElem?_memcpy hfit, entrySize,
        if_neg (Nat.not_lt.mpr (Nat.le_add_right (32 * i) k)), Nat.add_sub_cancel_left]
      split_ifs with hk hlast
      · rfl
      · omega
      · rw [List.getElem?_eq_none (by omega)]
    · rw [if_neg hij]
      refine congrArg some (List.ext_getElem? fun k => ?_)
      rw [getElem?_field, getElem?_field, getElem?_memcpy hfit, entrySize]
      split_ifs <;> first | rfl | omega
  · rw [if_neg hj, if_neg (by omega)]
    rw [if_neg hj]

/-! ## The parts of a new name -/

/-- Part `k` of the long name in the buffer `uni`; `last` is the number of its last part. -/
def partEntry (uni : List UInt8) (sum : UInt8) (last k : ℕ) : FAT32_NAME_ENTRY where
  id := UInt8.ofNat k ||| if k = last then 0x40 else 0
  name1 := field uni (26 * (k - 1)) 10
  attr := 0xf
  reserved := 0
  checksum := sum
  name2 := field uni (26 * (k - 1) + 10) 12
  first_cluster := 0
  name3 := field uni (26 * (k - 1) + 22) 4

/-- The entries of the parts `m` to 1. -/
def partRecords (uni : List UInt8) (sum : UInt8) (last : ℕ) : ℕ → List (List UInt8)
  | 0 => []
  | m + 1 => (partEntry uni sum last (m + 1)).toBytes :: partRecords uni sum last m

variable {uni : List UInt8} {sum : UInt8} {last m k : ℕ}

lemma length_field (h : off + width ≤ as.length) : (field as off width).length = width := by
  rw [field, List.length_take, List.length_drop]
  omega

lemma partEntry_fields (h : 26 * k ≤ uni.length) (hk : 0 < k) :
    (partEntry uni sum last k).name1.length = 10 ∧ (partEntry uni sum last k).name2.length = 12 ∧
      (partEntry uni sum last k).name3.length = 4 :=
  ⟨length_field (by omega), length_field (by omega), length_field (by omega)⟩

lemma length_partRecords (uni : List UInt8) (sum : UInt8) (last m : ℕ) :
    (partRecords uni sum last m).length = m := by
  induction m with
  | zero => rfl
  | succ m ih => rw [partRecords, List.length_cons, ih]

/-- The parts are put in front of the entry. -/
lemma writeParts_eq {front hole back : List (List UInt8)} (hlen : data.length = entrySize * max)
    (huni : 26 * m ≤ uni.length) (hm : hole.length = m) (hi : front.length + m = i) (hlt : i < max)
    (hes : entries data 0 max = front ++ hole ++ back) :
    ∃ data', writeParts uni sum last (entrySize * i) m data = some data' ∧
      data'.length = data.length ∧
      entries data' 0 max = front ++ partRecords uni sum last m ++ back := by
  induction m generalizing data front hole with
  | zero =>
    obtain rfl := List.length_eq_zero_iff.mp hm
    exact ⟨data, rfl, rfl, hes⟩
  | succ m ih =>
    obtain ⟨x, hole, rfl⟩ := List.exists_cons_of_length_pos (by omega : 0 < hole.length)
    rw [List.length_cons, Nat.add_right_cancel_iff] at hm
    obtain ⟨h₁, h₂, h₃⟩ := @partEntry_fields uni sum last (m + 1) huni (Nat.succ_pos m)
    have hbytes := length_nameEntry_toBytes h₁ h₂ h₃
    have hoff : entrySize * i - entrySize * (m + 1) = entrySize * front.length := by
      rw [← Nat.mul_sub]
      congr 1
      omega
    have hset := entries_memcpy (i := front.length) hlen (by omega) hbytes
    rw [hes, List.append_assoc, List.set_append_right _ _ le_rfl, Nat.sub_self, List.cons_append,
      List.set_cons_zero] at hset
    have hfit : entrySize * front.length + (partEntry uni sum last (m + 1)).toBytes.length ≤
        data.length := by
      rw [hbytes, hlen, ← Nat.mul_succ]
      exact Nat.mul_le_mul_left _ (by omega)
    obtain ⟨data', hwrite, hlen', hes'⟩ := @ih
      (memcpy data (entrySize * front.length) (partEntry uni sum last (m + 1)).toBytes)
      (front ++ [(partEntry uni sum last (m + 1)).toBytes]) hole
      (by rw [length_memcpy hfit, hlen]) (by omega) hm
      (by rw [List.length_append, List.length_singleton]; omega)
      (by rw [hset]; simp)
    refine ⟨data', ?_, by rw [hlen', length_memcpy hfit], ?_⟩
    · rw [writeParts, if_neg (by omega)]
      dsimp only
      rw [hoff]
      exact hwrite
    · rw [hes', partRecords]
      simp

lemma id_of_partEntry (hk : k < 32) : (partEntry uni sum last k).id.toNat =
    k + if k = last then 0x40 else 0 := by
  have hlast : ∀ k < 32, (UInt8.ofNat k ||| 0x40).toNat = k + 0x40 := by decide
  have hother : ∀ k < 32, (UInt8.ofNat k ||| 0).toNat = k + 0 := by decide
  rw [partEntry]
  split_ifs
  · exact hlast k hk
  · exact hother k hk

/-- The parts are read back as parts of one name. -/
lemma partRecords_run (huni : 26 * last ≤ uni.length) (hlast : last < 32) (hm : m ≤ last) :
    IsRun sum last (partRecords uni sum last m) := by
  induction m with
  | zero => exact trivial
  | succ m ih =>
    obtain ⟨h₁, h₂, h₃⟩ := @partEntry_fields uni sum last (m + 1)
      (by omega) (Nat.succ_pos m)
    refine ⟨length_nameEntry_toBytes h₁ h₂ h₃, ?_, ih (by omega)⟩
    rw [length_partRecords, isPart, nameEntry_ofBytes_toBytes h₁ h₂ h₃, id_of_partEntry (by omega)]
    simp [partEntry, FAT32_IS_LNAME]

lemma field_add (bs : List UInt8) (off a b : ℕ) :
    field bs off a ++ field bs (off + a) b = field bs off (a + b) := by
  rw [field, field, field, ← List.drop_drop, List.take_add]

lemma partBytes_partEntry (h : 26 * k ≤ uni.length) (hk : 0 < k) :
    partBytes (partEntry uni sum last k).toBytes = field uni (26 * (k - 1)) 26 := by
  obtain ⟨h₁, h₂, h₃⟩ := @partEntry_fields uni sum last k h hk
  rw [partBytes, nameEntry_ofBytes_toBytes h₁ h₂ h₃]
  dsimp only [partEntry]
  rw [field_add, field_add]

/-- The bytes of the name that the parts have. -/
lemma partRecords_bytes (h : 26 * m ≤ uni.length) :
    (partRecords uni sum last m).reverse.flatMap partBytes = uni.take (26 * m) := by
  induction m with
  | zero => simp [partRecords]
  | succ m ih =>
    rw [partRecords, List.reverse_cons, List.flatMap_append, ih (by omega), List.flatMap_singleton,
      partBytes_partEntry h (Nat.succ_pos m), Nat.add_sub_cancel, Nat.mul_succ, List.take_add, field]

/-! ## The buffer of a long name -/

/-- A name in ASCII. -/
def IsAscii (name : List UInt8) : Prop := ∀ c ∈ name, c ≠ 0 ∧ c < 0x80

/-- The wide characters of a name. -/
def wideName (name : List UInt8) : List UInt8 := name.flatMap fun c => [c, 0]

variable {name : List UInt8}

lemma length_wideName (name : List UInt8) : (wideName name).length = 2 * name.length := by
  induction name with
  | nil => rfl
  | cons c name ih =>
    rw [wideName, List.flatMap_cons, List.length_append, ← wideName, ih]
    simp
    omega

lemma unicodeEncode_eq (h : IsAscii name) {outputLen inputLen j : ℕ} (hin : name.length ≤ inputLen)
    (hout : j + name.length < outputLen) : unicodeEncode outputLen inputLen j name = name := by
  induction name generalizing inputLen j with
  | nil => cases inputLen <;> rfl
  | cons c name ih =>
    rw [List.length_cons] at hin hout
    obtain ⟨inputLen, rfl⟩ := Nat.exists_eq_add_of_le' (Nat.lt_of_lt_of_le name.length.succ_pos hin)
    rw [unicodeEncode, if_pos (by omega), if_pos (h c List.mem_cons_self).2,
      ih (fun x hx => h x (List.mem_cons_of_mem c hx)) (by omega) (by omega)]

lemma and_of_ascii {c : UInt8} (h : c < 0x80) : c &&& 0x7f = c := by
  rw [← UInt8.toNat_inj, UInt8.toNat_and]
  have hmask : (0x7f : UInt8).toNat = 2 ^ 7 - 1 := rfl
  have hbound : (0x80 : UInt8).toNat = 128 := rfl
  rw [UInt8.lt_iff_toNat_lt, hbound] at h
  rw [hmask, Nat.and_two_pow_sub_one_eq_mod]
  omega

lemma encoded_eq (h : IsAscii name) : (name.flatMap fun c => [c &&& 0x7f, 0]) = wideName name := by
  refine List.flatMap_congr fun c hc => ?_
  rw [and_of_ascii (h c hc).2]

/-- The buffer `uni_name` after a name that fits. -/
def uniBuffer (name : List UInt8) : List UInt8 :=
  wideName name ++ [0, 0] ++ List.replicate (FILE_NAME_LEN - (2 * name.length + 2)) 0xff

lemma length_uniBuffer (h : name.length < 64) : (uniBuffer name).length = FILE_NAME_LEN := by
  have hsize : FILE_NAME_LEN = 128 := rfl
  simp only [uniBuffer, List.length_append, length_wideName, List.length_replicate,
    List.length_cons, List.length_nil]
  omega

lemma uniName_eq (h : IsAscii name) (hlen : name.length < 64) :
    uniName name = some (uniBuffer name, name.length) := by
  have hsize : FILE_NAME_LEN = 128 := rfl
  have hbytes : (wideName name ++ [0, 0]).length = 2 * name.length + 2 := by
    rw [List.length_append, length_wideName]
    rfl
  rw [uniName, unicodeEncode_eq h (by omega) (by omega), encoded_eq h, write_start _ _ (by rw [hbytes, List.length_replicate]; omega), hbytes,
    List.drop_replicate, Option.map_some, uniBuffer]

lemma wideChars_wideName (name : List UInt8) :
    wideChars (wideName name) = name.map UInt8.toNat := by
  induction name with
  | nil => rfl
  | cons c name ih =>
    have hcons : wideName (c :: name) = c :: 0 :: wideName name := rfl
    rw [hcons, wideChars, ih, List.map_cons, UInt8.toNat_zero, Nat.mul_zero, Nat.add_zero]

/-- The name in the buffer, as far as its parts take it. -/
lemma uniBuffer_chars (hm : 2 * name.length + 2 ≤ 26 * m) :
    ∃ rest, wideChars ((uniBuffer name).take (26 * m)) = name.map UInt8.toNat ++ 0 :: rest := by
  have hbytes : (wideName name).length ≤ 26 * m := by
    rw [length_wideName]
    omega
  have htwo : 26 * m - (wideName name).length = (26 * m - (2 * name.length + 2)) + 2 := by
    rw [length_wideName]
    omega
  refine ⟨wideChars ((List.replicate (FILE_NAME_LEN - (2 * name.length + 2)) 0xff).take
    (26 * m - (2 * name.length + 2))), ?_⟩
  rw [uniBuffer, List.append_assoc, List.take_append, List.take_of_length_le hbytes, htwo,
    wideChars_append (by rw [length_wideName]; exact Nat.dvd_mul_right 2 _), wideChars_wideName,
    List.cons_append, List.cons_append, List.take_succ_cons, List.take_succ_cons, wideChars,
    UInt8.toNat_zero]
  rfl

lemma decode_uniBuffer (h : IsAscii name) (hm : 2 * name.length + 2 ≤ 26 * m) :
    decode (wideChars ((uniBuffer name).take (26 * m))) = name := by
  obtain ⟨rest, hrest⟩ := uniBuffer_chars hm
  have hbound : (0x80 : UInt8).toNat = 128 := rfl
  have hne : ∀ w ∈ name.map UInt8.toNat, decide (w ≠ 0) = true := by
    intro w hw
    obtain ⟨c, hc, rfl⟩ := List.mem_map.mp hw
    exact decide_eq_true fun he => (h c hc).1 (UInt8.toNat_inj.mp he)
  have hlt : ∀ w ∈ name.map UInt8.toNat, decide (w < 0x80) = true := by
    intro w hw
    obtain ⟨c, hc, rfl⟩ := List.mem_map.mp hw
    exact decide_eq_true (UInt8.lt_iff_toNat_lt.mp (h c hc).2)
  rw [hrest, decode, List.takeWhile_append_of_pos hne, List.takeWhile_cons_of_neg (by simp),
    List.append_nil, List.filter_eq_self.mpr hlt, List.map_map]
  exact (List.map_congr_left fun c _ => UInt8.ofNat_toNat).trans (List.map_id _)

lemma nameForm_short (h : name.length ≤ 11) : nameForm name = some (none, 1) :=
  if_neg (Nat.not_lt.mpr h)

lemma nameForm_long (h : IsAscii name) (hlong : 11 < name.length) (hlen : name.length < 64) :
    nameForm name = some (some (uniBuffer name), name.length / 13 + 2) := by
  rw [nameForm, if_pos hlong, uniName_eq h hlen, Option.map_some]
  dsimp only
  rw [if_pos (by omega)]

lemma findRoom_spec {nameEntries found j : ℕ} {held es : List (List UInt8)}
    (hheld : ∀ x ∈ held, unused x = true) (hfound : held.length = found)
    (hlt : found < nameEntries) (hle : found ≤ i) (h : findRoom nameEntries i found es = some j) :
    ∃ front hole back, held ++ es = front ++ hole ++ back ∧ hole.length = nameEntries ∧
      (∀ x ∈ hole, unused x = true) ∧ front.length + nameEntries + i = j + 1 + found := by
  induction es generalizing i found held with
  | nil => cases h
  | cons b es ih =>
    rw [findRoom] at h
    split_ifs at h with hb hlast
    · obtain rfl := Option.some.inj h
      refine ⟨[], held ++ [b], es, by simp, by simp [hfound, hlast], fun x hx => ?_, ?_⟩
      · rcases List.mem_append.mp hx with hx | hx
        · exact hheld x hx
        · rwa [List.mem_singleton.mp hx]
      · rw [List.length_nil]
        omega
    · obtain ⟨front, hole, back, heq, hlen, hall, hpos⟩ := @ih (i + 1) (found + 1) (held ++ [b])
        (fun x hx => (List.mem_append.mp hx).elim (hheld x) fun hx => List.mem_singleton.mp hx ▸ hb)
        (by rw [List.length_append, List.length_singleton, hfound]) (by omega) (by omega) h
      exact ⟨front, hole, back, by rw [← heq]; simp, hlen, hall, by omega⟩
    · obtain ⟨front, hole, back, heq, hlen, hall, hpos⟩ := @ih (i + 1) 0 []
        (fun x hx => absurd hx List.not_mem_nil) rfl (by omega) (Nat.zero_le _) h
      refine ⟨held ++ b :: front, hole, back, ?_, hlen, hall, ?_⟩
      · rw [List.nil_append] at heq
        rw [heq]
        simp
      · rw [List.length_append, List.length_cons, hfound]
        omega

/-- The room that is found: unused entries, the last of them number `j`. -/
lemma findRoom_room {nameEntries j : ℕ} {es : List (List UInt8)} (hpos : 0 < nameEntries)
    (h : findRoom nameEntries 0 0 es = some j) :
    ∃ front hole back, es = front ++ hole ++ back ∧ hole.length = nameEntries ∧
      (∀ x ∈ hole, unused x = true) ∧ front.length + nameEntries = j + 1 :=
  @findRoom_spec 0 nameEntries 0 j [] es (fun x hx => absurd hx List.not_mem_nil) rfl hpos le_rfl h

/-! ## The new entries -/

variable {clock : Clock} {fsave : FileEnt} {sname extention : List UInt8}

lemma createEntry_names (clock : Clock) (fsave : FileEnt) (sname extention : List UInt8) :
    (createEntry clock fsave sname extention).name = sname ∧
      (createEntry clock fsave sname extention).extention = extention := by
  rw [createEntry]
  dsimp only
  exact ⟨(settime_fields ..).1, (settime_fields ..).2⟩

/-- The entry of the file. -/
def fileRecord (clock : Clock) (fsave : FileEnt) (sname extention : List UInt8) : List UInt8 :=
  (createEntry clock fsave sname extention).toBytes

/-- The parts of the long name, if there is one. -/
def nameRecords (uni : Option (List UInt8)) (sname extention : List UInt8) (parts : ℕ) :
    List (List UInt8) :=
  uni.elim [] fun uni => partRecords uni (checksum (sname ++ extention)) parts parts

lemma length_fileRecord (hname : sname.length = 8) (hext : extention.length = 3) :
    (fileRecord clock fsave sname extention).length = entrySize :=
  length_toBytes (by rwa [(createEntry_names ..).1]) (by rwa [(createEntry_names ..).2])

/-- The new entries take the place of unused ones. -/
lemma placeEntry_eq {opens : ℕ → List UInt8 → Option Bool} {addr : UInt32}
    {uniOpt : Option (List UInt8)} {parts : ℕ} {front hole back : List (List UInt8)}
    (hshort : buildShortname opens addressSpace fsave.name addr 126 49 = some (sname, extention))
    (hname : sname.length = 8) (hext : extention.length = 3)
    (huni : uniOpt.elim (parts = 0) fun uni => 26 * parts ≤ uni.length)
    (hlen : data.length = entrySize * max) (hes : entries data 0 max = front ++ hole ++ back)
    (hhole : hole.length = parts + 1) (hi : front.length + (parts + 1) = i + 1) :
    ∃ data', placeEntry clock opens fsave addr uniOpt (parts + 1) (entrySize * i) data =
        some data' ∧ data'.length = data.length ∧
      entries data' 0 max = front ++ (nameRecords uniOpt sname extention parts ++
        [fileRecord clock fsave sname extention]) ++ back := by
  have hbytes : (createEntry clock fsave sname extention).toBytes.length = entrySize :=
    length_fileRecord hname hext
  have hlt : i < max := by
    have hcount := congrArg List.length hes
    simp only [length_entries, List.length_append] at hcount
    omega
  have hne : hole ≠ [] := List.ne_nil_of_length_pos (by omega)
  obtain ⟨hole, x, rfl⟩ : ∃ hole' x, hole = hole' ++ [x] :=
    ⟨_, _, (List.dropLast_append_getLast hne).symm⟩
  rw [List.length_append, List.length_singleton, Nat.add_right_cancel_iff] at hhole
  have hset := entries_memcpy hlen hlt hbytes
  have hsplit : front ++ (hole ++ [x]) ++ back = (front ++ hole) ++ x :: back := by simp
  have hpre : (front ++ hole).length = i := by
    rw [List.length_append]
    omega
  rw [hes, hsplit, List.set_append_right _ _ hpre.le, hpre, Nat.sub_self, List.set_cons_zero] at hset
  have hfit : entrySize * i + (createEntry clock fsave sname extention).toBytes.length ≤
      data.length := by
    rw [hbytes, hlen, ← Nat.mul_succ]
    exact Nat.mul_le_mul_left _ hlt
  have hlen' := length_memcpy hfit
  rw [placeEntry, hshort, Option.bind_eq_bind, Option.bind_some]
  cases uniOpt with
  | none =>
    obtain rfl : parts = 0 := huni
    obtain rfl := List.length_eq_zero_iff.mp hhole
    refine ⟨_, rfl, hlen', ?_⟩
    rw [hset]
    simp [nameRecords, fileRecord]
  | some uni =>
    obtain ⟨data', hwrite, hsize, hes'⟩ := @writeParts_eq _ _ _ _ (checksum (sname ++ extention)) parts
      _ _ _ _ (hlen'.trans hlen) huni hhole (by omega) hlt hset
    refine ⟨data', hwrite, hsize.trans hlen', ?_⟩
    rw [hes']
    simp [nameRecords, fileRecord]

end Create

end Sgos.Fat32
