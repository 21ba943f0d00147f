import Sgos.Fat32Lookup

/-!
# Names that a scan puts together

Behind the complete parts of a long name, or behind no parts, the name that is reported of a file
depends on nothing else that the scan has met.
-/
namespace Sgos.Fat32
open ByteBuffer ByteStore

namespace Names
open Scan Lookup

/-! ## The buffer of a name -/

/-- The string in a buffer. -/
def text (m : Store) : List UInt8 := (readBytes m 0 FILE_NAME_LEN).takeWhile (· ≠ 0)

variable {m : Store} {name bs : List UInt8}

lemma takeWhile_append_zero (h : (0 : UInt8) ∉ name) (rest : List UInt8) :
    (name ++ 0 :: rest).takeWhile (· ≠ 0) = name := by
  have hne : ∀ c ∈ name, (decide (c ≠ 0)) = true := fun c hc =>
    decide_eq_true fun he => h (he ▸ hc)
  rw [List.takeWhile_append_of_pos hne]
  simp

/-- A string that was written with its zero. -/
lemma text_writeBytes (h : (0 : UInt8) ∉ name) (hlen : name.length < FILE_NAME_LEN) (m : Store) :
    text (writeBytes m 0 (name ++ [0])) = name := by
  have hsplit := readBytes_append (writeBytes m 0 (name ++ [0])) 0 (name ++ [0]).length
    (FILE_NAME_LEN - (name ++ [0]).length)
  have hlen' : (name ++ [(0 : UInt8)]).length = name.length + 1 := by simp
  rw [readBytes_writeBytes, hlen', Nat.add_sub_cancel' hlen] at hsplit
  rw [text, ← hsplit, List.append_assoc]
  exact takeWhile_append_zero h _

/-- A string that was copied into the buffer. -/
lemma text_strncpy (h : (0 : UInt8) ∉ name) (hlen : name.length ≤ FILE_NAME_LEN) (m : Store) :
    text (writeBytes m 0 (strncpy name FILE_NAME_LEN)) = name := by
  have hcopy : strncpy name FILE_NAME_LEN =
      name ++ List.replicate (FILE_NAME_LEN - name.length) 0 := by
    rw [strncpy, List.take_of_length_le]
    rw [List.length_append, List.length_replicate]
    omega
  have hsize : (strncpy name FILE_NAME_LEN).length = FILE_NAME_LEN := by
    rw [hcopy, List.length_append, List.length_replicate]
    omega
  have hread := readBytes_writeBytes m 0 (strncpy name FILE_NAME_LEN)
  rw [hsize] at hread
  rw [text, hread, hcopy]
  cases FILE_NAME_LEN - name.length with
  | zero =>
    have hne : ∀ c ∈ name, (decide (c ≠ 0)) = true := fun c hc =>
      decide_eq_true fun he => h (he ▸ hc)
    rw [List.replicate_zero, List.append_nil]
    exact List.takeWhile_eq_self_iff.mpr hne
  | succ k => exact takeWhile_append_zero h _

/-! ## Wide characters -/

/-- What `unicode_decode` puts out for some wide characters. -/
def decode (ws : List ℕ) : List UInt8 :=
  ((ws.takeWhile (· ≠ 0)).filter (· < 0x80)).map UInt8.ofNat

lemma zero_not_mem_decode (ws : List ℕ) : (0 : UInt8) ∉ decode ws := by
  intro hmem
  obtain ⟨w, hw, hzero⟩ := List.mem_map.mp hmem
  obtain ⟨hw, hlt⟩ := List.mem_filter.mp hw
  have hne := List.mem_takeWhile_imp hw
  simp only [decide_eq_true_eq] at hne hlt
  have hnat := congrArg UInt8.toNat hzero
  rw [UInt8.toNat_ofNat', UInt8.toNat_zero] at hnat
  omega

lemma length_decode_le (ws : List ℕ) : (decode ws).length ≤ ws.length := by
  rw [decode, List.length_map]
  exact (List.length_filter_le _ _).trans (List.takeWhile_sublist _).length_le

/-- Decoding ends at the first zero. -/
lemma unicodeDecode_eq (input : Store) (outputLen : ℕ) {k fuel i j : ℕ} (hfuel : k ≤ fuel)
    (hout : j + k ≤ outputLen) (hzero : 0 ∈ (List.range k).map fun t => wideChar input (i + t)) :
    unicodeDecode input outputLen fuel i j =
      decode ((List.range k).map fun t => wideChar input (i + t)) := by
  induction k generalizing fuel i j with
  | zero => cases hzero
  | succ k ih =>
    obtain ⟨fuel, rfl⟩ := Nat.exists_eq_add_of_le' (Nat.lt_of_lt_of_le k.succ_pos hfuel)
    have hrange : (List.range (k + 1)).map (fun t => wideChar input (i + t)) =
        wideChar input i :: (List.range k).map fun t => wideChar input (i + 1 + t) := by
      rw [List.range_succ_eq_map, List.map_cons, List.map_map, Nat.add_zero]
      refine congrArg _ (List.map_congr_left fun t _ => ?_)
      rw [Function.comp_apply, Nat.succ_eq_add_one, Nat.add_assoc, Nat.add_comm 1 t]
    rw [hrange] at hzero ⊢
    rw [unicodeDecode]
    by_cases hnull : wideChar input i = 0
    · rw [if_neg fun h => h.1 hnull, decode, List.takeWhile_cons_of_neg (by simp [hnull])]
      rfl
    · have htail := (List.mem_cons.mp hzero).resolve_left (Ne.symm hnull)
      rw [if_pos ⟨hnull, by omega⟩, decode, List.takeWhile_cons_of_pos (by simp [hnull])]
      by_cases hascii : wideChar input i < 0x80
      · rw [if_pos hascii, ih (by omega) (by omega) htail,
          List.filter_cons_of_pos (by simpa using hascii), List.map_cons, decode]
      · rw [if_neg hascii, ih (by omega) (by omega) htail,
          List.filter_cons_of_neg (by simpa using hascii), decode]

lemma length_wideChars (bs : List UInt8) : (wideChars bs).length = bs.length / 2 := by
  fun_induction wideChars bs with
  | case1 a b bs ih =>
    rw [List.length_cons, ih, List.length_cons, List.length_cons]
    omega
  | case2 bs h =>
    rcases bs with _ | ⟨a, _ | ⟨b, bs⟩⟩
    · rfl
    · simp
    · exact absurd rfl (h a b bs)

lemma wideChars_append {as : List UInt8} (h : 2 ∣ as.length) (bs : List UInt8) :
    wideChars (as ++ bs) = wideChars as ++ wideChars bs := by
  fun_induction wideChars as with
  | case1 a b as ih =>
    rw [List.cons_append, List.cons_append, wideChars, ih, List.cons_append]
    rw [List.length_cons, List.length_cons] at h
    omega
  | case2 as has =>
    rcases as with _ | ⟨a, _ | ⟨b, as⟩⟩
    · rfl
    · rw [List.length_singleton] at h
      omega
    · exact absurd rfl (has a b as)

lemma wideChars_getD {bs : List UInt8} {i : ℕ} (hi : i < bs.length / 2) :
    (wideChars bs).getD i 0 = (bs.getD (2 * i) 0).toNat + 256 * (bs.getD (2 * i + 1) 0).toNat := by
  fun_induction wideChars bs generalizing i with
  | case1 a b bs ih =>
    cases i with
    | zero => rfl
    | succ i =>
      rw [List.length_cons, List.length_cons] at hi
      rw [List.getD_cons_succ, ih (by omega), Nat.mul_succ]
      rfl
  | case2 bs h =>
    rcases bs with _ | ⟨a, _ | ⟨b, bs⟩⟩
    · cases hi
    · rw [List.length_singleton] at hi
      omega
    · exact absurd rfl (h a b bs)

/-- The wide characters of bytes that were written. -/
lemma wideChars_writeBytes (m : Store) (bs : List UInt8) :
    (List.range (bs.length / 2)).map (wideChar (writeBytes m 0 bs)) = wideChars bs := by
  apply List.ext_getElem
  · rw [List.length_map, List.length_range, length_wideChars]
  · intro i hi hi'
    rw [List.length_map, List.length_range] at hi
    have hbyte : ∀ x < bs.length, writeBytes m 0 bs x = bs.getD x 0 := fun x hx => by
      have hin := writeBytes_inside m 0 bs hx
      rw [Nat.zero_add] at hin
      rw [hin, List.getD_eq_getElem _ _ hx]
    have hchar := wideChars_getD hi
    rw [List.getD_eq_getElem _ _ hi'] at hchar
    have hread : readBytes (writeBytes m 0 bs) (2 * i) 2 =
        [writeBytes m 0 bs (2 * i), writeBytes m 0 bs (2 * i + 1)] := rfl
    rw [List.getElem_map, List.getElem_range, hchar, wideChar, hread, hbyte _ (by omega),
      hbyte _ (by omega), ofLittleEndian, ofLittleEndian, ofLittleEndian, Nat.mul_zero,
      Nat.add_zero]

/-! ## The parts of a long name -/

/-- The bytes of the name that a part has. -/
def partBytes (b : List UInt8) : List UInt8 :=
  let lne := FAT32_NAME_ENTRY.ofBytes b
  lne.name1 ++ lne.name2 ++ lne.name3

lemma length_partBytes {b : List UInt8} (h : b.length = entrySize) : (partBytes b).length = 26 := by
  have hsize : entrySize = 32 := rfl
  simp only [partBytes, FAT32_NAME_ENTRY.ofBytes, field, List.length_append, List.length_take,
    List.length_drop]
  omega

/-- The parts are copied one behind the other. -/
lemma copyParts_eq {longName : ℕ → List UInt8} {n : ℕ} (i : ℕ) (m : Store)
    (hfit : 26 * (i + n) < FILE_NAME_LEN) (hlen : ∀ k < i + n, (longName k).length = 26) :
    copyParts longName FILE_NAME_LEN n i m = (true, writeBytes m (i * 26)
      ((List.range' i n).flatMap longName)) := by
  induction n generalizing i m with
  | zero => simp [copyParts]
  | succ n ih =>
    have hlast : ¬FILE_NAME_LEN ≤ (i + 1) * 26 := by omega
    have hi := hlen i (by omega)
    rw [copyParts, if_neg hlast, ih (i + 1) _ (by omega) (fun k hk => hlen k (by omega)),
      List.range'_succ, List.flatMap_cons, ← writeBytes_append, hi, Nat.succ_mul]

/-- The name of complete parts that end in a zero. -/
lemma text_buildFilename {longName : ℕ → List UInt8} {n : ℕ} (m : Store)
    (hfit : 26 * n < FILE_NAME_LEN) (hlen : ∀ k < n, (longName k).length = 26)
    (hzero : 0 ∈ wideChars ((List.range n).flatMap longName)) :
    text (fat32BuildFilename m FILE_NAME_LEN longName n) =
      decode (wideChars ((List.range n).flatMap longName)) := by
  have hcopy := copyParts_eq 0 (writeBytes m 0 [0]) (by rwa [Nat.zero_add])
    (fun k hk => hlen k (by rwa [Nat.zero_add] at hk))
  rw [Nat.zero_mul, ← List.range_eq_range'] at hcopy
  have hbytes : ((List.range n).flatMap longName).length = n * 26 := by
    have hconst : (List.range n).map (fun k => (longName k).length) =
        (List.range n).map fun _ => 26 :=
      List.map_congr_left fun k hk => hlen k (List.mem_range.mp hk)
    rw [List.length_flatMap, hconst, List.map_const', List.sum_replicate_nat, List.length_range]
  have hchars := wideChars_writeBytes (writeBytes m 0 [0]) ((List.range n).flatMap longName)
  rw [hbytes] at hchars
  have hdecode := @unicodeDecode_eq (writeBytes (writeBytes m 0 [0]) 0
    ((List.range n).flatMap longName)) FILE_NAME_LEN (n * 26 / 2) (FILE_NAME_LEN - 1) 0 0 (by omega)
    (by omega) (by simpa only [Nat.zero_add, hchars] using hzero)
  simp only [Nat.zero_add, hchars] at hdecode
  rw [fat32BuildFilename, hcopy]
  dsimp only
  rw [hdecode, text_strncpy (zero_not_mem_decode _)]
  refine (length_decode_le _).trans ?_
  rw [length_wideChars, hbytes]
  omega

/-- Parts of a long name of `m` parts, down to the first one. -/
def IsRun (sum : UInt8) (m : ℕ) : List (List UInt8) → Prop
  | [] => True
  | b :: bs => b.length = entrySize ∧ isPart sum m (bs.length + 1) b = true ∧ IsRun sum m bs

variable {sum : UInt8} {n k : ℕ} {b : List UInt8} {ps : List (List UInt8)} {st s : Scan}

lemma ofNat_low : ∀ k < 32, UInt8.ofNat k &&& 0x40 = 0 := by decide

lemma ofNat_last : ∀ k < 32, UInt8.ofNat (k + 0x40) &&& 0x40 ≠ 0 ∧
    (UInt8.ofNat (k + 0x40) &&& 0x1f).toNat = k := by decide

lemma used_of_part (hpart : isPart sum n k b = true) (hk : 0 < k) (hkn : k ≤ n) (hn : n < 32) :
    Fat32.unused b = false := by
  simp only [isPart, Bool.and_eq_true, decide_eq_true_eq] at hpart
  obtain ⟨-, hid⟩ := hpart
  have hfirst : (FAT32_NAME_ENTRY.ofBytes b).id = b.getD 0 0 := rfl
  rw [hfirst] at hid
  rw [Fat32.unused, Bool.or_eq_false_iff, decide_eq_false_iff_not, decide_eq_false_iff_not]
  constructor
  · intro he
    rw [he] at hid
    have hdel : (0xe5 : UInt8).toNat = 229 := rfl
    split_ifs at hid <;> omega
  · intro he
    rw [he, UInt8.toNat_zero] at hid
    omega

lemma attr_of_part (hpart : isPart sum n k b = true) :
    FAT32_IS_LNAME (FAT32_ENTRY.ofBytes b).attrib = true := by
  simp only [isPart, Bool.and_eq_true] at hpart
  exact hpart.1.1

/-- A part of a long name is taken as one. -/
lemma step_part (hpart : isPart sum n k b = true) (hk : 0 < k) (hkn : k ≤ n) (hn : n < 32)
    (st : Scan) : step st b = st.nameEntry (FAT32_NAME_ENTRY.ofBytes b) := by
  rw [step, used_of_part hpart hk hkn hn, if_neg Bool.false_ne_true]
  exact if_pos (attr_of_part hpart)

lemma id_of_part (hpart : isPart sum n k b = true) :
    (FAT32_NAME_ENTRY.ofBytes b).id = UInt8.ofNat (k + if k = n then 0x40 else 0) ∧
      (FAT32_NAME_ENTRY.ofBytes b).checksum = sum := by
  simp only [isPart, Bool.and_eq_true, decide_eq_true_eq] at hpart
  exact ⟨by rw [← hpart.2, UInt8.ofNat_toNat], hpart.1.2⟩

/-- The parts behind the last one are copied. -/
lemma after_rest (hrun : IsRun sum n ps) (hlt : ps.length < n) (hn : n ≤ MAX_LNAME_ENTRIS)
    (hid : st.id = ps.length) (hsum : st.checksum = sum.toNat) :
    ∃ s, after st ps = some s ∧ s.nameEntries = st.nameEntries ∧
      (List.range ps.length).map s.longName = ps.reverse.map partBytes ∧
      ∀ i, ps.length ≤ i → s.longName i = st.longName i := by
  have hmax : MAX_LNAME_ENTRIS = 4 := rfl
  induction ps generalizing st with
  | nil => exact ⟨st, rfl, rfl, rfl, fun i _ => rfl⟩
  | cons b bs ih =>
    obtain ⟨-, hpart, hrun⟩ := hrun
    rw [List.length_cons] at hlt hid
    obtain ⟨hbyte, hcheck⟩ := id_of_part hpart
    rw [if_neg (by omega), Nat.add_zero] at hbyte
    have hnat : (UInt8.ofNat (bs.length + 1)).toNat = bs.length + 1 := by
      rw [UInt8.toNat_ofNat']
      omega
    have hstep : step st b = some { st with
        id := bs.length
        longName := Function.update st.longName bs.length (partBytes b) } := by
      rw [step_part hpart (Nat.succ_pos _) (by omega) (by omega), Scan.nameEntry, hbyte,
        if_neg (fun hne => hne (ofNat_low _ (by omega))), hcheck, hnat, hid, hsum,
        if_neg (by simp), Scan.copyPart]
      have hsub : ((bs.length + 1 : ℕ) : ℤ) - 1 = bs.length := by omega
      simp only [hsub]
      rw [if_pos ⟨by omega, by omega⟩]
      rfl
    obtain ⟨s, hs, hentries, hnames, hrest⟩ := @ih { st with
        id := bs.length
        longName := Function.update st.longName bs.length (partBytes b) } hrun (by omega) rfl hsum
    dsimp only at hrest
    refine ⟨s, by rw [after_cons, hstep]; exact hs, hentries, ?_, fun i hi => ?_⟩
    · rw [List.length_cons, List.range_succ, List.map_append, hnames, List.reverse_cons,
        List.map_append, List.map_singleton, List.map_singleton, hrest _ le_rfl,
        Function.update_self]
    · rw [List.length_cons] at hi
      rw [hrest i (by omega), Function.update_of_ne (by omega)]

/-- The complete parts of a name that is not too long. -/
lemma after_run (hrun : IsRun sum ps.length ps) (hne : ps ≠ [])
    (hfit : ps.length ≤ MAX_LNAME_ENTRIS) (st : Scan) :
    ∃ s, after st ps = some s ∧ s.nameEntries = ps.length ∧
      (List.range ps.length).map s.longName = ps.reverse.map partBytes := by
  have hmax : MAX_LNAME_ENTRIS = 4 := rfl
  obtain ⟨b, bs, rfl⟩ := List.exists_cons_of_ne_nil hne
  obtain ⟨-, hpart, hrun⟩ := hrun
  rw [List.length_cons] at hpart hrun hfit ⊢
  obtain ⟨hbyte, hcheck⟩ := id_of_part hpart
  rw [if_pos rfl] at hbyte
  obtain ⟨hlast, hnum⟩ := ofNat_last (bs.length + 1) (by omega)
  have hstep : step st b = some { st with
      checksum := sum.toNat
      id := bs.length
      nameEntries := bs.length + 1
      longName := Function.update st.longName bs.length (partBytes b) } := by
    rw [step_part hpart (Nat.succ_pos _) le_rfl (by omega), Scan.nameEntry, hbyte, if_pos hlast,
      hcheck, hnum, if_neg (by omega), Scan.copyPart]
    have hsub : ((bs.length + 1 : ℕ) : ℤ) - 1 = bs.length := by omega
    simp only [hsub]
    rw [if_pos ⟨by omega, by omega⟩]
    rfl
  obtain ⟨s, hs, hentries, hnames, hrest⟩ := @after_rest sum (bs.length + 1) bs { st with
      checksum := sum.toNat
      id := bs.length
      nameEntries := bs.length + 1
      longName := Function.update st.longName bs.length (partBytes b) } hrun (Nat.lt_succ_self _)
    hfit rfl rfl
  dsimp only at hrest
  refine ⟨s, by rw [after_cons, hstep]; exact hs, hentries, ?_⟩
  rw [List.range_succ, List.map_append, hnames, List.reverse_cons, List.map_append,
    List.map_singleton, List.map_singleton, hrest _ le_rfl, Function.update_self]

/-- The parts of a name that is too long are passed over. -/
lemma after_skipped (hrun : IsRun sum n ps) (hlt : ps.length < n) (hn : n < 32) (hid : st.id = n) :
    after st ps = some st := by
  induction ps with
  | nil => rfl
  | cons b bs ih =>
    obtain ⟨-, hpart, hrun⟩ := hrun
    rw [List.length_cons] at hlt
    obtain ⟨hbyte, -⟩ := id_of_part hpart
    rw [if_neg (by omega), Nat.add_zero] at hbyte
    have hnat : (UInt8.ofNat (bs.length + 1)).toNat = bs.length + 1 := by
      rw [UInt8.toNat_ofNat']
      omega
    have hstep : step st b = some st := by
      rw [step_part hpart (Nat.succ_pos _) (by omega) hn, Scan.nameEntry, hbyte,
        if_neg (fun hne => hne (ofNat_low _ (by omega))), hnat, hid, if_pos (.inr (by omega))]
    rw [after_cons, hstep, Option.bind_some]
    exact ih hrun (by omega)

lemma after_long (hrun : IsRun sum ps.length ps) (hlong : MAX_LNAME_ENTRIS < ps.length)
    (hlt : ps.length < 32) (st : Scan) : ∃ s, after st ps = some s ∧ s.nameEntries = 0 := by
  obtain ⟨b, bs, rfl⟩ := List.exists_cons_of_length_pos (Nat.zero_lt_of_lt hlong)
  obtain ⟨-, hpart, hrun⟩ := hrun
  rw [List.length_cons] at hpart hrun hlong hlt
  obtain ⟨hbyte, -⟩ := id_of_part hpart
  rw [if_pos rfl] at hbyte
  obtain ⟨hlast, hnum⟩ := ofNat_last (bs.length + 1) hlt
  have hstep : step st b = some { st with
      checksum := (FAT32_NAME_ENTRY.ofBytes b).checksum.toNat
      id := (bs.length + 1 : ℕ)
      nameEntries := 0 } := by
    rw [step_part hpart (Nat.succ_pos _) le_rfl hlt, Scan.nameEntry, hbyte, if_pos hlast, hnum,
      if_pos hlong]
  have hrest := @after_skipped sum (bs.length + 1) bs { st with
      checksum := (FAT32_NAME_ENTRY.ofBytes b).checksum.toNat
      id := (bs.length + 1 : ℕ)
      nameEntries := 0 } hrun (Nat.lt_succ_self _) hlt rfl
  exact ⟨_, by rw [after_cons, hstep]; exact hrest, rfl⟩

/-! ## Files and the parts of their names -/

/-- The parts of the long name of a file, all of them and in order. A name that is short enough to be
read ends in a zero. -/
def IsGroup (ps : List (List UInt8)) : Prop :=
  ps.length < 32 ∧ (∃ sum, IsRun sum ps.length ps) ∧
    (ps ≠ [] → ps.length ≤ MAX_LNAME_ENTRIS → 0 ∈ wideChars (ps.reverse.flatMap partBytes))

/-- The name under which a file is reported that has these parts in front of it. -/
def groupName (ps : List (List UInt8)) (b : List UInt8) : List UInt8 :=
  if ps = [] ∨ MAX_LNAME_ENTRIS < ps.length then fat32GetShortname (FAT32_ENTRY.ofBytes b)
  else decode (wideChars (ps.reverse.flatMap partBytes))

/-- What is reported of an entry under a name. -/
def reportOf (clock : Clock) (name b : List UInt8) : Report :=
  let ff := FAT32_ENTRY.ofBytes b
  { fname := name, size := ff.size, ctime := fat32Gettime clock ff 0
    mtime := fat32Gettime clock ff 1, attr := fileAttr ff.attrib
    cluster := ff.cluster_high.toUInt32 <<< 16 ||| ff.cluster.toUInt32 }

lemma reported_eq (clock : Clock) (s : Scan) (b : List UInt8) :
    reported clock s b = reportOf clock (text (s.fill (FAT32_ENTRY.ofBytes b))) b := rfl

lemma zero_not_mem_unpad (xs : List UInt8) : (0 : UInt8) ∉ unpad xs := by
  intro hmem
  have hne := List.mem_takeWhile_imp hmem
  simp at hne

lemma length_unpad_le (xs : List UInt8) : (unpad xs).length ≤ xs.length :=
  (List.takeWhile_sublist _).length_le

lemma shortname_spec (ff : FAT32_ENTRY) : (0 : UInt8) ∉ fat32GetShortname ff ∧
    (fat32GetShortname ff).length ≤ ff.name.length + ff.extention.length + 1 := by
  have hname := length_unpad_le ff.name
  have hext := length_unpad_le ff.extention
  rw [fat32GetShortname, List.mem_append, not_or, List.length_append]
  refine ⟨⟨zero_not_mem_unpad _, ?_⟩, ?_⟩
  · split_ifs
    · rw [List.mem_cons, not_or]
      exact ⟨by decide, zero_not_mem_unpad _⟩
    · exact List.not_mem_nil
  · split_ifs
    · rw [List.length_cons]
      omega
    · rw [List.length_nil]
      omega

/-- Without parts the short name is put into the buffer. -/
lemma text_fill_short (h : s.nameEntries = 0) (b : List UInt8) :
    text (s.fill (FAT32_ENTRY.ofBytes b)) = fat32GetShortname (FAT32_ENTRY.ofBytes b) := by
  obtain ⟨hzero, hlen⟩ := shortname_spec (FAT32_ENTRY.ofBytes b)
  have hname : (FAT32_ENTRY.ofBytes b).name.length ≤ 8 := List.length_take_le _ _
  have hext : (FAT32_ENTRY.ofBytes b).extention.length ≤ 3 := List.length_take_le _ _
  have hsize : FILE_NAME_LEN = 128 := rfl
  rw [Scan.fill, if_neg (not_not.mpr h)]
  exact text_writeBytes hzero (by omega) _

lemma partBytes_of_run (hrun : IsRun sum n ps) : ∀ b ∈ ps, (partBytes b).length = 26 := by
  induction ps with
  | nil => exact fun b hb => absurd hb List.not_mem_nil
  | cons a bs ih =>
    intro b hb
    rcases List.mem_cons.mp hb with rfl | hb
    · exact length_partBytes hrun.1
    · exact ih hrun.2.2 b hb

/-- Behind the parts of its name a file is reported under it. -/
lemma after_group (h : IsGroup ps) (hst : st.nameEntries = 0) (b : List UInt8) :
    ∃ s, after st ps = some s ∧ text (s.fill (FAT32_ENTRY.ofBytes b)) = groupName ps b := by
  obtain ⟨hlt, ⟨sum, hrun⟩, hzero⟩ := h
  by_cases hne : ps = []
  · subst hne
    exact ⟨st, rfl, (text_fill_short hst b).trans (if_pos (.inl rfl)).symm⟩
  · by_cases hfit : ps.length ≤ MAX_LNAME_ENTRIS
    · obtain ⟨s, hs, hentries, hnames⟩ := after_run hrun hne hfit st
      have hpos := List.length_pos_of_ne_nil hne
      have hmax : MAX_LNAME_ENTRIS = 4 := rfl
      have hsize : FILE_NAME_LEN = 128 := rfl
      have hflat : (List.range ps.length).flatMap s.longName = ps.reverse.flatMap partBytes := by
        rw [List.flatMap_def, hnames, List.flatMap_def]
      have hlen : ∀ k < ps.length, (s.longName k).length = 26 := by
        intro k hk
        have hmem : s.longName k ∈ (List.range ps.length).map s.longName :=
          List.mem_map_of_mem (List.mem_range.mpr hk)
        rw [hnames] at hmem
        obtain ⟨p, hp, heq⟩ := List.mem_map.mp hmem
        rw [← heq]
        exact partBytes_of_run hrun p (List.mem_reverse.mp hp)
      refine ⟨s, hs, ?_⟩
      rw [Scan.fill, if_pos (by omega), hentries,
        text_buildFilename s.fname (by omega) hlen (by rw [hflat]; exact hzero hne hfit), hflat,
        groupName, if_neg (not_or.mpr ⟨hne, by omega⟩)]
    · obtain ⟨s, hs, hnone⟩ := after_long hrun (by omega) hlt st
      exact ⟨s, hs, (text_fill_short hnone b).trans (if_pos (.inr (by omega))).symm⟩

/-! ## What is reported of a directory -/

/-- What an enumerator is given that always asks for the next file. -/
def reports (clock : Clock) : Scan → List (List UInt8) → Option (List Report)
  | _, [] => some []
  | st, b :: bs => do
    let s ← step st b
    let rest ← reports clock s bs
    some (if isFile b then reported clock st b :: rest else rest)

variable {clock : Clock} {as : List (List UInt8)} {l l' : List Report}

lemma reports_cons {r : List Report} (hstep : step st b = some s)
    (h : reports clock s as = some r) : reports clock st (b :: as) =
      some (if isFile b then reported clock st b :: r else r) := by
  rw [reports, hstep, Option.bind_eq_bind, Option.bind_some, h]
  rfl

lemma reports_append (hs : after st as = some s) (h : reports clock st as = some l)
    {as' : List (List UInt8)} (h' : reports clock s as' = some l') :
    reports clock st (as ++ as') = some (l ++ l') := by
  induction as generalizing st l with
  | nil =>
    obtain rfl : st = s := Option.some.inj hs
    obtain rfl : [] = l := Option.some.inj h
    exact h'
  | cons a as ih =>
    rw [after_cons] at hs
    obtain ⟨t, hstep, hs⟩ := Option.bind_eq_some_iff.mp hs
    rw [reports, hstep, Option.bind_eq_bind, Option.bind_some] at h
    obtain ⟨r, hr, h⟩ := Option.bind_eq_some_iff.mp h
    obtain rfl := Option.some.inj h
    rw [List.cons_append, reports_cons hstep (ih hs hr)]
    split_ifs <;> rfl

/-- A scan with an enumerator that wants some files stops at the first one of its reports. -/
lemma wanted_of_reports (want : Report → Bool) (h : reports clock st as = some l) :
    (∃ q b s, as[q]? = some b ∧ after st (as.take q) = some s ∧ Wanted clock want st as q ∧
      (∀ p < q, ¬Wanted clock want st as p) ∧ l.find? want = some (reported clock s b)) ∨
    (∀ q, ¬Wanted clock want st as q) ∧ l.find? want = none := by
  induction as generalizing st l with
  | nil =>
    obtain rfl : [] = l := Option.some.inj h
    exact .inr ⟨fun q hq => absurd hq.lt (Nat.not_lt_zero q), rfl⟩
  | cons a as ih =>
    rw [reports] at h
    obtain ⟨t, hstep, h⟩ := Option.bind_eq_some_iff.mp h
    obtain ⟨r, hr, h⟩ := Option.bind_eq_some_iff.mp h
    obtain rfl := Option.some.inj h
    by_cases hhere : Wanted clock want st (a :: as) 0
    · obtain ⟨hfile, hwant⟩ := wanted_zero.mp hhere
      refine .inl ⟨0, a, st, rfl, rfl, hhere, fun p hp => absurd hp (Nat.not_lt_zero p), ?_⟩
      rw [if_pos hfile, List.find?_cons_of_pos hwant]
    · have hskip : (if isFile a then reported clock st a :: r else r).find? want =
          r.find? want := by
        split_ifs with hfile
        · exact List.find?_cons_of_neg fun hwant => hhere (wanted_zero.mpr ⟨hfile, hwant⟩)
        · rfl
      rw [hskip]
      rcases ih hr with ⟨q, b, s, hb, hs, hq, hfirst, hfind⟩ | ⟨hnone, hfind⟩
      · refine .inl ⟨q + 1, b, s, hb, ?_, (wanted_succ hstep).mpr hq, fun p hp => ?_, hfind⟩
        · rw [List.take_succ_cons, after_cons, hstep]
          exact hs
        · cases p with
          | zero => exact hhere
          | succ p => exact fun hwant => hfirst p (by omega) ((wanted_succ hstep).mp hwant)
      · refine .inr ⟨fun q => ?_, hfind⟩
        cases q with
        | zero => exact hhere
        | succ q => exact fun hwant => hnone q ((wanted_succ hstep).mp hwant)

/-- A directory in which every part of a long name belongs to the file behind it. -/
inductive Tidy : List (List UInt8) → Prop
  | nil : Tidy []
  | unused {b : List UInt8} {bs : List (List UInt8)} (hb : unused b = true) (h : Tidy bs) :
      Tidy (b :: bs)
  | file {ps : List (List UInt8)} {b : List UInt8} {bs : List (List UInt8)} (hps : IsGroup ps)
      (hb : isFile b = true) (h : Tidy bs) : Tidy (ps ++ b :: bs)

lemma step_unused (hb : Fat32.unused b = true) (st : Scan) : step st b = some st := if_pos hb

lemma step_file (hb : isFile b = true) (st : Scan) : step st b =
    some { st with fname := st.fill (FAT32_ENTRY.ofBytes b), nameEntries := 0 } := by
  simp only [isFile, Bool.and_eq_true, Bool.not_eq_true'] at hb
  rw [step, hb.1, hb.2]
  rfl

lemma not_isFile_of_run (hrun : IsRun sum n ps) : ∀ b ∈ ps, isFile b = false := by
  induction ps with
  | nil => exact fun b hb => absurd hb List.not_mem_nil
  | cons a bs ih =>
    intro b hb
    rcases List.mem_cons.mp hb with rfl | hb
    · rw [isFile, attr_of_part hrun.2.1, Bool.not_true, Bool.and_false]
    · exact ih hrun.2.2 b hb

lemma used_of_run (hrun : IsRun sum n ps) (hle : ps.length ≤ n) (hn : n < 32) :
    ∀ b ∈ ps, Fat32.unused b = false := by
  induction ps with
  | nil => exact fun b hb => absurd hb List.not_mem_nil
  | cons a bs ih =>
    rw [List.length_cons] at hle
    intro b hb
    rcases List.mem_cons.mp hb with rfl | hb
    · exact used_of_part hrun.2.1 (Nat.succ_pos _) hle hn
    · exact ih hrun.2.2 (by omega) b hb

/-- Where there is no file nothing is reported. -/
lemma reports_parts (hfile : ∀ b ∈ as, isFile b = false) (hs : after st as = some s) :
    reports clock st as = some [] := by
  induction as generalizing st with
  | nil => rfl
  | cons a as ih =>
    rw [after_cons] at hs
    obtain ⟨t, hstep, hs⟩ := Option.bind_eq_some_iff.mp hs
    rw [reports_cons hstep (ih (fun b hb => hfile b (List.mem_cons_of_mem a hb)) hs),
      hfile a List.mem_cons_self]
    rfl

/-- A file is reported under the name that the parts in front of it have. -/
lemma reports_group (h : IsGroup ps) (hb : isFile b = true) (hst : st.nameEntries = 0)
    (clock : Clock) : reports clock st (ps ++ [b]) = some [reportOf clock (groupName ps b) b] ∧
      ∃ s, after st (ps ++ [b]) = some s ∧ s.nameEntries = 0 := by
  obtain ⟨s, hs, htext⟩ := after_group h hst b
  obtain ⟨-, ⟨sum, hrun⟩, -⟩ := h
  have hone : reports clock s [b] = some [reportOf clock (groupName ps b) b] := by
    rw [reports_cons (step_file hb s) rfl, if_pos hb, reported_eq, htext]
  refine ⟨?_, { s with fname := s.fill (FAT32_ENTRY.ofBytes b), nameEntries := 0 }, ?_, rfl⟩
  · rw [reports_append hs (reports_parts (not_isFile_of_run hrun) hs) hone]
    rfl
  · rw [after_append, hs, Option.bind_some, after_cons, step_file hb]
    rfl

/-- What is reported of a tidy directory does not depend on what was scanned before. -/
lemma Tidy.reports (h : Tidy as) (clock : Clock) : ∃ l, ∀ st : Scan, st.nameEntries = 0 →
    Names.reports clock st as = some l ∧ ∃ s, after st as = some s ∧ s.nameEntries = 0 := by
  induction h with
  | nil => exact ⟨[], fun st hst => ⟨rfl, st, rfl, hst⟩⟩
  | @unused b bs hb _ ih =>
    obtain ⟨l, hl⟩ := ih
    refine ⟨l, fun st hst => ?_⟩
    have hfile : isFile b = false := by rw [isFile, hb, Bool.not_true, Bool.false_and]
    obtain ⟨hrep, s, hs, hzero⟩ := hl st hst
    refine ⟨by rw [reports_cons (step_unused hb st) hrep, hfile]; rfl, s, ?_, hzero⟩
    rw [after_cons, step_unused hb]
    exact hs
  | @file ps b bs hps hb _ ih =>
    obtain ⟨l, hl⟩ := ih
    refine ⟨reportOf clock (groupName ps b) b :: l, fun st hst => ?_⟩
    obtain ⟨hgroup, s, hs, hzero⟩ := reports_group hps hb hst clock
    obtain ⟨hrep, s', hs', hzero'⟩ := hl s hzero
    rw [← List.singleton_append, ← List.append_assoc]
    refine ⟨?_, s', ?_, hzero'⟩
    · rw [reports_append hs hgroup hrep]
      rfl
    · rw [after_append, hs]
      exact hs'

lemma Tidy.append (h : Tidy as) {as' : List (List UInt8)} (h' : Tidy as') : Tidy (as ++ as') := by
  induction h with
  | nil => exact h'
  | unused hb _ ih => exact .unused hb ih
  | file hps hb _ ih =>
    rw [List.append_assoc]
    exact .file hps hb ih

/-- An unused entry divides a tidy directory. -/
lemma Tidy.split {as' : List (List UInt8)} (h : Tidy (as ++ b :: as')) (hb : Fat32.unused b = true) :
    Tidy as ∧ Tidy as' := by
  generalize heq : as ++ b :: as' = rs at h
  induction h generalizing as with
  | nil => exact absurd heq (by simp)
  | @unused a bs ha hbs ih =>
    cases as with
    | nil =>
      obtain ⟨-, rfl⟩ := List.cons.inj heq
      exact ⟨.nil, hbs⟩
    | cons x as =>
      obtain ⟨rfl, htail⟩ := List.cons.inj heq
      exact ⟨.unused ha (ih htail).1, (ih htail).2⟩
  | @file ps a bs hps ha hbs ih =>
    -- the entry is none of the group, so it is behind it
    have hused : ∀ x ∈ ps ++ [a], Fat32.unused x = false := by
      intro x hx
      rcases List.mem_append.mp hx with hx | hx
      · obtain ⟨hlt, ⟨sum, hrun⟩, -⟩ := hps
        exact used_of_run hrun le_rfl hlt x hx
      · simp only [isFile, Bool.and_eq_true, Bool.not_eq_true'] at ha
        rw [List.mem_singleton.mp hx, ha.1]
    rw [← List.singleton_append (l := bs), ← List.append_assoc] at heq
    obtain ⟨mid, has, hmid⟩ | ⟨mid, hpre, hmid⟩ := List.append_eq_append_iff.mp heq
    · cases mid with
      | nil =>
        rw [List.nil_append] at hmid
        rw [List.append_nil] at has
        subst hmid
        rw [← has]
        obtain ⟨-, hrest⟩ := @ih [] rfl
        exact ⟨has ▸ .file hps ha .nil, hrest⟩
      | cons x mid =>
        obtain ⟨rfl, hmid⟩ := List.cons.inj hmid
        have hno := hused b (by rw [has]; simp)
        rw [hb] at hno
        cases hno
    · obtain ⟨hpre', hrest⟩ := ih hmid.symm
      subst hpre
      rw [List.append_assoc, List.singleton_append]
      exact ⟨.file hps ha hpre', hrest⟩

lemma after_of_reports (h : reports clock st as = some l) : ∃ s, after st as = some s := by
  induction as generalizing st l with
  | nil => exact ⟨st, rfl⟩
  | cons a as ih =>
    rw [Names.reports] at h
    obtain ⟨t, hstep, h⟩ := Option.bind_eq_some_iff.mp h
    obtain ⟨r, hr, -⟩ := Option.bind_eq_some_iff.mp h
    obtain ⟨s, hs⟩ := ih hr
    exact ⟨s, by rw [after_cons, hstep]; exact hs⟩

/-- The reports are what `fat32_enum_ent` gives to an enumerator: one that wants some files gets the
first of them. -/
theorem enumEnt_reports {dev : Fat32Dev} {n : ℕ} {d : Store} {parent : File} {cs : List UInt32}
    (h : Directory dev n d parent cs) {stack : Stack} (f : FileEnt) (want : Report → Bool)
    (hl : reports clock (start stack) (records dev d cs) = some l) :
    fat32EnumEnt dev clock d { parent with pos := 0 } stack (answer want 1) f =
      some ((l.find? want).elim (-1, none, d) fun rep => (1, some rep, d)) := by
  obtain ⟨e, hfollow, hend⟩ := h.chain
  rw [enumEnt_eq]
  rcases wanted_of_reports want hl with
    ⟨q, b, s, hb, hs, hq, hfirst, hfind⟩ | ⟨hnone, hfind⟩
  · obtain ⟨c, -, hloop⟩ := enumLoop_found (.inl rfl) (maxEntries_pos h.proper) hfollow
      h.inuse (nodup_length_le h.nodup) hb hs hq hfirst
    rw [hloop, hfind]
    rfl
  · obtain ⟨s, hs⟩ := after_of_reports hl
    rw [enumLoop_end 1 hfollow h.inuse (not_inuse_of_end hend) h.nonempty (nodup_length_le h.nodup)
      hnone, hs, hfind]
    rfl

/-! ## An empty directory -/

lemma empty_directory : Directory smallDev 4 smallStore fooDir [2] where
  proper := @fat32Init_proper smallDev 4 smallBoot rfl rfl (by decide) (by decide) (by decide)
    (by decide) (by decide) (by decide)
  chain := by
    have hnext : nextclu smallDev smallStore 2 = 0x0fffffff := by decide +kernel
    exact ⟨0x0fffffff, ⟨rfl, hnext⟩, rfl⟩
  clusters c hc := by
    obtain rfl := List.mem_singleton.mp hc
    exact ⟨by decide, by decide⟩
  nodup := by simp
  nonempty := by simp

lemma tidy_of_unused (h : ∀ b ∈ as, Fat32.unused b = true) : Tidy as := by
  induction as with
  | nil => exact .nil
  | cons b as ih =>
    exact .unused (h b List.mem_cons_self) (ih fun x hx => h x (List.mem_cons_of_mem b hx))

lemma isGroup_nil : IsGroup [] := ⟨by decide, ⟨0, trivial⟩, fun h => absurd rfl h⟩

lemma empty_tidy : Tidy (records smallDev smallStore [2]) := by
  have hall : (records smallDev smallStore [2]).all Fat32.unused = true := by decide +kernel
  exact tidy_of_unused (List.all_eq_true.mp hall)

end Names

end Sgos.Fat32
