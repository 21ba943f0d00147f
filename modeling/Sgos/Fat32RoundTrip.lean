import Mathlib.Data.Multiset.AddSub
import Sgos.Fat32ShortNames

/-!
# A created entry is found again

`fat32_create_ent` writes a name in one of two forms, and `fat32_enum_ent` reads it back as it was
only if it fits the form. What is reported of the other files of a tidy directory stays.
-/
namespace Sgos.Fat32
open ByteBuffer ByteStore

namespace RoundTrip
open Scan Lookup Names Create ShortNames

variable {dev : Fat32Dev} {n : ℕ} {clock : Clock} {d : Store} {cs : List UInt32} {parent f : File}
  {fsave : FileEnt} {addr : UInt32} {c e x : UInt32} {data : List UInt8}

/-! ## The cluster that is written -/

/-- The first cluster with room for the entries is taken. -/
lemma createLoop_room {opens : Store → ℕ → List UInt8 → Option Bool} {uni : Option (List UInt8)}
    {k fuel : ℕ} (hfollow : Follows (nextclu dev d) c cs e) (huse : ∀ x ∈ cs, IS_FAT32CLU_INUSE x)
    (hroom : ∃ x ∈ cs,
      (findRoom k 0 0 (entries (readclu dev d x) 0 (maxEntries dev))).isSome = true)
    (hfuel : cs.length ≤ fuel) :
    ∃ pre x post i, cs = pre ++ x :: post ∧
      findRoom k 0 0 (entries (readclu dev d x) 0 (maxEntries dev)) = some i ∧
      createLoop dev clock opens f fsave addr uni k fuel d c 0 (readclu dev d c) =
        (placeEntry clock (opens d) fsave addr uni k (entrySize * i) (readclu dev d x)).map
          fun data => (0, writeclu dev d x data) := by
  induction cs generalizing c fuel with
  | nil =>
    obtain ⟨x, hx, -⟩ := hroom
    cases hx
  | cons y cs ih =>
    obtain ⟨rfl, hnext⟩ := hfollow
    obtain ⟨fuel, rfl⟩ := Nat.exists_eq_add_of_le' (Nat.lt_of_lt_of_le cs.length.succ_pos hfuel)
    rw [List.length_cons, Nat.add_le_add_iff_right] at hfuel
    rw [maxEntries] at hroom ih ⊢
    rw [createLoop]
    cases hhere : findRoom k 0 0 (entries (readclu dev d c) 0
        (dev.bytPerClu.toNat / entrySize)) with
    | some i =>
      refine ⟨[], c, cs, i, rfl, hhere, ?_⟩
      dsimp only
      rw [Nat.zero_add]
      cases placeEntry clock (opens d) fsave addr uni k (entrySize * i) (readclu dev d c) <;> rfl
    | none =>
      obtain ⟨x, hx, hsome⟩ := hroom
      have hmem : x ∈ cs := by
        rcases List.mem_cons.mp hx with rfl | hx
        · rw [hhere] at hsome
          cases hsome
        · exact hx
      have hinuse : IS_FAT32CLU_INUSE (nextclu dev d c) = true := by
        cases cs with
        | nil => cases hmem
        | cons z zs => exact hnext.1 ▸ huse z (by simp)
      obtain ⟨pre, x', post, i, rfl, hi, hloop⟩ := ih hnext
        (fun y hy => huse y (List.mem_cons_of_mem c hy)) ⟨x, hmem, hsome⟩ hfuel
      refine ⟨c :: pre, x', post, i, rfl, hi, ?_⟩
      simp only [hinuse, if_true]
      exact hloop

namespace Written

variable {pre post : List UInt32}

lemma records_split (dev : Fat32Dev) (d : Store) (pre : List UInt32) (x : UInt32)
    (post : List UInt32) : records dev d (pre ++ x :: post) = records dev d pre ++
      entries (readclu dev d x) 0 (maxEntries dev) ++ records dev d post := by
  rw [records, List.flatMap_append, List.flatMap_cons, ← List.append_assoc]
  rfl

lemma records_congr {d' : Store} (h : ∀ c ∈ cs, readclu dev d' c = readclu dev d c) :
    records dev d' cs = records dev d cs :=
  List.flatMap_congr fun c hc => by rw [h c hc]

/-- A cluster of a directory is written: its entries change and no others. -/
lemma records_writeclu (h : Directory dev n d parent (pre ++ x :: post))
    (hlen : data.length = dev.bytPerClu.toNat) :
    records dev (writeclu dev d x data) (pre ++ x :: post) = records dev d pre ++
      entries data 0 (maxEntries dev) ++ records dev d post := by
  have hx := h.clusters x (by simp)
  have hnodup := List.nodup_middle.mp h.nodup
  rw [List.nodup_cons] at hnodup
  have hsame : ∀ c ∈ pre ++ post, readclu dev (writeclu dev d x data) c = readclu dev d c := by
    intro c hc
    have hmem : c ∈ pre ++ x :: post := by
      rcases List.mem_append.mp hc with hc | hc
      · exact List.mem_append_left _ hc
      · exact List.mem_append_right _ (List.mem_cons_of_mem x hc)
    exact h.proper.readclu_writeclu_of_ne d hx (h.clusters c hmem)
      (fun he => hnodup.1 (he ▸ hc)) hlen
  rw [records_split, records_congr fun c hc => hsame c (List.mem_append_left _ hc),
    records_congr fun c hc => hsame c (List.mem_append_right _ hc), h.proper.readclu_writeclu d hx hlen]

variable {front mid back : List (List UInt8)}

/-- The entries of a directory around some entries of one cluster. -/
lemma records_around (pre post : List UInt32)
    (hes : entries (readclu dev d x) 0 (maxEntries dev) = front ++ mid ++ back) :
    records dev d (pre ++ x :: post) =
      (records dev d pre ++ front) ++ mid ++ (back ++ records dev d post) := by
  rw [records_split, hes]
  simp only [List.append_assoc]

lemma records_around_writeclu (h : Directory dev n d parent (pre ++ x :: post))
    (hlen : data.length = dev.bytPerClu.toNat)
    (hes : entries data 0 (maxEntries dev) = front ++ mid ++ back) :
    records dev (writeclu dev d x data) (pre ++ x :: post) =
      (records dev d pre ++ front) ++ mid ++ (back ++ records dev d post) := by
  rw [records_writeclu h hlen, hes]
  simp only [List.append_assoc]

/-- It still is a directory of these clusters. -/
lemma directory (h : Directory dev n d parent (pre ++ x :: post))
    (hlen : data.length = dev.bytPerClu.toNat) :
    Directory dev n (writeclu dev d x data) parent (pre ++ x :: post) where
  proper := h.proper
  chain := by
    obtain ⟨b, hfollow, hend⟩ := h.chain
    exact ⟨b, hfollow.congr fun c hc => h.proper.nextclu_writeclu d (h.clusters x (by simp))
      (h.clusters c hc).2 hlen, hend⟩
  clusters := h.clusters
  nodup := h.nodup
  nonempty := h.nonempty

end Written

/-! ## The new file -/

variable {name sname extention : List UInt8}

/-- A file to be created that is a directory. -/
def isDir (fsave : FileEnt) : Bool := fsave.attrib &&& FILE_ATTR_DIR ≠ 0

lemma flags_eq (a : UInt32) :
    (if a &&& FILE_ATTR_RDONLY ≠ 0 then FILE_ATTR_RDONLY else 0) |||
      (if a &&& FILE_ATTR_SYSTEM ≠ 0 then FILE_ATTR_SYSTEM else 0) |||
      (if a &&& FILE_ATTR_DIR ≠ 0 then FILE_ATTR_DIR else 0) |||
      (if a &&& FILE_ATTR_HIDDEN ≠ 0 then FILE_ATTR_HIDDEN else 0) = a &&& 0xf := by
  have hlow : ∀ k < 16, (if UInt32.ofNat k &&& FILE_ATTR_RDONLY ≠ 0 then FILE_ATTR_RDONLY else 0) |||
      (if UInt32.ofNat k &&& FILE_ATTR_SYSTEM ≠ 0 then FILE_ATTR_SYSTEM else 0) |||
      (if UInt32.ofNat k &&& FILE_ATTR_DIR ≠ 0 then FILE_ATTR_DIR else 0) |||
      (if UInt32.ofNat k &&& FILE_ATTR_HIDDEN ≠ 0 then FILE_ATTR_HIDDEN else 0) =
        UInt32.ofNat k := by
    decide +kernel
  have hbound : (a &&& 0xf).toNat < 16 := by
    have hmask : (0xf : UInt32).toNat = 2 ^ 4 - 1 := rfl
    rw [UInt32.toNat_and, hmask, Nat.and_two_pow_sub_one_eq_mod]
    exact Nat.mod_lt _ (by decide)
  have hmask : ∀ b : UInt32, (0xf : UInt32) &&& b = b → a &&& 0xf &&& b = a &&& b := fun b hb => by
    rw [UInt32.and_assoc, hb]
  have hk := hlow _ hbound
  rw [UInt32.ofNat_toNat, hmask _ rfl, hmask _ rfl, hmask _ rfl, hmask _ rfl] at hk
  exact hk

lemma flags_read : ∀ r s e h : Bool,
    FAT32_IS_LNAME ((if r = true then RDONLY else 0) ||| (if s = true then SYSTEM else 0) |||
      (if e = true then SUBDIR else 0) ||| (if h = true then HIDDEN else 0)) = false ∧
    fileAttr ((if r = true then RDONLY else 0) ||| (if s = true then SYSTEM else 0) |||
      (if e = true then SUBDIR else 0) ||| (if h = true then HIDDEN else 0)) =
      (if r = true then FILE_ATTR_RDONLY else 0) ||| (if s = true then FILE_ATTR_SYSTEM else 0) |||
      (if e = true then FILE_ATTR_DIR else 0) ||| (if h = true then FILE_ATTR_HIDDEN else 0) ∧
    (((if r = true then RDONLY else 0) ||| (if s = true then SYSTEM else 0) |||
      (if e = true then SUBDIR else 0) ||| (if h = true then HIDDEN else 0)) &&& SUBDIR = 0 ↔
      e = false) := by
  decide +kernel

/-- The attributes of the entry are read back. -/
lemma createEntry_attrib (clock : Clock) (fsave : FileEnt) (sname extention : List UInt8) :
    FAT32_IS_LNAME (createEntry clock fsave sname extention).attrib = false ∧
      fileAttr (createEntry clock fsave sname extention).attrib = fsave.attrib &&& 0xf ∧
      ((createEntry clock fsave sname extention).attrib &&& SUBDIR = 0 ↔ isDir fsave = false) := by
  have hattrib : (createEntry clock fsave sname extention).attrib =
      (if fsave.attrib &&& FILE_ATTR_RDONLY ≠ 0 then RDONLY else 0) |||
      (if fsave.attrib &&& FILE_ATTR_SYSTEM ≠ 0 then SYSTEM else 0) |||
      (if fsave.attrib &&& FILE_ATTR_DIR ≠ 0 then SUBDIR else 0) |||
      (if fsave.attrib &&& FILE_ATTR_HIDDEN ≠ 0 then HIDDEN else 0) := rfl
  have hread := flags_read (decide (fsave.attrib &&& FILE_ATTR_RDONLY ≠ 0))
    (decide (fsave.attrib &&& FILE_ATTR_SYSTEM ≠ 0)) (decide (fsave.attrib &&& FILE_ATTR_DIR ≠ 0))
    (decide (fsave.attrib &&& FILE_ATTR_HIDDEN ≠ 0))
  simp only [decide_eq_true_eq] at hread
  rw [hattrib, ← flags_eq]
  exact hread

/-- The two halves of a cluster number. -/
lemma cluster_eq (x : UInt32) :
    (x >>> 16).toUInt16.toUInt32 <<< 16 ||| x.toUInt16.toUInt32 = x := by
  have hx := x.toNat_lt
  have hshift : (16 : UInt32).toNat % 32 = 16 := rfl
  have hhigh : (x >>> 16).toUInt16.toUInt32.toNat = x.toNat / 2 ^ 16 := by
    rw [UInt16.toNat_toUInt32, UInt32.toNat_toUInt16, UInt32.toNat_shiftRight, hshift,
      Nat.shiftRight_eq_div_pow]
    omega
  have hlow : x.toUInt16.toUInt32.toNat = x.toNat % 2 ^ 16 := by
    rw [UInt16.toNat_toUInt32, UInt32.toNat_toUInt16]
  have hlt : x.toNat % 2 ^ 16 < 2 ^ 16 := Nat.mod_lt _ (by decide)
  have hmul : (x.toNat / 2 ^ 16) <<< 16 % 2 ^ 32 = (x.toNat / 2 ^ 16) <<< 16 := by
    rw [Nat.shiftLeft_eq]
    omega
  rw [← UInt32.toNat_inj, UInt32.toNat_or, UInt32.toNat_shiftLeft, hhigh, hlow, hshift, hmul,
    ← Nat.shiftLeft_add_eq_or_of_lt hlt, Nat.shiftLeft_eq]
  omega

lemma ofBytes_fileRecord (clock : Clock) (fsave : FileEnt) (hname : sname.length = 8)
    (hext : extention.length = 3) :
    FAT32_ENTRY.ofBytes (fileRecord clock fsave sname extention) =
      createEntry clock fsave sname extention :=
  ofBytes_toBytes (by rwa [(createEntry_names ..).1]) (by rwa [(createEntry_names ..).2])

/-- The new entry is one of a file. -/
lemma isFile_fileRecord (clock : Clock) (fsave : FileEnt) (hname : sname.length = 8)
    (hext : extention.length = 3) (hfirst : sname.getD 0 0 ≠ 0 ∧ sname.getD 0 0 ≠ 0xe5) :
    isFile (fileRecord clock fsave sname extention) = true := by
  have hbyte : (fileRecord clock fsave sname extention).getD 0 0 = sname.getD 0 0 := by
    rw [fileRecord, FAT32_ENTRY.toBytes, (createEntry_names ..).1]
    simp only [List.append_assoc]
    exact List.getD_append _ _ _ _ (by omega)
  rw [isFile, ofBytes_fileRecord clock fsave hname hext, (createEntry_attrib ..).1, unused, hbyte,
    decide_eq_false hfirst.1, decide_eq_false hfirst.2]
  rfl

/-- What is reported of the new entry. -/
lemma reportOf_fileRecord (clock : Clock) (fsave : FileEnt) (hname : sname.length = 8)
    (hext : extention.length = 3) (name : List UInt8) :
    (reportOf clock name (fileRecord clock fsave sname extention)).cluster = fsave.data ∧
      (reportOf clock name (fileRecord clock fsave sname extention)).size = fsave.size ∧
      (reportOf clock name (fileRecord clock fsave sname extention)).attr =
        fsave.attrib &&& 0xf := by
  rw [reportOf, ofBytes_fileRecord clock fsave hname hext]
  exact ⟨cluster_eq fsave.data, rfl, (createEntry_attrib clock fsave sname extention).2.1⟩

lemma shortname_fileRecord (clock : Clock) (fsave : FileEnt) (hname : sname.length = 8)
    (hext : extention.length = 3) :
    fat32GetShortname (FAT32_ENTRY.ofBytes (fileRecord clock fsave sname extention)) =
      shown (isDir fsave) sname extention := by
  obtain ⟨-, -, hdir⟩ := createEntry_attrib clock fsave sname extention
  rw [ofBytes_fileRecord clock fsave hname hext, fat32GetShortname, (createEntry_names ..).1,
    (createEntry_names ..).2, shown]
  cases hcase : isDir fsave with
  | false => rw [if_pos (hdir.mpr hcase), if_neg Bool.false_ne_true]
  | true =>
    have hsub : ¬(createEntry clock fsave sname extention).attrib &&& SUBDIR = 0 := fun hzero =>
      Bool.false_ne_true ((hdir.mp hzero).symm.trans hcase)
    rw [if_neg hsub, if_pos rfl]

/-! ## The reports after an insertion -/

variable {front hole back ps : List (List UInt8)} {b : List UInt8}

lemma Tidy.of_hole (hhole : ∀ x ∈ hole, unused x = true) (h : Tidy (hole ++ back)) : Tidy back := by
  induction hole with
  | nil => exact h
  | cons x hole ih =>
    have hsplit := @Tidy.split x [] (hole ++ back) h (hhole x List.mem_cons_self)
    exact ih (fun y hy => hhole y (List.mem_cons_of_mem x hy)) hsplit.2

lemma after_hole (hhole : ∀ x ∈ hole, unused x = true) (st : Scan) : after st hole = some st := by
  induction hole with
  | nil => rfl
  | cons x hole ih =>
    rw [after_cons, step_unused (hhole x List.mem_cons_self), Option.bind_some]
    exact ih fun y hy => hhole y (List.mem_cons_of_mem x hy)

/-- A file that takes unused entries of a tidy directory is reported between the others. -/
lemma reports_insert (clock : Clock) (htidy : Tidy (front ++ hole ++ back)) (hne : hole ≠ [])
    (hhole : ∀ x ∈ hole, unused x = true) (hps : IsGroup ps) (hb : isFile b = true) :
    ∃ l₁ l₂, ∀ st : Scan, st.nameEntries = 0 →
      reports clock st (front ++ hole ++ back) = some (l₁ ++ l₂) ∧
      reports clock st (front ++ (ps ++ [b]) ++ back) =
        some (l₁ ++ reportOf clock (groupName ps b) b :: l₂) := by
  obtain ⟨x, hole', rfl⟩ := List.exists_cons_of_ne_nil hne
  rw [List.append_assoc, List.cons_append] at htidy
  obtain ⟨hfront, hrest⟩ := htidy.split (hhole x List.mem_cons_self)
  have hback := Tidy.of_hole (fun y hy => hhole y (List.mem_cons_of_mem x hy)) hrest
  obtain ⟨l₁, hl₁⟩ := hfront.reports clock
  obtain ⟨l₂, hl₂⟩ := hback.reports clock
  refine ⟨l₁, l₂, fun st hst => ?_⟩
  obtain ⟨hrep, s, hs, hzero⟩ := hl₁ st hst
  constructor
  · have hnone : reports clock s (x :: hole') = some [] :=
      reports_parts (fun y hy => by rw [isFile, hhole y hy]; rfl) (after_hole hhole s)
    have hmid := reports_append (after_hole hhole s) hnone (hl₂ s hzero).1
    rw [List.nil_append] at hmid
    rw [List.append_assoc]
    exact reports_append hs hrep hmid
  · obtain ⟨hone, s', hs', hzero'⟩ := reports_group hps hb hzero clock
    rw [List.append_assoc]
    exact reports_append hs hrep (reports_append hs' hone (hl₂ s' hzero').1)

/-! ## Creating and reading -/

/-- The entries that a name takes. -/
def entryCount (name : List UInt8) : ℕ := if 11 < name.length then name.length / 13 + 2 else 1

section Volume
variable (dev : Fat32Dev) (clock : Clock) (d : Store) (parent : File) (cs : List UInt32)
  (stack : ℕ → Stack) (fsave : FileEnt) (addr : UInt32)

/-- A cluster of the directory has room for the entries of the file. -/
def Room : Prop :=
  ∃ c ∈ cs, (findRoom (entryCount fsave.name) 0 0
    (entries (readclu dev d c) 0 (maxEntries dev))).isSome = true

/-- Whether `fat32_open` finds a file by a short name that is tried. -/
def opened (fuel : ℕ) (s : List UInt8) : Option Bool :=
  (openExisting dev clock d parent (stack fuel) { fsave with flag := 0 } s).map fun r =>
    decide (r.1 = 0)

/-- The search for a short name that opens no file ends. -/
def Searched : Prop :=
  (buildShortname (opened dev clock d parent stack fsave) addressSpace fsave.name addr 126
    49).isSome = true

/-- The reports of the directory are as before, with the one of the new file among them. -/
def Reported (d' : Store) : Prop :=
  ∀ st st' : Stack, ∃ l₁ l₂ rep, reports clock (start st) (records dev d cs) = some (l₁ ++ l₂) ∧
    reports clock (start st') (records dev d' cs) = some (l₁ ++ rep :: l₂) ∧
    SameName rep.fname fsave.name ∧ rep.cluster = fsave.data ∧ rep.size = fsave.size ∧
    rep.attr = fsave.attrib &&& 0xf

/-- The name is encoded inside its buffer. The call returns, inside the buffers, if a short name is
found. If it returns 0, the new file is reported. -/
structure RoundTrips : Prop where
  encoded : (nameForm fsave.name).isSome = true
  returns : Searched dev clock d parent stack fsave addr →
    (fat32CreateEnt dev clock d parent stack fsave addr).isSome = true
  reported : ∀ d', fat32CreateEnt dev clock d parent stack fsave addr = some (0, d') →
    Reported dev clock d cs fsave d'

end Volume

variable {stack : ℕ → Stack} {l : List Report} {uni : Option (List UInt8)} {parts : ℕ}

/-- On a tidy directory it does not matter what the locals of the searches hold. -/
lemma opened_eq (h : Directory dev n d parent cs)
    (hl : ∀ st : Scan, st.nameEntries = 0 → reports clock st (records dev d cs) = some l)
    (fuel : ℕ) (s : List UInt8) :
    opened dev clock d parent stack fsave fuel s = some (l.any (matching s)) := by
  have henum := enumEnt_reports h { fsave with flag := 0 } (matching s)
    (hl (start (stack fuel)) rfl)
  rw [← openEnumerator_eq] at henum
  rw [opened, openExisting]
  dsimp only
  rw [henum]
  cases hfind : l.find? (matching s) with
  | none =>
    have hany : l.any (matching s) = false := by
      rw [List.any_eq_false]
      exact List.find?_eq_none.mp hfind
    rw [hany]
    rfl
  | some rep =>
    have hany : l.any (matching s) = true :=
      List.any_eq_true.mpr ⟨rep, List.mem_of_find?_eq_some hfind, List.find?_some hfind⟩
    rw [hany]
    rfl

/-- The entry is put into the first cluster that has room. -/
lemma createEnt_eq (clock : Clock) (stack : ℕ → Stack) (addr : UInt32)
    (h : Directory dev n d parent cs) (hpos : parent.pos = 0)
    (hroom : Room dev d cs fsave) (hform : nameForm fsave.name = some (uni, entryCount fsave.name)) :
    ∃ pre x post i, cs = pre ++ x :: post ∧
      findRoom (entryCount fsave.name) 0 0 (entries (readclu dev d x) 0 (maxEntries dev)) =
        some i ∧
      fat32CreateEnt dev clock d parent stack fsave addr =
        (placeEntry clock (opened dev clock d parent stack fsave) fsave addr uni
          (entryCount fsave.name) (entrySize * i) (readclu dev d x)).map
          fun data => (0, writeclu dev d x data) := by
  have hclu : getCluByOrder dev d parent.data (cluOrder dev parent.pos) = parent.data := by
    rw [h.proper.cluOrder_eq, hpos, UInt32.toNat_zero, Nat.zero_div]
    rfl
  have hmod : (parent.pos % dev.bytPerClu).toNat = 0 := by
    rw [UInt32.toNat_mod, hpos, UInt32.toNat_zero, Nat.zero_mod]
  obtain ⟨e, hfollow, -⟩ := h.chain
  rw [fat32CreateEnt, hform, Option.bind_eq_bind, Option.bind_some, hclu, hmod]
  exact createLoop_room hfollow h.inuse hroom (nodup_length_le h.nodup)

/-- The name of a new file: the characters of a long name, if there are any, in so many parts, and the
short name that is found. -/
structure NewName (dev : Fat32Dev) (clock : Clock) (d : Store) (parent : File) (stack : ℕ → Stack)
    (fsave : FileEnt) (addr : UInt32) (uni : Option (List UInt8)) (parts : ℕ)
    (sname extention : List UInt8) : Prop where
  form : nameForm fsave.name = some (uni, entryCount fsave.name)
  count : entryCount fsave.name = parts + 1
  long : uni.elim (parts = 0) fun uni => 26 * parts ≤ uni.length
  short : buildShortname (opened dev clock d parent stack fsave) addressSpace fsave.name addr
    126 49 = some (sname, extention)
  name : sname.length = 8
  ext : extention.length = 3
  first : sname.getD 0 0 ≠ 0 ∧ sname.getD 0 0 ≠ 0xe5
  group : IsGroup (nameRecords uni sname extention parts)

/-- What a call reports that has found a short name. -/
lemma created_spec (h : Directory dev n d parent cs) (hpos : parent.pos = 0)
    (htidy : Tidy (records dev d cs)) (hroom : Room dev d cs fsave)
    (hnew : NewName dev clock d parent stack fsave addr uni parts sname extention) :
    ∃ d', fat32CreateEnt dev clock d parent stack fsave addr = some (0, d') ∧
      ∃ l₁ l₂, ∀ st : Scan, st.nameEntries = 0 →
        reports clock st (records dev d cs) = some (l₁ ++ l₂) ∧
        reports clock st (records dev d' cs) = some (l₁ ++ reportOf clock
          (groupName (nameRecords uni sname extention parts)
            (fileRecord clock fsave sname extention))
          (fileRecord clock fsave sname extention) :: l₂) := by
  obtain ⟨pre, x, post, i, rfl, hfind, hcreate⟩ :=
    createEnt_eq clock stack addr h hpos hroom hnew.form
  rw [hnew.count] at hfind hcreate
  obtain ⟨front, hole, back, hes, hlen, hhole, hi⟩ := findRoom_room (Nat.succ_pos parts) hfind
  have hclu := h.proper.length_readclu d (h.clusters x (by simp))
  obtain ⟨data, hplace, hdata, hes'⟩ := placeEntry_eq hnew.short hnew.name hnew.ext
    hnew.long (hclu.trans (maxEntries_eq h.proper).symm) hes hlen hi
  rw [hplace, Option.map_some] at hcreate
  refine ⟨_, hcreate, ?_⟩
  have hsplit := Written.records_around pre post hes
  rw [hsplit] at htidy
  rw [hsplit, Written.records_around_writeclu h (hdata.trans hclu) hes']
  exact reports_insert clock htidy (List.ne_nil_of_length_pos (by omega)) hhole hnew.group
    (isFile_fileRecord clock fsave hnew.name hnew.ext hnew.first)

lemma uniBuffer_group {name : List UInt8} (hascii : IsAscii name) (hlong : 11 < name.length)
    (hlen : name.length < 52) (sname extention : List UInt8) (b : List UInt8) :
    26 * (name.length / 13 + 1) ≤ (uniBuffer name).length ∧
      IsGroup (nameRecords (some (uniBuffer name)) sname extention (name.length / 13 + 1)) ∧
      groupName (nameRecords (some (uniBuffer name)) sname extention (name.length / 13 + 1)) b =
        name := by
  have hsize : FILE_NAME_LEN = 128 := rfl
  have hmax : MAX_LNAME_ENTRIS = 4 := rfl
  have hbuf := @length_uniBuffer name (by omega)
  have hparts : 26 * (name.length / 13 + 1) ≤ (uniBuffer name).length := by omega
  have hrecs : nameRecords (some (uniBuffer name)) sname extention (name.length / 13 + 1) =
      partRecords (uniBuffer name) (checksum (sname ++ extention)) (name.length / 13 + 1)
        (name.length / 13 + 1) := rfl
  have hcount := length_partRecords (uniBuffer name) (checksum (sname ++ extention))
    (name.length / 13 + 1) (name.length / 13 + 1)
  have hchars : 2 * name.length + 2 ≤ 26 * (name.length / 13 + 1) := by omega
  rw [hrecs]
  refine ⟨hparts, ⟨by omega, ⟨checksum (sname ++ extention), ?_⟩, fun _ _ => ?_⟩, ?_⟩
  · rw [hcount]
    exact partRecords_run hparts (by omega) le_rfl
  · obtain ⟨rest, hrest⟩ := uniBuffer_chars hchars
    rw [partRecords_bytes hparts, hrest]
    simp
  · have hne : partRecords (uniBuffer name) (checksum (sname ++ extention))
        (name.length / 13 + 1) (name.length / 13 + 1) ≠ [] :=
      List.ne_nil_of_length_pos (by omega)
    rw [groupName, if_neg (not_or.mpr ⟨hne, by omega⟩), partRecords_bytes hparts,
      decode_uniBuffer hascii hchars]

/-- What a found short name is made of. -/
lemma searched_trial (hopens : ∀ fuel s, opened dev clock d parent stack fsave fuel s =
      some (l.any (matching s)))
    (haddr : Low addr fsave.name) (hascii : IsAscii fsave.name)
    (hshort : buildShortname (opened dev clock d parent stack fsave) addressSpace fsave.name addr
      126 49 = some (sname, extention)) :
    sname.length = 8 ∧ extention.length = 3 ∧
      (sname.getD 0 0 ≠ 0 ∧ sname.getD 0 0 ≠ 0xe5) := by
  obtain ⟨k, passed, -, -, htrial⟩ := buildShortname_trial hopens haddr hshort
  exact ⟨htrial.name_length, htrial.ext_length,
    htrial.first (ascii_of_subset hascii fun c hc => List.mem_of_mem_drop hc)⟩

/-- A new file of five bytes in cluster 3. -/
def newFile (name : List UInt8) : FileEnt := ⟨⟨3, 5, 0, false⟩, name, 0, 0, 0, 0⟩

lemma empty_room (name : List UInt8) (h : name.length ≤ 11) :
    Room smallDev smallStore [2] (newFile name) := by
  have hcount : entryCount (newFile name).name = 1 := if_neg (Nat.not_lt.mpr h)
  refine ⟨2, by simp, ?_⟩
  rw [hcount]
  decide +kernel

end RoundTrip

end Sgos.Fat32
