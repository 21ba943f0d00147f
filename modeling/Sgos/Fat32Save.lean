import Sgos.Fat32Catalog

/-!
# Saving an entry

What `fat32_saveinfo` leaves of a directory in order: the first entry whose name agrees gets the
cluster and the size of the file, and keeps its name and its attributes. The other entries are as
before.
-/
namespace Sgos.Fat32.Catalog
open ByteBuffer ByteStore Scan Lookup Names Create ShortNames RoundTrip

variable {dev : Fat32Dev} {n : ℕ} {clock : Clock} {d d' : Store} {cs : List UInt32}
  {parent : File} {f : FileEnt} {b : List UInt8} {front back ps : List (List UInt8)} {m : Map}

/-! ## The entry -/

lemma settime_kept (clock : Clock) (ff : FAT32_ENTRY) (t : UInt32) (op : ℕ) :
    (fat32Settime clock ff t op).attrib = ff.attrib ∧
      (fat32Settime clock ff t op).size = ff.size := by
  rw [fat32Settime]
  dsimp only
  split_ifs <;> exact ⟨rfl, rfl⟩

/-- The flags of an entry are not changed by the attributes that they were read as. -/
lemma flags_saved : ∀ k < 256, UInt8.ofNat k |||
    (if fileAttr (UInt8.ofNat k) &&& FILE_ATTR_RDONLY ≠ 0 then RDONLY else 0) |||
    (if fileAttr (UInt8.ofNat k) &&& FILE_ATTR_SYSTEM ≠ 0 then SYSTEM else 0) |||
    (if fileAttr (UInt8.ofNat k) &&& FILE_ATTR_DIR ≠ 0 then SUBDIR else 0) |||
    (if fileAttr (UInt8.ofNat k) &&& FILE_ATTR_HIDDEN ≠ 0 then HIDDEN else 0) = UInt8.ofNat k := by
  decide +kernel

lemma saveEntry_attrib (clock : Clock) {ff : FAT32_ENTRY}
    (h : f.attrib &&& 0xf = fileAttr ff.attrib &&& 0xf) :
    (saveEntry clock f ff).attrib = ff.attrib := by
  have hmask : ∀ x : UInt32, (0xf : UInt32) &&& x = x → f.attrib &&& x =
      fileAttr ff.attrib &&& x := by
    intro x hx
    rw [← hx, ← UInt32.and_assoc, h, UInt32.and_assoc]
  have hflags := flags_saved ff.attrib.toNat ff.attrib.toNat_lt
  rw [UInt8.ofNat_toNat] at hflags
  rw [saveEntry]
  dsimp only
  rw [(settime_kept ..).1, (settime_kept ..).1, hmask FILE_ATTR_RDONLY rfl,
    hmask FILE_ATTR_SYSTEM rfl, hmask FILE_ATTR_DIR rfl, hmask FILE_ATTR_HIDDEN rfl]
  exact hflags

lemma saveEntry_size (clock : Clock) (f : FileEnt) (ff : FAT32_ENTRY) :
    (saveEntry clock f ff).size = f.size := by
  rw [saveEntry]
  dsimp only
  rw [(settime_kept ..).2, (settime_kept ..).2]

lemma saveEntry_names (clock : Clock) (f : FileEnt) (ff : FAT32_ENTRY) :
    (saveEntry clock f ff).name = ff.name ∧ (saveEntry clock f ff).extention = ff.extention := by
  rw [saveEntry]
  dsimp only
  rw [(settime_fields ..).1, (settime_fields ..).1, (settime_fields ..).2, (settime_fields ..).2]
  exact ⟨rfl, rfl⟩

/-- The bytes of an entry with the changes of a file. -/
def savedRecord (clock : Clock) (f : FileEnt) (b : List UInt8) : List UInt8 :=
  (saveEntry clock f (FAT32_ENTRY.ofBytes b)).toBytes

lemma ofBytes_savedRecord (clock : Clock) (f : FileEnt) (hb : b.length = entrySize) :
    FAT32_ENTRY.ofBytes (savedRecord clock f b) = saveEntry clock f (FAT32_ENTRY.ofBytes b) := by
  have hsize : entrySize = 32 := rfl
  apply ofBytes_toBytes
  · rw [(saveEntry_names ..).1]
    exact length_field (by omega)
  · rw [(saveEntry_names ..).2]
    exact length_field (by omega)

lemma length_savedRecord (clock : Clock) (f : FileEnt) (hb : b.length = entrySize) :
    (savedRecord clock f b).length = entrySize := by
  have hsize : entrySize = 32 := rfl
  exact length_saveEntry clock f (by omega)

section Saved
variable (hb : b.length = entrySize)
  (hattr : f.attrib &&& 0xf = fileAttr (FAT32_ENTRY.ofBytes b).attrib &&& 0xf)
include hb hattr

/-- A file stays a file. -/
lemma isFile_savedRecord (clock : Clock) : isFile (savedRecord clock f b) = isFile b := by
  have hsize : entrySize = 32 := rfl
  have hbyte : (savedRecord clock f b).getD 0 0 = b.getD 0 0 := by
    have hname : (savedRecord clock f b).getD 0 0 = (field b 0 8).getD 0 0 := by
      rw [savedRecord, FAT32_ENTRY.toBytes, (saveEntry_names ..).1]
      simp only [List.append_assoc]
      refine List.getD_append _ _ _ _ ?_
      rw [show (FAT32_ENTRY.ofBytes b).name = field b 0 8 from rfl, length_field (by omega)]
      omega
    rw [hname, List.getD_eq_getElem?_getD, getElem?_field, if_pos (by omega),
      ← List.getD_eq_getElem?_getD]
  rw [isFile, isFile, ofBytes_savedRecord clock f hb, saveEntry_attrib clock hattr, unused, unused,
    hbyte]

/-- It keeps its name. -/
lemma groupName_savedRecord (clock : Clock) (ps : List (List UInt8)) :
    groupName ps (savedRecord clock f b) = groupName ps b := by
  have hshort : fat32GetShortname (FAT32_ENTRY.ofBytes (savedRecord clock f b)) =
      fat32GetShortname (FAT32_ENTRY.ofBytes b) := by
    rw [ofBytes_savedRecord clock f hb, fat32GetShortname, fat32GetShortname,
      (saveEntry_names ..).1, (saveEntry_names ..).2, saveEntry_attrib clock hattr]
  rw [groupName, groupName, hshort]

/-- It is reported with the cluster and the size of the file. -/
lemma info_savedRecord (clock : Clock) (name : List UInt8) :
    info (reportOf clock name (savedRecord clock f b)) =
      (f.data, f.size, fileAttr (FAT32_ENTRY.ofBytes b).attrib) := by
  rw [reportOf, ofBytes_savedRecord clock f hb, info]
  dsimp only
  rw [saveEntry_attrib clock hattr, saveEntry_size]
  exact congrArg (·, f.size, fileAttr (FAT32_ENTRY.ofBytes b).attrib) (cluster_eq f.data)

end Saved

/-! ## The directory -/

/-- The reports in front of a file and behind it do not depend on its entry. -/
lemma reports_around (clock : Clock) (hfront : Tidy front) (hps : IsGroup ps) (hback : Tidy back) :
    ∃ l₁ l₂, ∀ b, isFile b = true → ∀ st : Scan, st.nameEntries = 0 →
      reports clock st (front ++ (ps ++ [b]) ++ back) =
        some (l₁ ++ reportOf clock (groupName ps b) b :: l₂) := by
  obtain ⟨l₁, hl₁⟩ := hfront.reports clock
  obtain ⟨l₂, hl₂⟩ := hback.reports clock
  refine ⟨l₁, l₂, fun b hb st hst => ?_⟩
  obtain ⟨hrep, s, hs, hzero⟩ := hl₁ st hst
  obtain ⟨hone, s', hs', hzero'⟩ := reports_group hps hb hzero clock
  rw [List.append_assoc]
  exact reports_append hs hrep (reports_append hs' hone (hl₂ s' hzero').1)

/-- Saving changes the first file that agrees with the name, and leaves the order. -/
lemma InOrder.save (h : InOrder dev n d parent cs) (clock : Clock) (stack : Stack) (f : FileEnt)
    {rep : Report} (hfind : (files dev clock d cs).find? (matching f.name) = some rep)
    (hattr : f.attrib &&& 0xf = rep.attr &&& 0xf) :
    ∃ d' l₁ l₂ rep', fat32Saveinfo dev clock d parent stack f = some (0, d') ∧
      InOrder dev n d' parent cs ∧ Kept dev n cs d d' ∧
      files dev clock d cs = l₁ ++ rep :: l₂ ∧ files dev clock d' cs = l₁ ++ rep' :: l₂ ∧
      rep'.fname = rep.fname ∧ info rep' = (f.data, f.size, rep.attr) := by
  have hdir := h.directory
  obtain ⟨c, b, pre, post, as, ps, bs, r, rfl, hes, hps, has, hbs, hfile, rfl, henum⟩ :=
    h.found clock stack f (.inr (.inr rfl)) hfind
  have hclu := hdir.proper.length_readclu d (hdir.clusters c (by simp))
  have hmax := hclu.trans (maxEntries_eq hdir.proper).symm
  have hcount : as.length + (ps.length + 1) + bs.length = maxEntries dev := by
    have hlength := congrArg List.length hes
    simp only [length_entries, List.length_append, List.length_singleton] at hlength
    omega
  have hentry : field (readclu dev d c) (entrySize * (as.length + ps.length)) entrySize = b := by
    have hmid := congrArg (·[as.length + ps.length]?) hes
    simp only [getElem?_entries] at hmid
    rw [if_pos (by omega), List.append_assoc, List.getElem?_append_right (by omega),
      Nat.add_sub_cancel_left, List.append_assoc, List.getElem?_append_right le_rfl,
      Nat.sub_self] at hmid
    exact Option.some.inj hmid
  have hlen32 : b.length = entrySize := by
    rw [← hentry]
    apply length_field
    rw [hmax, ← Nat.mul_succ]
    exact Nat.mul_le_mul_left _ (by omega)
  have hsaved := isFile_savedRecord hlen32 hattr clock
  rw [hfile] at hsaved
  have hset := entries_memcpy (i := as.length + ps.length) hmax (by omega)
    (length_savedRecord clock f hlen32)
  rw [hes, List.append_assoc, List.set_append_right _ _ (by omega), Nat.add_sub_cancel_left,
    List.append_assoc, List.set_append_right _ _ le_rfl, Nat.sub_self, List.singleton_append,
    List.set_cons_zero] at hset
  have hnew : entries (memcpy (readclu dev d c) (entrySize * (as.length + ps.length))
      (savedRecord clock f b)) 0 (maxEntries dev) =
      as ++ (ps ++ [savedRecord clock f b]) ++ bs := by
    rw [hset]
    simp only [List.append_assoc, List.singleton_append]
  have hlen : (memcpy (readclu dev d c) (entrySize * (as.length + ps.length))
      (savedRecord clock f b)).length = dev.bytPerClu.toNat := by
    rw [length_memcpy, hclu]
    rw [length_savedRecord clock f hlen32, hmax, ← Nat.mul_succ]
    exact Nat.mul_le_mul_left _ (by omega)
  have horder : InOrder dev n (writeclu dev d c (memcpy (readclu dev d c)
      (entrySize * (as.length + ps.length)) (savedRecord clock f b))) parent
      (pre ++ c :: post) := by
    apply h.write hlen
    · rw [hnew, List.append_assoc, List.append_assoc, List.singleton_append]
      exact has.append (.file hps hsaved hbs)
    · rw [hnew]
      have hfew := h.few c (by simp)
      rw [hes] at hfew
      intro x hx
      simp only [List.mem_append, List.mem_singleton] at hx
      rcases hx with (hx | hx | rfl) | hx
      · exact hfew x (by simp [hx])
      · exact hfew x (by simp [hx])
      · exact .inr (.inl hsaved)
      · exact hfew x (by simp [hx])
  have hold := Written.records_around pre post hes
  have hafter := Written.records_around_writeclu hdir hlen hnew
  have hfront : Tidy (records dev d pre ++ as) :=
    (tidy_records fun x hx => h.tidy x (List.mem_append_left _ hx)).append has
  have hback : Tidy (bs ++ records dev d post) :=
    hbs.append (tidy_records fun x hx => h.tidy x (by simp [hx]))
  obtain ⟨l₁, l₂, hreports⟩ := reports_around clock hfront hps hback
  refine ⟨_, l₁, l₂,
    reportOf clock (groupName ps (savedRecord clock f b)) (savedRecord clock f b), ?_, horder,
    kept_writeclu hdir.proper (hdir.clusters c (by simp)) (by simp) hlen, ?_, ?_,
    groupName_savedRecord hlen32 hattr clock ps, info_savedRecord hlen32 hattr clock _⟩
  · rw [stopped_save, ← saveinfoEnumerator_eq, hentry] at henum
    rw [fat32Saveinfo]
    dsimp only
    rw [henum]
    rfl
  · rw [files, hold, hreports b hfile (start noStack) rfl, Option.getD_some]
  · rw [files, hafter, hreports _ hsaved (start noStack) rfl, Option.getD_some]

/-! ## The map -/

/-- A name that a file has is the name of no other one. -/
lemma Represents.exact {l : List Report} {name : List UInt8} (h : Represents l m)
    (hsome : (m (key name)).isSome = true) : Exact l name := by
  rw [h.entry, Option.isSome_map] at hsome
  obtain ⟨rep, hfind⟩ := Option.isSome_iff_exists.mp hsome
  have hsame : SameName rep.fname name := hasKey_iff.mp (List.find?_some hfind)
  intro r hr hmatch
  rw [matching, decide_eq_true_eq, ← strnicmp_congr hsame] at hmatch
  obtain ⟨l₁, l₂, rfl⟩ := List.append_of_mem (List.mem_of_find?_eq_some hfind)
  have hapart := h.apart
  rw [List.pairwise_middle fun hab => by rwa [strnicmp_comm], List.pairwise_cons] at hapart
  rcases List.mem_append.mp hr with hmem | hmem
  · exact absurd (strnicmp_comm .. ▸ hmatch) (hapart.1 r (List.mem_append_left l₂ hmem))
  · rcases List.mem_cons.mp hmem with rfl | hmem
    · exact hsame
    · exact absurd (strnicmp_comm .. ▸ hmatch) (hapart.1 r (List.mem_append_right l₁ hmem))

/-- What is known of a file may be exchanged. -/
lemma Represents.replace {l₁ l₂ : List Report} {rep rep' : Report}
    (h : Represents (l₁ ++ rep :: l₂) m) (hname : rep'.fname = rep.fname) :
    Represents (l₁ ++ rep' :: l₂) (Function.update m (key rep.fname) (some (info rep'))) := by
  have hapart := h.apart
  rw [List.pairwise_middle fun hab => by rwa [strnicmp_comm], List.pairwise_cons] at hapart
  have hfree : ∀ r ∈ l₁ ++ l₂, matching rep.fname r = false := by
    intro r hr
    rw [matching, decide_eq_false_iff_not, strnicmp_comm]
    exact hapart.1 r hr
  have hsame : SameName rep'.fname rep.fname := congrArg _ hname
  have hinsert := h.erase.insert hfree hsame
  rwa [Function.update_idem] at hinsert

/-- A file that has an entry is saved to it. -/
lemma Holds.save (h : Holds dev n clock parent cs d m) (stack : Stack)
    {file : UInt32 × UInt32 × UInt32}
    (hm : m (key f.name) = some file) (hattr : f.attrib &&& 0xf = file.2.2 &&& 0xf) :
    ∃ d', fat32Saveinfo dev clock d parent stack f = some (0, d') ∧ Kept dev n cs d d' ∧
      Holds dev n clock parent cs d' (Function.update m (key f.name)
        (some (f.data, f.size, file.2.2))) := by
  have hexact := h.represents.exact (show (m (key f.name)).isSome = true by
    rw [hm, Option.isSome_some])
  have hfind := h.find_eq hexact
  rw [hm] at hfind
  obtain ⟨rep, hrep, rfl⟩ := Option.map_eq_some_iff.mp hfind.symm
  obtain ⟨d', l₁, l₂, rep', hsave, horder, hkept, hold, hnew, hname, hinfo⟩ :=
    h.inOrder.save clock stack f hrep hattr
  have hsame : key rep.fname = key f.name :=
    hexact rep (List.mem_of_find?_eq_some hrep) (List.find?_some hrep)
  have hrepresents := h.represents
  rw [hold] at hrepresents
  have hnext := hrepresents.replace hname
  rw [hinfo, hsame, ← hnew] at hnext
  exact ⟨d', hsave, hkept, horder, hnext⟩

end Sgos.Fat32.Catalog
