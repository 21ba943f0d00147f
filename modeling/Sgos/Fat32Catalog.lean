import Sgos.Fat32RoundTrip
import Sgos.GuardedRun
import Mathlib.Data.List.Find

/-!
# A directory as a map

Creating, removing, renaming and opening files of one directory, in any order. While no name of a
file is the beginning of another one, the entries on the volume are a map from names to files: what
`fat32_create_ent` writes is found by `fat32_open`, and `fat32_remove_ent` takes only this away.
-/
namespace Sgos.Fat32
open ByteBuffer ByteStore

/-- `fat32_rename`: nothing is done when a file is found by the new name. The file has the new name
when its old entry is gone. -/
def fat32Rename (dev : Fat32Dev) (clock : Clock) (d : Store) (parent : File)
    (stackOpen stackRemove : Stack) (stack : ℕ → Stack) (f : FileEnt) (name : List UInt8)
    (addr : UInt32) : Option (Int32 × FileEnt × Store) := do
  let tmp := { f with flag := 0 }
  let (ret, _) ← openExisting dev clock d parent stackOpen tmp name
  if ret = 0 then some (-1, f, d)
  else
    let (ret, d) ← fat32RemoveEnt dev clock d parent stackRemove f
    if ret < 0 then some (-1, f, d)
    else
      let f := { f with name := name }
      let (ret, d) ← fat32CreateEnt dev clock d { parent with pos := 0 } stack f addr
      some (if ret < 0 then -1 else 0, f, d)

namespace Catalog
open Scan Lookup Names Create ShortNames RoundTrip GuardedRun

variable {dev : Fat32Dev} {n : ℕ} {clock : Clock} {d d' : Store} {cs : List UInt32}
  {parent : File} {stack : Stack} {f fsave : FileEnt} {c : UInt32} {st s : Scan}
  {b : List UInt8} {as bs rs ps : List (List UInt8)} {name data : List UInt8}

/-! ## Groups of a few parts -/

/-- The entry is none of a long name with too many parts. -/
def FewParts (b : List UInt8) : Prop :=
  unused b = true ∨ isFile b = true ∨ (b.getD 0 0).toNat ≤ 0x40 + MAX_LNAME_ENTRIS

lemma run_few {sum : UInt8} {m : ℕ} (hrun : IsRun sum m ps) (hle : ps.length ≤ m)
    (hm : m ≤ MAX_LNAME_ENTRIS) : ∀ b ∈ ps, FewParts b := by
  have hmax : MAX_LNAME_ENTRIS = 4 := rfl
  induction ps with
  | nil => exact fun b hb => absurd hb List.not_mem_nil
  | cons a as ih =>
    obtain ⟨-, hpart, hrest⟩ := hrun
    rw [List.length_cons] at hle
    intro b hb
    rcases List.mem_cons.mp hb with rfl | hb
    · simp only [isPart, Bool.and_eq_true, decide_eq_true_eq] at hpart
      have hid : (FAT32_NAME_ENTRY.ofBytes b).id = b.getD 0 0 := rfl
      rw [hid] at hpart
      refine .inr (.inr ?_)
      have hbyte := hpart.2
      split_ifs at hbyte <;> omega
    · exact ih hrest (by omega) b hb

/-- A long name of a few parts has a few parts. -/
lemma group_few (h : IsGroup ps) (hfew : ∀ b ∈ ps, FewParts b) : ps.length ≤ MAX_LNAME_ENTRIS := by
  obtain ⟨hlt, ⟨sum, hrun⟩, -⟩ := h
  cases ps with
  | nil => exact Nat.zero_le _
  | cons b bs =>
    have hused := used_of_run hrun le_rfl hlt b List.mem_cons_self
    have hfile := not_isFile_of_run hrun b List.mem_cons_self
    obtain ⟨-, hpart, -⟩ := hrun
    simp only [isPart, Bool.and_eq_true, decide_eq_true_eq, List.length_cons, if_true] at hpart
    have hid : (FAT32_NAME_ENTRY.ofBytes b).id = b.getD 0 0 := rfl
    rw [hid] at hpart
    rcases hfew b List.mem_cons_self with hunused | hisFile | hbyte
    · rw [hused] at hunused
      cases hunused
    · rw [hfile] at hisFile
      cases hisFile
    · rw [List.length_cons]
      omega

/-- A file of a tidy directory stands behind the parts of its name. -/
lemma file_at (h : Tidy rs) {i : ℕ} (hb : rs[i]? = some b) (hfile : isFile b = true) :
    ∃ as ps bs, rs = as ++ (ps ++ [b]) ++ bs ∧ as.length + ps.length = i ∧ IsGroup ps ∧
      Tidy as ∧ Tidy bs := by
  induction h generalizing i with
  | nil => cases hb
  | @unused x xs hx hxs ih =>
    cases i with
    | zero =>
      obtain rfl := Option.some.inj hb
      rw [isFile, hx] at hfile
      cases hfile
    | succ i =>
      obtain ⟨as, ps, bs, rfl, hi, hps, has, hbs⟩ := ih hb
      refine ⟨x :: as, ps, bs, by simp, ?_, hps, .unused hx has, hbs⟩
      rw [List.length_cons]
      omega
  | @file qs x xs hqs hx hxs ih =>
    by_cases hlt : i < qs.length
    · rw [List.getElem?_append_left hlt] at hb
      obtain ⟨-, ⟨sum, hrun⟩, -⟩ := hqs
      rw [not_isFile_of_run hrun b (List.mem_of_getElem? hb)] at hfile
      cases hfile
    · obtain ⟨k, rfl⟩ := Nat.exists_eq_add_of_le (Nat.le_of_not_lt hlt)
      rw [List.getElem?_append_right (Nat.le_add_right _ _), Nat.add_sub_cancel_left] at hb
      cases k with
      | zero =>
        obtain rfl := Option.some.inj hb
        exact ⟨[], qs, xs, by simp, by simp, hqs, .nil, hxs⟩
      | succ k =>
        obtain ⟨as, ps, bs, rfl, hi, hps, has, hbs⟩ := ih hb
        refine ⟨qs ++ x :: as, ps, bs, by simp, ?_, hps, .file hqs hx has, hbs⟩
        rw [List.length_append, List.length_cons]
        omega

/-- Behind a few parts the scan has counted them, and has the name. -/
lemma after_parts (h : IsGroup ps) (hfit : ps.length ≤ MAX_LNAME_ENTRIS) (hst : st.nameEntries = 0)
    (hs : after st ps = some s) (b : List UInt8) :
    s.nameEntries = ps.length ∧ text (s.fill (FAT32_ENTRY.ofBytes b)) = groupName ps b := by
  obtain ⟨s', hs', htext⟩ := after_group h hst b
  obtain rfl := Option.some.inj (hs.symm.trans hs')
  refine ⟨?_, htext⟩
  obtain ⟨-, ⟨sum, hrun⟩, -⟩ := h
  by_cases hne : ps = []
  · subst hne
    obtain rfl := Option.some.inj hs
    exact hst
  · obtain ⟨s', hs', hentries, -⟩ := after_run hrun hne hfit st
    obtain rfl := Option.some.inj (hs.symm.trans hs')
    exact hentries

/-! ## Deleted entries -/

/-- A byte of an entry after entries are deleted. -/
lemma field_delete {i m j : ℕ} (hm : m ≤ i) (hlt : entrySize * i < data.length) (t : ℕ) :
    (field (deleteEntries data (entrySize * i) m) (entrySize * j) entrySize)[t]? =
      if t = 0 ∧ i ≤ j + m ∧ j ≤ i then some 0xe5
      else (field data (entrySize * j) entrySize)[t]? := by
  have hlen := length_deleteEntries data (entrySize * i) m
  have hget := getD_deleteEntries (Nat.mul_le_mul_left entrySize hm) hlt (entrySize * j + t)
  rw [getElem?_field, getElem?_field]
  by_cases ht : t < entrySize
  · rw [if_pos ht, if_pos ht]
    simp only [entrySize] at ht hlt hlen hget ⊢
    by_cases hin : 32 * j + t < data.length
    · have hiff : (∃ k ≤ m, 32 * j + t = 32 * i - 32 * k) ↔ t = 0 ∧ i ≤ j + m ∧ j ≤ i := by
        constructor
        · rintro ⟨k, hk, he⟩
          omega
        · rintro ⟨rfl, hle, hge⟩
          exact ⟨i - j, by omega, by omega⟩
      rw [List.getD_eq_getElem?_getD, List.getD_eq_getElem?_getD,
        List.getElem?_eq_getElem (by rwa [hlen]), List.getElem?_eq_getElem hin] at hget
      simp only [Option.getD_some, hiff] at hget
      rw [List.getElem?_eq_getElem (by rwa [hlen]), List.getElem?_eq_getElem hin, hget]
      split_ifs <;> rfl
    · rw [List.getElem?_eq_none (by rw [hlen]; omega), List.getElem?_eq_none (by omega), if_neg]
      omega
  · rw [if_neg ht, if_neg ht, if_neg]
    rintro ⟨rfl, -⟩
    exact ht (by decide)

/-- A list that is as another one but for a segment. -/
lemma eq_append_of_outside {α : Type} {xs as mid bs : List α}
    (hlen : xs.length = (as ++ mid ++ bs).length)
    (h : ∀ j, ¬(as.length ≤ j ∧ j < as.length + mid.length) → xs[j]? = (as ++ mid ++ bs)[j]?) :
    ∃ hole, xs = as ++ hole ++ bs ∧ hole.length = mid.length ∧
      ∀ t < mid.length, hole[t]? = xs[as.length + t]? := by
  simp only [List.length_append] at hlen
  refine ⟨(xs.drop as.length).take mid.length, ?_, ?_, ?_⟩
  · apply List.ext_getElem?
    intro j
    by_cases hin : as.length ≤ j ∧ j < as.length + mid.length
    · rw [List.append_assoc, List.getElem?_append_right hin.1, List.getElem?_append_left (by
        rw [List.length_take, List.length_drop]
        omega), List.getElem?_take_of_lt (by omega), List.getElem?_drop,
        Nat.add_sub_cancel' hin.1]
    · rw [h j hin]
      have hhole : ((xs.drop as.length).take mid.length).length = mid.length := by
        rw [List.length_take, List.length_drop]
        omega
      simp only [List.getElem?_append, List.length_append, hhole]
      split_ifs <;> first | rfl | omega
  · rw [List.length_take, List.length_drop]
    omega
  · intro t ht
    rw [List.getElem?_take_of_lt ht, List.getElem?_drop]

/-- The entries of a group are unused after they are deleted, and the others stay. -/
lemma entries_delete {k : ℕ} (hlen : data.length = entrySize * k)
    (hes : entries data 0 k = as ++ (ps ++ [b]) ++ bs) :
    ∃ hole, entries (deleteEntries data (entrySize * (as.length + ps.length)) ps.length) 0 k =
        as ++ hole ++ bs ∧ hole ≠ [] ∧ ∀ x ∈ hole, unused x = true := by
  have hcount : as.length + (ps.length + 1) + bs.length = k := by
    have hlength := congrArg List.length hes
    simp only [length_entries, List.length_append, List.length_singleton] at hlength
    omega
  have hlt : entrySize * (as.length + ps.length) < data.length := by
    rw [hlen]
    exact Nat.mul_lt_mul_of_pos_left (by omega) (by decide)
  have hmid : (ps ++ [b]).length = ps.length + 1 := List.length_append
  have hfield := fun j t => @field_delete data (as.length + ps.length) ps.length j
    (Nat.le_add_left _ _) hlt t
  obtain ⟨hole, heq, hhole, hget⟩ := @eq_append_of_outside _
    (entries (deleteEntries data (entrySize * (as.length + ps.length)) ps.length) 0 k) as
    (ps ++ [b]) bs (by rw [← hes, length_entries, length_entries]) fun j hj => by
      rw [← hes, getElem?_entries, getElem?_entries]
      refine if_congr Iff.rfl (congrArg some (List.ext_getElem? fun t => ?_)) rfl
      rw [hfield, if_neg]
      omega
  rw [hmid] at hhole hget
  refine ⟨hole, heq, List.ne_nil_of_length_pos (by omega), fun x hx => ?_⟩
  obtain ⟨t, ht⟩ := List.getElem?_of_mem hx
  have htlt : t < ps.length + 1 := by
    rw [← hhole]
    exact (List.getElem?_eq_some_iff.mp ht).1
  have hbyte := hget t htlt
  rw [ht, getElem?_entries, if_pos (by omega)] at hbyte
  have hfirst := hfield (as.length + t) 0
  rw [if_pos ⟨rfl, by omega, by omega⟩, ← Option.some.inj hbyte] at hfirst
  rw [unused, List.getD_eq_getElem?_getD, hfirst]
  rfl

/-! ## A directory in order -/

/-- The files of the directory, as they are reported. -/
def files (dev : Fat32Dev) (clock : Clock) (d : Store) (cs : List UInt32) : List Report :=
  (reports clock (start noStack) (records dev d cs)).getD []

/-- The clusters of the directory are tidy, each for itself, and long names have a few parts. -/
structure InOrder (dev : Fat32Dev) (n : ℕ) (d : Store) (parent : File) (cs : List UInt32) :
    Prop where
  directory : Directory dev n d parent cs
  tidy : ∀ c ∈ cs, Tidy (entries (readclu dev d c) 0 (maxEntries dev))
  few : ∀ c ∈ cs, ∀ b ∈ entries (readclu dev d c) 0 (maxEntries dev), FewParts b

/-- Nothing but clusters of a directory is written. -/
structure Kept (dev : Fat32Dev) (n : ℕ) (cs : List UInt32) (d d' : Store) : Prop where
  next_eq : ∀ e : UInt32, e.toNat < n + 2 → nextclu dev d' e = nextclu dev d e
  read_eq : ∀ e, IsCluster n e → e ∉ cs → readclu dev d' e = readclu dev d e

lemma Kept.refl (dev : Fat32Dev) (n : ℕ) (cs : List UInt32) (d : Store) : Kept dev n cs d d where
  next_eq _ _ := rfl
  read_eq _ _ _ := rfl

lemma Kept.trans {d₁ : Store} (h : Kept dev n cs d d₁) (h' : Kept dev n cs d₁ d') :
    Kept dev n cs d d' where
  next_eq e he := (h'.next_eq e he).trans (h.next_eq e he)
  read_eq e he hout := (h'.read_eq e he hout).trans (h.read_eq e he hout)

lemma kept_writeclu (h : dev.Proper n) (hc : IsCluster n c) (hmem : c ∈ cs)
    (hlen : data.length = dev.bytPerClu.toNat) : Kept dev n cs d (writeclu dev d c data) where
  next_eq _ he := h.nextclu_writeclu d hc he hlen
  read_eq _ he hout := h.readclu_writeclu_of_ne d hc he (fun heq => hout (heq ▸ hmem)) hlen

lemma tidy_records (h : ∀ c ∈ cs, Tidy (entries (readclu dev d c) 0 (maxEntries dev))) :
    Tidy (records dev d cs) := by
  induction cs with
  | nil => exact .nil
  | cons c cs ih =>
    rw [records_cons]
    exact (h c List.mem_cons_self).append (ih fun x hx => h x (List.mem_cons_of_mem c hx))

namespace InOrder
variable {pre post : List UInt32}

/-- One cluster of the directory is written, and is in order afterwards. -/
lemma write (h : InOrder dev n d parent (pre ++ c :: post))
    (hlen : data.length = dev.bytPerClu.toNat) (htidy : Tidy (entries data 0 (maxEntries dev)))
    (hfew : ∀ b ∈ entries data 0 (maxEntries dev), FewParts b) :
    InOrder dev n (writeclu dev d c data) parent (pre ++ c :: post) := by
  have hdir := h.directory
  have hc := hdir.clusters c (by simp)
  have hread : ∀ x ∈ pre ++ c :: post, readclu dev (writeclu dev d c data) x =
      if x = c then data else readclu dev d x := by
    intro x hx
    split_ifs with he
    · rw [he, hdir.proper.readclu_writeclu d hc hlen]
    · exact hdir.proper.readclu_writeclu_of_ne d hc (hdir.clusters x hx) he hlen
  refine ⟨Written.directory hdir hlen, fun x hx => ?_, fun x hx => ?_⟩
  · rw [hread x hx]
    split_ifs
    · exact htidy
    · exact h.tidy x hx
  · rw [hread x hx]
    split_ifs
    · exact hfew
    · exact h.few x hx

lemma reports_eq (h : InOrder dev n d parent cs) (clock : Clock) (hst : st.nameEntries = 0) :
    reports clock st (records dev d cs) = some (files dev clock d cs) := by
  obtain ⟨l, hl⟩ := (tidy_records h.tidy).reports clock
  rw [files, (hl st hst).1, (hl (start noStack) rfl).1, Option.getD_some]

/-- The entries of a new file keep the order. -/
lemma create (h : InOrder dev n d parent cs) {stack : ℕ → Stack} {addr : UInt32}
    {uni : Option (List UInt8)} {parts : ℕ} {sname extention : List UInt8} (hpos : parent.pos = 0)
    (hroom : Room dev d cs fsave)
    (hnew : NewName dev clock d parent stack fsave addr uni parts sname extention)
    (hfit : (nameRecords uni sname extention parts).length ≤ MAX_LNAME_ENTRIS)
    (hcreate : fat32CreateEnt dev clock d parent stack fsave addr = some (0, d')) :
    InOrder dev n d' parent cs ∧ Kept dev n cs d d' := by
  obtain ⟨pre, x, post, i, rfl, hfind, hcreated⟩ :=
    createEnt_eq clock stack addr h.directory hpos hroom hnew.form
  rw [hnew.count] at hfind hcreated
  obtain ⟨front, hole, back, hes, hlen, hhole, hi⟩ := findRoom_room (Nat.succ_pos parts) hfind
  have hmem : x ∈ pre ++ x :: post := by simp
  have hclu := h.directory.proper.length_readclu d (h.directory.clusters x hmem)
  obtain ⟨data, hplace, hdata, hes'⟩ := placeEntry_eq hnew.short hnew.name hnew.ext
    hnew.long (hclu.trans (maxEntries_eq h.directory.proper).symm) hes hlen hi
  rw [hplace, Option.map_some, hcreate] at hcreated
  obtain ⟨-, rfl⟩ := Prod.mk.inj (Option.some.inj hcreated)
  have htidy := h.tidy x hmem
  have hfew := h.few x hmem
  have hfile := isFile_fileRecord clock fsave hnew.name hnew.ext hnew.first
  obtain ⟨y, hole', rfl⟩ := List.exists_cons_of_ne_nil (List.ne_nil_of_length_pos
    (show 0 < hole.length by omega))
  rw [hes] at htidy hfew
  refine ⟨h.write (hdata.trans hclu) ?_ ?_, kept_writeclu h.directory.proper
    (h.directory.clusters x hmem) hmem (hdata.trans hclu)⟩
  · rw [List.append_assoc, List.cons_append] at htidy
    obtain ⟨hfront, hrest⟩ := htidy.split (hhole y List.mem_cons_self)
    have hback := Tidy.of_hole (fun z hz => hhole z (List.mem_cons_of_mem y hz)) hrest
    rw [hes', List.append_assoc, List.append_assoc, List.singleton_append]
    exact hfront.append (.file hnew.group hfile hback)
  · rw [hes']
    intro b hb
    simp only [List.mem_append, List.mem_singleton] at hb
    rcases hb with (hb | hb | rfl) | hb
    · exact hfew b (by simp [hb])
    · obtain ⟨-, ⟨sum, hrun⟩, -⟩ := hnew.group
      exact run_few hrun le_rfl hfit b hb
    · exact .inr (.inl hfile)
    · exact hfew b (by simp [hb])

/-- Where an entry of a file is: behind the parts of its name, in a cluster. -/
lemma place (h : InOrder dev n d parent cs) {q : ℕ} (hget : cs[q / maxEntries dev]? = some c)
    (hb : (records dev d cs)[q]? = some b) (hfile : isFile b = true) :
    ∃ pre post as ps bs, cs = pre ++ c :: post ∧
      entries (readclu dev d c) 0 (maxEntries dev) = as ++ (ps ++ [b]) ++ bs ∧
      as.length + ps.length = q % maxEntries dev ∧ IsGroup ps ∧ ps.length ≤ MAX_LNAME_ENTRIS ∧
      Tidy as ∧ Tidy bs ∧ (records dev d cs).take q = records dev d pre ++ as ++ ps := by
  have hmem := List.mem_of_getElem? hget
  rw [records_getElem? (maxEntries_pos h.directory.proper), hget, Option.map_some] at hb
  have hmod := Nat.mod_lt q (maxEntries_pos h.directory.proper)
  have hentry : (entries (readclu dev d c) 0 (maxEntries dev))[q % maxEntries dev]? = some b := by
    rw [getElem?_entries, if_pos hmod]
    exact hb
  obtain ⟨as, ps, bs, hes, hi, hps, has, hbs⟩ := file_at (h.tidy c hmem) hentry hfile
  have hfew : ps.length ≤ MAX_LNAME_ENTRIS := by
    apply group_few hps
    intro x hx
    apply h.few c hmem
    rw [hes]
    simp [hx]
  obtain ⟨hlt, hc⟩ := List.getElem?_eq_some_iff.mp hget
  have hcs : cs = cs.take (q / maxEntries dev) ++ c :: cs.drop (q / maxEntries dev + 1) := by
    rw [← hc, List.getElem_cons_drop, List.take_append_drop]
  refine ⟨_, _, as, ps, bs, hcs, hes, hi, hps, hfew, has, hbs, ?_⟩
  have hlen : (records dev d (cs.take (q / maxEntries dev)) ++ as ++ ps).length = q := by
    rw [List.length_append, List.length_append, length_records, List.length_take,
      Nat.min_eq_left hlt.le, Nat.add_assoc, hi, Nat.mul_comm]
    exact Nat.div_add_mod q (maxEntries dev)
  have hrs := Written.records_split dev d (cs.take (q / maxEntries dev)) c
    (cs.drop (q / maxEntries dev + 1))
  rw [← hcs, hes] at hrs
  rw [hrs, show records dev d (cs.take (q / maxEntries dev)) ++ (as ++ (ps ++ [b]) ++ bs) ++
    records dev d (cs.drop (q / maxEntries dev + 1)) =
      (records dev d (cs.take (q / maxEntries dev)) ++ as ++ ps) ++ (b :: (bs ++
        records dev d (cs.drop (q / maxEntries dev + 1)))) by simp]
  exact List.take_left' hlen

/-- Where the first file that agrees with the name is: the scan stops behind the parts of its
name, and the report is made of them. -/
lemma found (h : InOrder dev n d parent cs) (clock : Clock) (stack : Stack) (f : FileEnt)
    {ret : Int32} (hret : ret = 1 ∨ ret = 2 ∨ ret = 3) {rep : Report}
    (hfind : (files dev clock d cs).find? (matching f.name) = some rep) :
    ∃ c b pre post as ps bs r, cs = pre ++ c :: post ∧
      entries (readclu dev d c) 0 (maxEntries dev) = as ++ (ps ++ [b]) ++ bs ∧
      IsGroup ps ∧ Tidy as ∧ Tidy bs ∧ isFile b = true ∧
      rep = reportOf clock (groupName ps b) b ∧
      fat32EnumEnt dev clock d { parent with pos := 0 } stack (answer (matching f.name) ret) f =
        stopped dev clock d f c ⟨ret, as.length + ps.length, ps.length, r⟩ := by
  have hl := h.reports_eq clock (show (start stack).nameEntries = 0 from rfl)
  rcases wanted_of_reports (matching f.name) hl with
    ⟨q, b, s, hb, hs, hq, hno, hfound⟩ | ⟨-, hnone⟩
  · obtain ⟨s', hagree⟩ := wanted_iff.mp hq
    obtain ⟨-, hfile, hs', -⟩ := id hagree
    obtain rfl := Option.some.inj (hs.symm.trans hs')
    rw [getD_of_getElem? hb] at hfile
    obtain ⟨c, hget, henum⟩ := h.directory.found clock f hret hagree
      fun p hp t ht => hno p hp (wanted_iff.mpr ⟨t, ht⟩)
    obtain ⟨pre, post, as, ps, bs, hcs, hes, hi, hps, hfit, has, hbs, htake⟩ :=
      h.place hget hb hfile
    -- what the scan has met in front of the parts leaves nothing
    have hfront : Tidy (records dev d pre ++ as) :=
      (tidy_records fun x hx => h.tidy x (by simp [hcs, hx])).append has
    obtain ⟨_, hscan⟩ := hfront.reports clock
    obtain ⟨-, t, ht, hzero⟩ := hscan (start stack) rfl
    rw [htake, after_append, ht, Option.bind_some] at hs
    obtain ⟨hentries, htext⟩ := after_parts hps hfit hzero hs b
    rw [← hi, hentries] at henum
    refine ⟨c, b, pre, post, as, ps, bs, _, hcs, hes, hps, has, hbs, hfile, ?_, henum⟩
    rw [hfind] at hfound
    rw [Option.some.inj hfound, reported_eq, htext]
  · rw [hnone] at hfind
    cases hfind

/-- Removing takes the first file that agrees with the name away, and leaves the order. -/
lemma remove (h : InOrder dev n d parent cs) (clock : Clock) (stack : Stack) (f : FileEnt)
    {rep : Report} (hfind : (files dev clock d cs).find? (matching f.name) = some rep) :
    ∃ d' l₁ l₂, fat32RemoveEnt dev clock d parent stack f = some (0, d') ∧
      InOrder dev n d' parent cs ∧ Kept dev n cs d d' ∧
      files dev clock d cs = l₁ ++ rep :: l₂ ∧ files dev clock d' cs = l₁ ++ l₂ := by
  have hdir := h.directory
  obtain ⟨c, b, pre, post, as, ps, bs, r, rfl, hes, hps, has, hbs, hfile, hrep, henum⟩ :=
    h.found clock stack f (.inr (.inl rfl)) hfind
  have hclu := hdir.proper.length_readclu d (hdir.clusters c (by simp))
  obtain ⟨hole, hhole, hne, hunused⟩ := entries_delete
    (hclu.trans (maxEntries_eq hdir.proper).symm) hes
  have hlen : (deleteEntries (readclu dev d c) (entrySize * (as.length + ps.length))
      ps.length).length = dev.bytPerClu.toNat := (length_deleteEntries ..).trans hclu
  have horder : InOrder dev n (writeclu dev d c (deleteEntries (readclu dev d c)
      (entrySize * (as.length + ps.length)) ps.length)) parent (pre ++ c :: post) := by
    apply h.write hlen
    · rw [hhole]
      exact (has.append (tidy_of_unused hunused)).append hbs
    · rw [hhole]
      have hfew := h.few c (by simp)
      rw [hes] at hfew
      intro x hx
      simp only [List.mem_append] at hx
      rcases hx with (hx | hx) | hx
      · exact hfew x (by simp [hx])
      · exact .inl (hunused x hx)
      · exact hfew x (by simp [hx])
  have hold := Written.records_around pre post hes
  have hnew := Written.records_around_writeclu hdir hlen hhole
  have htidy := tidy_records horder.tidy
  rw [hnew] at htidy
  obtain ⟨l₁, l₂, hreports⟩ := reports_insert clock htidy hne hunused hps hfile
  obtain ⟨hafter, hbefore⟩ := hreports (start noStack) rfl
  refine ⟨_, l₁, l₂, ?_, horder, kept_writeclu hdir.proper (hdir.clusters c (by simp)) (by simp)
    hlen, ?_, ?_⟩
  · rw [stopped_remove, if_neg (by omega), ← removeEnumerator_eq] at henum
    rw [fat32RemoveEnt]
    dsimp only
    rw [henum]
    rfl
  · rw [files, hold, hbefore, Option.getD_some, hrep]
  · rw [files, hnew, hafter, Option.getD_some]

/-- Removing does nothing when no file agrees with the name. -/
lemma remove_none (h : InOrder dev n d parent cs) (clock : Clock) (stack : Stack) (f : FileEnt)
    (hfind : (files dev clock d cs).find? (matching f.name) = none) :
    fat32RemoveEnt dev clock d parent stack f = some (-1, d) := by
  have hl := h.reports_eq clock (show (start stack).nameEntries = 0 from rfl)
  rcases wanted_of_reports (matching f.name) hl with ⟨q, b, s, -, -, -, -, hfound⟩ | ⟨hno, -⟩
  · rw [hfind] at hfound
    cases hfound
  · obtain ⟨s, hs⟩ := after_of_reports hl
    have hmissed := h.directory.remove_missed clock f fun q t ht => hno q (wanted_iff.mpr ⟨t, ht⟩)
    rw [hs] at hmissed
    exact hmissed

/-- Opening takes the first file that agrees with the name. -/
lemma openExisting_eq (h : InOrder dev n d parent cs) (clock : Clock) (stack : Stack) (f : FileEnt)
    (name : List UInt8) : (openExisting dev clock d parent stack f name).map (fun r =>
      (r.1, if r.1 = 0 then some (r.2.data, r.2.size, r.2.attrib) else none)) =
      some (((files dev clock d cs).find? (matching name)).elim (-1, none) fun rep =>
        (0, some (rep.cluster, rep.size, rep.attr))) := by
  have henum := enumEnt_reports h.directory f (matching name)
    (h.reports_eq clock (show (start stack).nameEntries = 0 from rfl))
  rw [← openEnumerator_eq] at henum
  simp only [openExisting]
  rw [henum]
  cases (files dev clock d cs).find? (matching name) <;> rfl

end InOrder

/-! ## Names that agree -/

/-- Names that differ in case only are the same to the comparison. -/
lemma strnicmp_congr {a b b' : List UInt8} (h : SameName b b') : strnicmp a b = strnicmp a b' := by
  induction a generalizing b b' with
  | nil => cases b <;> cases b' <;> rfl
  | cons x a ih =>
    cases b with
    | nil =>
      obtain rfl := List.map_eq_nil_iff.mp h.symm
      rfl
    | cons y b =>
      cases b' with
      | nil => exact absurd h (by simp [SameName])
      | cons y' b' =>
        obtain ⟨hhead, htail⟩ := List.cons.inj h
        rw [strnicmp, strnicmp, hhead, ih htail]

/-- What agrees with a name agrees with its beginning. -/
lemma strnicmp_append {a b : List UInt8} (c : List UInt8) (h : strnicmp a (b ++ c) = 0) :
    strnicmp a b = 0 := by
  induction a generalizing b with
  | nil => cases b <;> rfl
  | cons x a ih =>
    cases b with
    | nil => rfl
    | cons y b =>
      rw [List.cons_append, strnicmp] at h
      rw [strnicmp]
      by_cases hxy : tolower x ≠ tolower y
      · rw [if_pos hxy] at h
        exact absurd h (by decide)
      · rw [if_neg hxy] at h ⊢
        exact ih h

lemma strnicmp_comm (a b : List UInt8) : strnicmp a b = strnicmp b a := by
  induction a generalizing b with
  | nil => cases b <;> rfl
  | cons x a ih =>
    cases b with
    | nil => rfl
    | cons y b =>
      rw [strnicmp, strnicmp, ih b]
      exact if_congr ne_comm rfl rfl

lemma strnicmp_self (a : List UInt8) : strnicmp a a = 0 := by
  induction a with
  | nil => rfl
  | cons x a ih => rw [strnicmp, if_neg (fun h => h rfl), ih]

/-- A name that is the same as that of a file agrees with it. -/
lemma matching_of_same {rep : Report} (h : SameName rep.fname name) : matching name rep = true := by
  rw [matching, decide_eq_true_eq, ← strnicmp_congr h]
  exact strnicmp_self rep.fname

/-! ## Creating -/

/-- A file can be created: its name has one of the forms that are read back, no file agrees with it,
and the search for a short name ends. -/
structure CreateOk (dev : Fat32Dev) (clock : Clock) (d : Store) (parent : File) (cs : List UInt32)
    (stack : ℕ → Stack) (fsave : FileEnt) (addr : UInt32) : Prop where
  room : Room dev d cs fsave
  ascii : IsAscii fsave.name
  low : Low addr fsave.name
  searched : Searched dev clock d parent stack fsave addr
  form : 11 < fsave.name.length ∧ fsave.name.length < 52 ∨
    fsave.name.length ≤ 11 ∧ Fits (isDir fsave) fsave.name
  free : ∀ rep ∈ files dev clock d cs, matching fsave.name rep = false

/-- What a report says of a file besides its name. -/
def info (rep : Report) : UInt32 × UInt32 × UInt32 := (rep.cluster, rep.size, rep.attr)

namespace InOrder
variable {stack : ℕ → Stack} {addr : UInt32} {uni : Option (List UInt8)} {parts : ℕ}
  {sname extention : List UInt8}

/-- What is created of a short name that was found. -/
lemma created_of (h : InOrder dev n d parent cs) (hpos : parent.pos = 0)
    (hroom : Room dev d cs fsave)
    (hnew : NewName dev clock d parent stack fsave addr uni parts sname extention)
    (hfit : (nameRecords uni sname extention parts).length ≤ MAX_LNAME_ENTRIS)
    (hsame : SameName (groupName (nameRecords uni sname extention parts)
      (fileRecord clock fsave sname extention)) fsave.name) :
    ∃ d' l₁ l₂ rep, fat32CreateEnt dev clock d parent stack fsave addr = some (0, d') ∧
      InOrder dev n d' parent cs ∧ Kept dev n cs d d' ∧ files dev clock d cs = l₁ ++ l₂ ∧
      files dev clock d' cs = l₁ ++ rep :: l₂ ∧ SameName rep.fname fsave.name ∧
      info rep = (fsave.data, fsave.size, fsave.attrib &&& 0xf) := by
  obtain ⟨d', hcreate, l₁, l₂, hl⟩ := created_spec h.directory hpos (tidy_records h.tidy) hroom
    hnew
  obtain ⟨horder, hkept⟩ := h.create hpos hroom hnew hfit hcreate
  obtain ⟨hold, hafter⟩ := hl (start noStack) rfl
  obtain ⟨hcluster, hsize, hattr⟩ := reportOf_fileRecord clock fsave hnew.name hnew.ext
    (groupName (nameRecords uni sname extention parts) (fileRecord clock fsave sname extention))
  refine ⟨d', l₁, l₂, reportOf clock (groupName (nameRecords uni sname extention parts)
    (fileRecord clock fsave sname extention)) (fileRecord clock fsave sname extention), hcreate,
    horder, hkept, ?_, ?_, hsame, ?_⟩
  · rw [files, hold, Option.getD_some]
  · rw [files, hafter, Option.getD_some]
  · rw [info, hcluster, hsize, hattr]

/-- Creating puts a file with this name between the others, and leaves the order. -/
lemma created (h : InOrder dev n d parent cs) (hpos : parent.pos = 0)
    (hok : CreateOk dev clock d parent cs stack fsave addr) :
    ∃ d' l₁ l₂ rep, fat32CreateEnt dev clock d parent stack fsave addr = some (0, d') ∧
      InOrder dev n d' parent cs ∧ Kept dev n cs d d' ∧ files dev clock d cs = l₁ ++ l₂ ∧
      files dev clock d' cs = l₁ ++ rep :: l₂ ∧ SameName rep.fname fsave.name ∧
      info rep = (fsave.data, fsave.size, fsave.attrib &&& 0xf) := by
  have hopens := fun fuel s => @opened_eq dev n clock d cs parent fsave stack
    (files dev clock d cs) h.directory (fun st hst => h.reports_eq clock hst) fuel s
  obtain ⟨⟨sname, extention⟩, hshort⟩ := Option.isSome_iff_exists.mp hok.searched
  obtain ⟨hname, hext, hfirst⟩ := searched_trial hopens hok.low hok.ascii hshort
  have hmax : MAX_LNAME_ENTRIS = 4 := rfl
  rcases hok.form with ⟨hlong, hlen⟩ | ⟨hle, hfits⟩
  · have hcount : entryCount fsave.name = fsave.name.length / 13 + 1 + 1 := if_pos hlong
    have hform : nameForm fsave.name =
        some (some (uniBuffer fsave.name), entryCount fsave.name) := by
      rw [nameForm_long hok.ascii hlong (by omega), hcount]
    obtain ⟨hparts, hgroup, hread⟩ := uniBuffer_group hok.ascii hlong hlen sname extention
      (fileRecord clock fsave sname extention)
    refine h.created_of hpos hok.room
      ⟨hform, hcount, hparts, hshort, hname, hext, hfirst, hgroup⟩ ?_
      (congrArg (List.map tolower) hread)
    have hlength : (nameRecords (some (uniBuffer fsave.name)) sname extention
        (fsave.name.length / 13 + 1)).length = fsave.name.length / 13 + 1 :=
      length_partRecords _ _ _ _
    rw [hlength]
    omega
  · have hcount : entryCount fsave.name = 0 + 1 := if_neg (Nat.not_lt.mpr hle)
    have hform : nameForm fsave.name = some (none, entryCount fsave.name) := by
      rw [nameForm_short hle, hcount]
    -- the first short name that is tried is the name, with a dot behind it if it is of a directory
    obtain ⟨sname', extention', passed, hfirstTry, -⟩ := shortname_trial hok.low 126 49
    have hsame := (same_iff_fits hok.ascii hok.low hfirstTry).mpr hfits
    have hfree : (files dev clock d cs).any (matching (shown false sname' extention')) = false := by
      rw [List.any_eq_false]
      intro rep hrep hmatch
      have hno := hok.free rep hrep
      rw [matching, decide_eq_true_eq] at hmatch
      rw [matching, decide_eq_false_iff_not, ← strnicmp_congr hsame] at hno
      apply hno
      rw [shown]
      split
      · rw [List.append_nil]
        exact strnicmp_append _ hmatch
      · exact hmatch
    have hbuild := @buildShortname_free addr fsave.name 126 49 sname' extention' passed _ _
      (addressSpace - 1) hopens hfirstTry hfree
    rw [show addressSpace - 1 + 1 = addressSpace by rw [addressSpace]] at hbuild
    obtain ⟨rfl, rfl⟩ := Prod.mk.inj (Option.some.inj (hbuild.symm.trans hshort))
    refine h.created_of hpos hok.room
      ⟨hform, hcount, rfl, hshort, hname, hext, hfirst, isGroup_nil⟩ (Nat.zero_le _) ?_
    rw [nameRecords, Option.elim_none, groupName, if_pos (.inl rfl),
      shortname_fileRecord clock fsave hname hext]
    exact hsame

end InOrder

/-! ## The map -/

/-- A name without its case. -/
def key (name : List UInt8) : List UInt8 := name.map tolower

/-- The file is the one of a key. -/
def hasKey (k : List UInt8) (rep : Report) : Bool := key rep.fname = k

/-- A file for a name: its first cluster, its size and its attributes. -/
abbrev Map := List UInt8 → Option (UInt32 × UInt32 × UInt32)

/-- The map of files of which no two have names that agree. -/
structure Represents (l : List Report) (m : Map) : Prop where
  apart : l.Pairwise fun r r' => strnicmp r.fname r'.fname ≠ 0
  entry : ∀ k, m k = (l.find? (hasKey k)).map info

/-- The files that agree with a name have it. -/
def Exact (l : List Report) (name : List UInt8) : Prop :=
  ∀ rep ∈ l, matching name rep = true → SameName rep.fname name

variable {l l₁ l₂ : List Report} {m : Map} {rep : Report} {k : List UInt8}

lemma hasKey_iff : hasKey k rep = true ↔ key rep.fname = k := decide_eq_true_iff

lemma find_exact (h : Exact l name) : l.find? (matching name) = l.find? (hasKey (key name)) := by
  apply List.find?_congr
  intro rep hrep
  rw [Bool.eq_iff_iff, hasKey_iff]
  exact ⟨h rep hrep, matching_of_same⟩

/-- No file that is apart from a name has its key. -/
lemma find_free (h : ∀ r ∈ l, matching name r = false) : l.find? (hasKey (key name)) = none := by
  rw [List.find?_eq_none]
  intro r hr he
  have hmatch := h r hr
  rw [matching_of_same (hasKey_iff.mp he)] at hmatch
  cases hmatch

/-- A file among others does not matter to the other keys. -/
lemma find_middle (hk : k ≠ key rep.fname) :
    (l₁ ++ rep :: l₂).find? (hasKey k) = (l₁ ++ l₂).find? (hasKey k) := by
  rw [List.find?_append, List.find?_append, List.find?_cons_of_neg]
  rw [hasKey_iff]
  exact Ne.symm hk

lemma Represents.insert (h : Represents (l₁ ++ l₂) m)
    (hfree : ∀ r ∈ l₁ ++ l₂, matching name r = false) (hsame : SameName rep.fname name) :
    Represents (l₁ ++ rep :: l₂) (Function.update m (key name) (some (info rep))) := by
  have hkey : key rep.fname = key name := hsame
  constructor
  · rw [List.pairwise_middle fun hab => by rwa [strnicmp_comm], List.pairwise_cons]
    refine ⟨fun r hr he => ?_, h.apart⟩
    have hmatch := hfree r hr
    rw [matching, decide_eq_false_iff_not, ← strnicmp_congr hsame, strnicmp_comm] at hmatch
    exact hmatch he
  · intro k
    by_cases hk : k = key name
    · subst hk
      have hfront := find_free fun r hr => hfree r (List.mem_append_left l₂ hr)
      rw [Function.update_self, List.find?_append, hfront, Option.none_or,
        List.find?_cons_of_pos (hasKey_iff.mpr hkey), Option.map_some]
    · rw [Function.update_of_ne hk, h.entry, find_middle (hkey ▸ hk)]

lemma Represents.erase (h : Represents (l₁ ++ rep :: l₂) m) :
    Represents (l₁ ++ l₂) (Function.update m (key rep.fname) none) := by
  have hapart := h.apart
  rw [List.pairwise_middle fun hab => by rwa [strnicmp_comm], List.pairwise_cons] at hapart
  refine ⟨hapart.2, fun k => ?_⟩
  by_cases hk : k = key rep.fname
  · subst hk
    have hnone : (l₁ ++ l₂).find? (hasKey (key rep.fname)) = none := by
      apply find_free
      intro r hr
      rw [matching, decide_eq_false_iff_not, strnicmp_comm]
      exact hapart.1 r hr
    rw [Function.update_self, hnone, Option.map_none]
  · rw [Function.update_of_ne hk, h.entry, find_middle hk]

/-! ## Calls -/

/-- Calls on the files of a directory, with what the locals hold. -/
inductive Event
  | create (fsave : FileEnt) (addr : UInt32) (stack : ℕ → Stack)
  | remove (f : FileEnt) (stack : Stack)
  | openFile (f : FileEnt) (name : List UInt8) (stack : Stack)
  | rename (f : FileEnt) (name : List UInt8) (addr : UInt32) (stackOpen stackRemove : Stack)
      (stack : ℕ → Stack)

/-- What is returned, and what was opened; there is no answer when a call does not return. -/
abbrev Answer := Option (Int32 × Option (UInt32 × UInt32 × UInt32))

/-- The store after a call that returned. -/
def stored (d : Store) (r : Option (Int32 × Store)) : Answer × Store :=
  (r.map fun x => (x.1, none), (r.map Prod.snd).getD d)

def call (dev : Fat32Dev) (clock : Clock) (parent : File) (d : Store) : Event → Answer × Store
  | .create fsave addr stack => stored d (fat32CreateEnt dev clock d parent stack fsave addr)
  | .remove f stack => stored d (fat32RemoveEnt dev clock d parent stack f)
  | .openFile f name stack =>
    ((openExisting dev clock d parent stack f name).map fun r =>
      (r.1, if r.1 = 0 then some (r.2.data, r.2.size, r.2.attrib) else none), d)
  | .rename f name addr stackOpen stackRemove stack =>
    stored d ((fat32Rename dev clock d parent stackOpen stackRemove stack f name addr).map fun r =>
      (r.1, r.2.2))

/-- The same calls on the map. -/
def Map.call (m : Map) : Event → Answer × Map
  | .create fsave _ _ => (some (0, none), Function.update m (key fsave.name)
      (some (fsave.data, fsave.size, fsave.attrib &&& 0xf)))
  | .remove f _ =>
    if (m (key f.name)).isSome then (some (0, none), Function.update m (key f.name) none)
    else (some (-1, none), m)
  | .openFile _ name _ =>
    (some ((m (key name)).elim (-1, none) fun file => (0, some file)), m)
  | .rename f name _ _ _ _ =>
    if (m (key name)).isSome || (m (key f.name)).isNone then (some (-1, none), m)
    else (some (0, none), Function.update (Function.update m (key f.name) none) (key name)
      (some (f.data, f.size, f.attrib &&& 0xf)))

/-- The files that are asked for are there under the very name, or no name agrees; a file is created
where it can be. -/
def Allowed (dev : Fat32Dev) (clock : Clock) (parent : File) (cs : List UInt32) (d : Store) :
    Event → Prop
  | .create fsave addr stack => CreateOk dev clock d parent cs stack fsave addr
  | .remove f _ => Exact (files dev clock d cs) f.name
  | .openFile _ name _ => Exact (files dev clock d cs) name
  | .rename f name addr _ stackRemove stack =>
    Exact (files dev clock d cs) name ∧ Exact (files dev clock d cs) f.name ∧
      ∀ d', fat32RemoveEnt dev clock d parent stackRemove f = some (0, d') →
        CreateOk dev clock d' parent cs stack { f with name := name } addr

/-- The directory is in order and its files are the map. -/
structure Holds (dev : Fat32Dev) (n : ℕ) (clock : Clock) (parent : File) (cs : List UInt32)
    (d : Store) (m : Map) : Prop where
  inOrder : InOrder dev n d parent cs
  represents : Represents (files dev clock d cs) m

namespace Holds

/-- A file is found by a name exactly if the map has it. -/
lemma find_eq (h : Holds dev n clock parent cs d m) (hexact : Exact (files dev clock d cs) name) :
    m (key name) = ((files dev clock d cs).find? (matching name)).map info := by
  rw [find_exact hexact]
  exact h.represents.entry (key name)

lemma create (h : Holds dev n clock parent cs d m) (hpos : parent.pos = 0) {stack : ℕ → Stack}
    {addr : UInt32} (hok : CreateOk dev clock d parent cs stack fsave addr) :
    ∃ d', fat32CreateEnt dev clock d parent stack fsave addr = some (0, d') ∧
      Kept dev n cs d d' ∧ Holds dev n clock parent cs d' (Function.update m (key fsave.name)
        (some (fsave.data, fsave.size, fsave.attrib &&& 0xf))) := by
  obtain ⟨d', l₁, l₂, rep, hcreate, horder, hkept, hold, hnew, hsame, hinfo⟩ :=
    h.inOrder.created hpos hok
  have hrep := h.represents
  have hfree := hok.free
  rw [hold] at hrep hfree
  refine ⟨d', hcreate, hkept, horder, ?_⟩
  rw [hnew, ← hinfo]
  exact hrep.insert hfree hsame

lemma remove_some (h : Holds dev n clock parent cs d m)
    (hexact : Exact (files dev clock d cs) f.name)
    (hsome : (m (key f.name)).isSome = true) (stack : Stack) :
    ∃ d', fat32RemoveEnt dev clock d parent stack f = some (0, d') ∧ Kept dev n cs d d' ∧
      Holds dev n clock parent cs d' (Function.update m (key f.name) none) := by
  rw [h.find_eq hexact, Option.isSome_map] at hsome
  obtain ⟨rep, hfind⟩ := Option.isSome_iff_exists.mp hsome
  obtain ⟨d', l₁, l₂, hremove, horder, hkept, hold, hnew⟩ := h.inOrder.remove clock stack f hfind
  have hsame : key rep.fname = key f.name :=
    hexact rep (List.mem_of_find?_eq_some hfind) (List.find?_some hfind)
  have hrep := h.represents
  rw [hold] at hrep
  refine ⟨d', hremove, hkept, horder, ?_⟩
  rw [hnew, ← hsame]
  exact hrep.erase

lemma remove_none (h : Holds dev n clock parent cs d m)
    (hexact : Exact (files dev clock d cs) f.name)
    (hnone : (m (key f.name)).isSome = false) (stack : Stack) :
    fat32RemoveEnt dev clock d parent stack f = some (-1, d) := by
  rw [h.find_eq hexact, Option.isSome_map, Option.isSome_eq_false_iff, Option.isNone_iff_eq_none]
    at hnone
  exact h.inOrder.remove_none clock stack f hnone

/-- A name that a file has is not given to another one. -/
lemma rename_taken (h : Holds dev n clock parent cs d m) {stackOpen stackRemove : Stack}
    {stack : ℕ → Stack} {addr : UInt32} (hexact : Exact (files dev clock d cs) name)
    (hsome : (m (key name)).isSome = true) :
    fat32Rename dev clock d parent stackOpen stackRemove stack f name addr = some (-1, f, d) := by
  have hopen := h.inOrder.openExisting_eq clock stackOpen { f with flag := 0 } name
  obtain ⟨⟨ret, f'⟩, hf', hret⟩ := Option.map_eq_some_iff.mp hopen
  rw [h.find_eq hexact, Option.isSome_map] at hsome
  obtain ⟨rep, hfind⟩ := Option.isSome_iff_exists.mp hsome
  rw [hfind] at hret
  obtain rfl : ret = 0 := congrArg Prod.fst hret
  simp only [fat32Rename, hf', Option.bind_eq_bind, Option.bind_some, if_true]

/-- When no file has the name, the old entry is looked for. -/
lemma rename_eq (h : Holds dev n clock parent cs d m) (hpos : parent.pos = 0)
    {stackOpen stackRemove : Stack} {stack : ℕ → Stack} {addr : UInt32}
    (hexact : Exact (files dev clock d cs) name) (hnone : m (key name) = none) :
    fat32Rename dev clock d parent stackOpen stackRemove stack f name addr =
      (fat32RemoveEnt dev clock d parent stackRemove f).bind fun r =>
        if r.1 < 0 then some (-1, f, r.2)
        else (fat32CreateEnt dev clock r.2 parent stack { f with name := name } addr).bind fun r =>
          some (if r.1 < 0 then -1 else 0, { f with name := name }, r.2) := by
  have hparent : { parent with pos := 0 } = parent := by
    rw [← hpos]
  have hopen := h.inOrder.openExisting_eq clock stackOpen { f with flag := 0 } name
  obtain ⟨⟨ret, f'⟩, hf', hret⟩ := Option.map_eq_some_iff.mp hopen
  rw [h.find_eq hexact, Option.map_eq_none_iff] at hnone
  rw [hnone] at hret
  obtain rfl : ret = -1 := congrArg Prod.fst hret
  have hne : ¬(-1 : Int32) = 0 := by decide
  simp only [fat32Rename, hf', hparent, Option.bind_eq_bind, Option.bind_some, if_neg hne]

/-- A file without an entry is not renamed. -/
lemma rename_missing (h : Holds dev n clock parent cs d m) (hpos : parent.pos = 0)
    {stackOpen stackRemove : Stack} {stack : ℕ → Stack} {addr : UInt32}
    (hexact : Exact (files dev clock d cs) name) (hold : Exact (files dev clock d cs) f.name)
    (hnone : m (key name) = none) (hm : (m (key f.name)).isSome = false) :
    fat32Rename dev clock d parent stackOpen stackRemove stack f name addr = some (-1, f, d) := by
  have hneg : (-1 : Int32) < 0 := by decide
  rw [h.rename_eq hpos hexact hnone, h.remove_none hold hm, Option.bind_some, if_pos hneg]

/-- The entry of a file is exchanged for one under the new name. -/
lemma rename_some (h : Holds dev n clock parent cs d m) (hpos : parent.pos = 0)
    {stackRemove : Stack} {stack : ℕ → Stack} {addr : UInt32}
    (hexact : Exact (files dev clock d cs) name) (hold : Exact (files dev clock d cs) f.name)
    (hnone : m (key name) = none) (hm : (m (key f.name)).isSome = true)
    (hok : ∀ d', fat32RemoveEnt dev clock d parent stackRemove f = some (0, d') →
      CreateOk dev clock d' parent cs stack { f with name := name } addr) (stackOpen : Stack) :
    ∃ d', fat32Rename dev clock d parent stackOpen stackRemove stack f name addr =
        some (0, { f with name := name }, d') ∧ Kept dev n cs d d' ∧
      Holds dev n clock parent cs d' (Function.update (Function.update m (key f.name) none)
        (key name) (some (f.data, f.size, f.attrib &&& 0xf))) := by
  obtain ⟨d₁, hremove, hkept₁, hmid⟩ := h.remove_some hold hm stackRemove
  obtain ⟨d₂, hcreate, hkept₂, hlast⟩ := hmid.create hpos (hok d₁ hremove)
  have hzero : ¬(0 : Int32) < 0 := by decide
  refine ⟨d₂, ?_, hkept₁.trans hkept₂, hlast⟩
  rw [h.rename_eq hpos hexact hnone, hremove, Option.bind_some, if_neg hzero, hcreate,
    Option.bind_some, if_neg hzero]

lemma rename (h : Holds dev n clock parent cs d m) (hpos : parent.pos = 0)
    {addr : UInt32} {stackOpen stackRemove : Stack} {stack : ℕ → Stack}
    (hok : Allowed dev clock parent cs d (.rename f name addr stackOpen stackRemove stack)) :
    let r := call dev clock parent d (.rename f name addr stackOpen stackRemove stack)
    let r' := m.call (.rename f name addr stackOpen stackRemove stack)
    r.1 = r'.1 ∧ Holds dev n clock parent cs r.2 r'.2 := by
  obtain ⟨hexact, hold, hcreate⟩ := hok
  simp only [Catalog.call, Map.call]
  cases hname : m (key name) with
  | some file =>
    rw [h.rename_taken hexact (by rw [hname, Option.isSome_some])]
    exact ⟨rfl, h⟩
  | none =>
    cases hm : (m (key f.name)).isSome with
    | true =>
      obtain ⟨d', hrename, -, hnext⟩ := h.rename_some hpos hexact hold hname hm hcreate
        stackOpen
      rw [hrename, Option.isNone_eq_false_iff.mpr hm]
      exact ⟨rfl, hnext⟩
    | false =>
      rw [h.rename_missing hpos hexact hold hname hm, ← Option.not_isSome, hm]
      exact ⟨rfl, h⟩

/-- Each call is answered as the map answers it. -/
lemma call (h : Holds dev n clock parent cs d m) (hpos : parent.pos = 0) {e : Event}
    (hok : Allowed dev clock parent cs d e) :
    (Catalog.call dev clock parent d e).1 = (m.call e).1 ∧
      Holds dev n clock parent cs (Catalog.call dev clock parent d e).2 (m.call e).2 := by
  cases e with
  | create fsave addr stack =>
    obtain ⟨d', hcreate, -, hnext⟩ := h.create hpos hok
    simp only [Catalog.call, Map.call, stored, hcreate, Option.map_some, Option.getD_some]
    exact ⟨trivial, hnext⟩
  | remove f stack =>
    cases hm : (m (key f.name)).isSome with
    | true =>
      obtain ⟨d', hremove, -, hnext⟩ := h.remove_some hok hm stack
      simp only [Catalog.call, Map.call, stored, hremove, hm, if_true, Option.map_some,
        Option.getD_some]
      exact ⟨trivial, hnext⟩
    | false =>
      have hremove := h.remove_none hok hm stack
      simp only [Catalog.call, Map.call, stored, hremove, hm, if_false, Option.map_some,
        Option.getD_some, Bool.false_eq_true]
      exact ⟨trivial, h⟩
  | openFile f name stack =>
    refine ⟨?_, h⟩
    simp only [Catalog.call, Map.call]
    rw [h.inOrder.openExisting_eq, h.find_eq hok]
    cases (files dev clock d cs).find? (matching name) <;> rfl
  | rename f name addr stackOpen stackRemove stack => exact h.rename hpos hok

end Holds

/-- Over every run of allowed calls the directory answers as the map of its files does, and is in
order and represents the map afterwards. -/
theorem run_answers (h : Holds dev n clock parent cs d m) (hpos : parent.pos = 0) {es : List Event}
    (hes : Guarded (next (call dev clock parent)) (Allowed dev clock parent cs) d es) :
    outputs (call dev clock parent) d es = outputs Map.call m es ∧
      Holds dev n clock parent cs (run (next (call dev clock parent)) d es)
        (run (next Map.call) m es) :=
  hes.simulation (Holds dev n clock parent cs) (fun _ _ _ hh hok => hh.call hpos hok) h

/-! ## An empty directory -/

lemma empty_holds : Holds smallDev 4 noClock fooDir [2] smallStore fun _ => none := by
  have hfiles : files smallDev noClock smallStore [2] = [] := by decide +kernel
  have hunused : (entries (readclu smallDev smallStore 2) 0 (maxEntries smallDev)).all
      unused = true := by decide +kernel
  have hentries := List.all_eq_true.mp hunused
  refine ⟨⟨empty_directory, fun c hc => ?_, fun c hc => ?_⟩, ?_⟩
  · obtain rfl := List.mem_singleton.mp hc
    exact tidy_of_unused hentries
  · obtain rfl := List.mem_singleton.mp hc
    exact fun b hb => .inl (hentries b hb)
  · rw [hfiles]
    exact ⟨.nil, fun _ => rfl⟩

/-- A new file `foo.txt`. -/
def fooFile : FileEnt := newFile [102, 111, 111, 46, 116, 120, 116]

lemma foo_createOk : CreateOk smallDev noClock smallStore fooDir [2] (fun _ => noStack) fooFile
    4096 where
  room := empty_room _ (by decide)
  ascii := by
    rw [IsAscii]
    simp [fooFile, newFile]
  low := by
    rw [Low]
    decide
  searched := by
    rw [Searched]
    decide +kernel
  form := .inr ⟨by decide, by decide, [102, 111, 111], [116, 120, 116], rfl, by decide, by decide,
    by decide⟩
  free := by decide +kernel

/-- `foo.txt` is created, opened as `FOO.TXT`, and removed. -/
theorem run_answers_foo :
    let es := [.create fooFile 4096 fun _ => noStack,
      .openFile fooFile [70, 79, 79, 46, 84, 88, 84] noStack, .remove fooFile noStack]
    outputs (call smallDev noClock fooDir) smallStore es = outputs Map.call (fun _ => none) es ∧
      Holds smallDev 4 noClock fooDir [2] (run (next (call smallDev noClock fooDir)) smallStore es)
        (run (next Map.call) (fun _ => none) es) := by
  refine run_answers empty_holds rfl ⟨foo_createOk, ?_, ?_, trivial⟩
  · simp only [Allowed, Exact, SameName]
    decide +kernel
  · simp only [Allowed, Exact, SameName]
    decide +kernel

end Catalog
end Sgos.Fat32
