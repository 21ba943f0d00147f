import Sgos.Fat32Chain
import Sgos.Fat32Directory

/-!
# Scanning a directory

`fat32_enum_ent` goes over the entries of all clusters of a directory and stops at the first file
that its enumerator wants. What it has collected of long names is carried from entry to entry, and
from cluster to cluster.
-/
namespace Sgos.Fat32
open ByteStore

namespace Scan

/-- An entry of a file: used, and not a part of a long name. -/
def isFile (b : List UInt8) : Bool := !unused b && !FAT32_IS_LNAME (FAT32_ENTRY.ofBytes b).attrib

/-- Past an entry that is not asked for. -/
def step (st : Scan) (b : List UInt8) : Option Scan :=
  if unused b then some st
  else if FAT32_IS_LNAME (FAT32_ENTRY.ofBytes b).attrib then
    st.nameEntry (FAT32_NAME_ENTRY.ofBytes b)
  else some { st with fname := st.fill (FAT32_ENTRY.ofBytes b), nameEntries := 0 }

/-- Past several entries. -/
def after (st : Scan) (bs : List (List UInt8)) : Option Scan := bs.foldlM step st

/-- What is reported of a file. -/
def reported (clock : Clock) (st : Scan) (b : List UInt8) : Report :=
  report clock (st.fill (FAT32_ENTRY.ofBytes b)) (FAT32_ENTRY.ofBytes b)

/-- The enumerator wants the file that is entry `q`, if the scan gets there. -/
def Wanted (clock : Clock) (want : Report → Bool) (st : Scan) (bs : List (List UInt8)) (q : ℕ) :
    Prop :=
  ∃ b s, bs[q]? = some b ∧ isFile b = true ∧ after st (bs.take q) = some s ∧
    want (reported clock s b) = true

variable {clock : Clock} {want : Report → Bool} {st s : Scan} {b : List UInt8}
  {bs bs' : List (List UInt8)} {q : ℕ}

lemma after_nil (st : Scan) : after st [] = some st := rfl

lemma after_cons (st : Scan) (b : List UInt8) (bs : List (List UInt8)) :
    after st (b :: bs) = (step st b).bind fun s => after s bs := List.foldlM_cons

lemma after_append (st : Scan) (bs bs' : List (List UInt8)) :
    after st (bs ++ bs') = (after st bs).bind fun s => after s bs' := List.foldlM_append

lemma wanted_zero : Wanted clock want st (b :: bs) 0 ↔
    isFile b = true ∧ want (reported clock st b) = true := by
  constructor
  · rintro ⟨b', s, hb, hfile, hs, hwant⟩
    obtain rfl : b = b' := Option.some.inj hb
    obtain rfl : st = s := Option.some.inj hs
    exact ⟨hfile, hwant⟩
  · rintro ⟨hfile, hwant⟩
    exact ⟨b, st, rfl, hfile, rfl, hwant⟩

lemma Wanted.lt (h : Wanted clock want st bs q) : q < bs.length := by
  obtain ⟨b, s, hb, -⟩ := h
  exact (List.getElem?_eq_some_iff.mp hb).1

lemma wanted_succ (hstep : step st b = some s) :
    Wanted clock want st (b :: bs) (q + 1) ↔ Wanted clock want s bs q := by
  simp only [Wanted, List.getElem?_cons_succ, List.take_succ_cons, after_cons, hstep,
    Option.bind_some]

lemma not_wanted_succ (hstep : step st b = none) : ¬Wanted clock want st (b :: bs) (q + 1) := by
  rintro ⟨b', s, -, -, hs, -⟩
  rw [List.take_succ_cons, after_cons, hstep] at hs
  cases hs

/-- The entries behind others are wanted from the state behind those. -/
lemma wanted_append (hs : after st bs = some s) :
    Wanted clock want st (bs ++ bs') (bs.length + q) ↔ Wanted clock want s bs' q := by
  simp only [Wanted, List.getElem?_append_right (Nat.le_add_right _ _), Nat.add_sub_cancel_left,
    List.take_length_add_append, after_append, hs, Option.bind_some]

lemma wanted_append_left (hq : q < bs.length) :
    Wanted clock want st (bs ++ bs') q ↔ Wanted clock want st bs q := by
  simp only [Wanted, List.getElem?_append_left hq, List.take_append_of_le_length hq.le]

/-- The answer of an enumerator that wants some files. -/
def answer (want : Report → Bool) (ret : Int32) (rep : Report) : Int32 := if want rep then ret else 0

/-! ## The entries of a cluster -/

lemma enumClu_here {ret : Int32} (hret : ret = 1 ∨ ret = 2 ∨ ret = 3) (i : ℕ)
    (h : Wanted clock want st (b :: bs) 0) :
    enumClu clock (answer want ret) st i (b :: bs) =
      some (.ok ⟨ret, i, st.nameEntries, reported clock st b⟩) := by
  obtain ⟨hfile, hwant⟩ := wanted_zero.mp h
  simp only [isFile, Bool.and_eq_true, Bool.not_eq_true'] at hfile
  obtain ⟨hused, hname⟩ := hfile
  rw [reported] at hwant
  rw [enumClu]
  simp only [hused, hname, Bool.false_eq_true, if_false, answer, hwant, if_true, if_pos hret,
    reported]

lemma enumClu_step (ret : Int32) (i : ℕ) (hstep : step st b = some s)
    (h : ¬Wanted clock want st (b :: bs) 0) :
    enumClu clock (answer want ret) st i (b :: bs) =
      enumClu clock (answer want ret) s (i + 1) bs := by
  rw [wanted_zero, not_and, isFile, reported] at h
  rw [step] at hstep
  rw [enumClu]
  by_cases hused : unused b = true
  · rw [if_pos hused] at hstep ⊢
    rw [Option.some.inj hstep]
  · rw [if_neg hused] at hstep ⊢
    by_cases hname : FAT32_IS_LNAME (FAT32_ENTRY.ofBytes b).attrib = true
    · rw [if_pos hname] at hstep ⊢
      rw [hstep, Option.bind_eq_bind, Option.bind_some]
    · rw [if_neg hname] at hstep ⊢
      have hwant := h (by simp [hused, hname])
      have hzero : ¬((0 : Int32) = 1 ∨ (0 : Int32) = 2 ∨ (0 : Int32) = 3) := by decide
      simp only [answer, hwant, Bool.false_eq_true, if_false, hzero, Option.some.inj hstep]

lemma enumClu_stuck (enumerator : Report → Int32) (i : ℕ) (hstep : step st b = none) :
    enumClu clock enumerator st i (b :: bs) = none := by
  rw [step] at hstep
  rw [enumClu]
  split_ifs at hstep ⊢
  rw [hstep]
  rfl

/-- The loop over a cluster stops at the first file that is wanted. -/
lemma enumClu_found {ret : Int32} (hret : ret = 1 ∨ ret = 2 ∨ ret = 3) (i : ℕ)
    (hb : bs[q]? = some b) (hs : after st (bs.take q) = some s)
    (hq : Wanted clock want st bs q) (hfirst : ∀ p < q, ¬Wanted clock want st bs p) :
    enumClu clock (answer want ret) st i bs =
      some (.ok ⟨ret, i + q, s.nameEntries, reported clock s b⟩) := by
  induction bs generalizing st i q with
  | nil => cases hb
  | cons a bs ih =>
    cases q with
    | zero =>
      obtain rfl : a = b := Option.some.inj hb
      obtain rfl : st = s := Option.some.inj hs
      exact enumClu_here hret i hq
    | succ q =>
      cases hstep : step st a with
      | none => exact absurd hq (not_wanted_succ hstep)
      | some s' =>
        rw [List.take_succ_cons, after_cons, hstep, Option.bind_some] at hs
        rw [enumClu_step ret i hstep (hfirst 0 q.succ_pos),
          ih (i + 1) hb hs ((wanted_succ hstep).mp hq) fun p hp hwant =>
            hfirst (p + 1) (Nat.succ_lt_succ hp) ((wanted_succ hstep).mpr hwant),
          Nat.add_assoc, Nat.add_comm 1 q]

/-- If no file is wanted, the loop goes over all of them. -/
lemma enumClu_end (ret : Int32) (i : ℕ) (h : ∀ q, ¬Wanted clock want st bs q) :
    enumClu clock (answer want ret) st i bs = (after st bs).map .error := by
  induction bs generalizing st i with
  | nil => rfl
  | cons a bs ih =>
    rw [after_cons]
    cases hstep : step st a with
    | none =>
      rw [enumClu_stuck _ i hstep]
      rfl
    | some s =>
      rw [enumClu_step ret i hstep (h 0), Option.bind_some]
      exact ih (i + 1) fun q hwant => h (q + 1) ((wanted_succ hstep).mpr hwant)

/-! ## The clusters of a directory -/

/-- The entries that a cluster has. -/
def maxEntries (dev : Fat32Dev) : ℕ := dev.bytPerClu.toNat / entrySize

/-- The entries of the clusters `cs`. -/
def records (dev : Fat32Dev) (d : Store) (cs : List UInt32) : List (List UInt8) :=
  cs.flatMap fun c => entries (readclu dev d c) 0 (maxEntries dev)

/-- What a scan returns that has stopped in the cluster `c`. -/
def stopped (dev : Fat32Dev) (clock : Clock) (d : Store) (fNew : FileEnt) (c : UInt32)
    (stop : Stop) : Option (Int32 × Option Report × Store) :=
  (enumStop clock fNew (readclu dev d c) 0 stop).map fun r =>
    (stop.ret, some stop.rep, r.elim d (writeclu dev d c))

variable {dev : Fat32Dev} {d : Store} {c e : UInt32} {cs : List UInt32} {fNew : FileEnt}

lemma length_entries (data : List UInt8) (pos k : ℕ) : (entries data pos k).length = k := by
  simp [entries]

lemma records_cons (c : UInt32) (cs : List UInt32) : records dev d (c :: cs) =
    entries (readclu dev d c) 0 (maxEntries dev) ++ records dev d cs := List.flatMap_cons

lemma records_getElem? (hmax : 0 < maxEntries dev) (q : ℕ) : (records dev d cs)[q]? =
    cs[q / maxEntries dev]?.map fun c =>
      field (readclu dev d c) (entrySize * (q % maxEntries dev)) entrySize := by
  induction cs generalizing q with
  | nil => simp [records]
  | cons c cs ih =>
    rw [records_cons]
    by_cases hq : q < maxEntries dev
    · rw [List.getElem?_append_left (by rwa [length_entries]), Nat.div_eq_of_lt hq,
        Nat.mod_eq_of_lt hq]
      simp [entries, hq]
    · obtain ⟨k, rfl⟩ := Nat.exists_eq_add_of_le (Nat.le_of_not_lt hq)
      rw [List.getElem?_append_right (by rw [length_entries]; exact Nat.le_add_right _ _),
        length_entries, Nat.add_sub_cancel_left, ih, Nat.add_div_left _ hmax, Nat.add_mod_left,
        List.getElem?_cons_succ]

/-- One turn of the loop over the clusters. -/
lemma enumLoop_error (enumerator : Report → Int32) (fuel : ℕ)
    (h : enumClu clock enumerator st 0 (entries (readclu dev d c) 0 (maxEntries dev)) =
      some (.error s)) :
    enumLoop dev clock d enumerator fNew (fuel + 1) st c 0 =
      if IS_FAT32CLU_INUSE (nextclu dev d c) then
        enumLoop dev clock d enumerator fNew fuel s (nextclu dev d c) 0
      else some (-1, none, d) := by
  rw [maxEntries] at h
  rw [enumLoop]
  dsimp only
  rw [h, Option.bind_eq_bind, Option.bind_some]

lemma enumLoop_ok (enumerator : Report → Int32) (fuel : ℕ) {stop : Stop}
    (h : enumClu clock enumerator st 0 (entries (readclu dev d c) 0 (maxEntries dev)) =
      some (.ok stop)) :
    enumLoop dev clock d enumerator fNew (fuel + 1) st c 0 = stopped dev clock d fNew c stop := by
  rw [maxEntries] at h
  rw [enumLoop]
  dsimp only
  rw [h, Option.bind_eq_bind, Option.bind_some, stopped]
  dsimp only
  cases enumStop clock fNew (readclu dev d c) 0 stop with
  | none => rfl
  | some r => cases r <;> rfl

/-- The scan of a directory stops at the first file that is wanted. -/
theorem enumLoop_found {ret : Int32} (hret : ret = 1 ∨ ret = 2 ∨ ret = 3)
    (hmax : 0 < maxEntries dev) {fuel : ℕ} (hfollow : Follows (nextclu dev d) c cs e)
    (huse : ∀ x ∈ cs, IS_FAT32CLU_INUSE x) (hfuel : cs.length ≤ fuel)
    (hb : (records dev d cs)[q]? = some b) (hs : after st ((records dev d cs).take q) = some s)
    (hq : Wanted clock want st (records dev d cs) q)
    (hfirst : ∀ p < q, ¬Wanted clock want st (records dev d cs) p) :
    ∃ c', cs[q / maxEntries dev]? = some c' ∧
      enumLoop dev clock d (answer want ret) fNew fuel st c 0 = stopped dev clock d fNew c'
        ⟨ret, q % maxEntries dev, s.nameEntries, reported clock s b⟩ := by
  induction cs generalizing c st q fuel with
  | nil => cases hb
  | cons x cs ih =>
    obtain ⟨rfl, hnext⟩ := hfollow
    obtain ⟨fuel, rfl⟩ := Nat.exists_eq_add_of_le' (Nat.lt_of_lt_of_le cs.length.succ_pos hfuel)
    rw [List.length_cons, Nat.add_le_add_iff_right] at hfuel
    have hlen : (entries (readclu dev d c) 0 (maxEntries dev)).length = maxEntries dev :=
      length_entries _ _ _
    rw [records_cons] at hb hs hq hfirst
    by_cases hlt : q < maxEntries dev
    · have hlt' : q < (entries (readclu dev d c) 0 (maxEntries dev)).length := by rwa [hlen]
      rw [List.getElem?_append_left hlt'] at hb
      rw [List.take_append_of_le_length hlt'.le] at hs
      have hloop := enumClu_found hret 0 hb hs ((wanted_append_left hlt').mp hq) fun p hp hwant =>
        hfirst p hp ((wanted_append_left (hp.trans hlt')).mpr hwant)
      rw [Nat.zero_add] at hloop
      rw [Nat.div_eq_of_lt hlt, Nat.mod_eq_of_lt hlt]
      exact ⟨c, rfl, enumLoop_ok _ _ hloop⟩
    · obtain ⟨k, rfl⟩ := Nat.exists_eq_add_of_le (Nat.le_of_not_lt hlt)
      have hlow : ∀ p, ¬Wanted clock want st (entries (readclu dev d c) 0 (maxEntries dev)) p := by
        intro p hwant
        have hp := hwant.lt
        exact hfirst p (by omega) ((wanted_append_left hp).mpr hwant)
      have htake : (entries (readclu dev d c) 0 (maxEntries dev) ++ records dev d cs).take
          (maxEntries dev + k) =
          entries (readclu dev d c) 0 (maxEntries dev) ++ (records dev d cs).take k := by
        have htake := @List.take_length_add_append _ (entries (readclu dev d c) 0 (maxEntries dev))
          (records dev d cs) k
        rwa [hlen] at htake
      rw [htake, after_append] at hs
      obtain ⟨s', hs', hs⟩ := Option.bind_eq_some_iff.mp hs
      have hloop := enumClu_end (i := 0) ret hlow
      rw [hs', Option.map_some] at hloop
      have happ : ∀ p, Wanted clock want st
          (entries (readclu dev d c) 0 (maxEntries dev) ++ records dev d cs)
          (maxEntries dev + p) ↔ Wanted clock want s' (records dev d cs) p := by
        intro p
        have happ := @wanted_append clock want st s' _ (records dev d cs) p hs'
        rwa [hlen] at happ
      have hb' : (records dev d cs)[k]? = some b := by
        rwa [List.getElem?_append_right (by rw [hlen]; exact Nat.le_add_right _ _), hlen,
          Nat.add_sub_cancel_left] at hb
      have hinuse : IS_FAT32CLU_INUSE (nextclu dev d c) := by
        cases cs with
        | nil => cases hb'
        | cons y ys => exact hnext.1 ▸ huse y (by simp)
      rw [enumLoop_error _ _ hloop, if_pos hinuse, Nat.add_div_left _ hmax, Nat.add_mod_left]
      exact ih hnext (fun y hy => huse y (List.mem_cons_of_mem c hy)) hfuel hb' hs
        ((happ k).mp hq) fun p hp hwant => hfirst _ (by omega) ((happ p).mpr hwant)

/-- If no file is wanted, the scan goes over the whole directory. -/
theorem enumLoop_end (ret : Int32) {fuel : ℕ} (hfollow : Follows (nextclu dev d) c cs e)
    (huse : ∀ x ∈ cs, IS_FAT32CLU_INUSE x) (he : IS_FAT32CLU_INUSE e = false) (hne : cs ≠ [])
    (hfuel : cs.length ≤ fuel) (h : ∀ q, ¬Wanted clock want st (records dev d cs) q) :
    enumLoop dev clock d (answer want ret) fNew fuel st c 0 =
      (after st (records dev d cs)).map fun _ => (-1, none, d) := by
  induction cs generalizing c st fuel with
  | nil => exact absurd rfl hne
  | cons x cs ih =>
    obtain ⟨rfl, hnext⟩ := hfollow
    obtain ⟨fuel, rfl⟩ := Nat.exists_eq_add_of_le' (Nat.lt_of_lt_of_le cs.length.succ_pos hfuel)
    rw [List.length_cons, Nat.add_le_add_iff_right] at hfuel
    rw [records_cons] at h ⊢
    have hloop := enumClu_end (i := 0) ret fun p hwant =>
      h p ((wanted_append_left hwant.lt).mpr hwant)
    rw [after_append]
    cases hs : after st (entries (readclu dev d c) 0 (maxEntries dev)) with
    | none =>
      rw [hs, maxEntries] at hloop
      rw [enumLoop]
      dsimp only
      rw [hloop]
      rfl
    | some s =>
      rw [hs, Option.map_some] at hloop
      rw [enumLoop_error _ _ hloop, Option.bind_some]
      cases cs with
      | nil =>
        obtain rfl : nextclu dev d c = e := hnext
        rw [if_neg (by rw [he]; exact Bool.false_ne_true)]
        rfl
      | cons y ys =>
        have hinuse : IS_FAT32CLU_INUSE (nextclu dev d c) := hnext.1 ▸ huse y (by simp)
        rw [if_pos hinuse]
        exact ih hnext (fun z hz => huse z (List.mem_cons_of_mem c hz)) (by simp) hfuel
          fun q hwant => h _ ((wanted_append hs).mpr hwant)

end Scan

end Sgos.Fat32
