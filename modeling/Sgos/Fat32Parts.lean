import Sgos.Fat32Lookup

/-!
# The numbers of the parts of long names

`fat32_enum_ent` copies the parts of a long name to the places that their numbers give, whatever the
directory holds. It stays in `long_name` exactly if the numbers do not count down beyond the first
part.
-/
namespace Sgos.Fat32
open ByteStore

namespace Parts
open Scan Lookup

/-! ## The parts of long names -/

/-- A part of a long name. -/
def isName (b : List UInt8) : Bool :=
  !unused b && FAT32_IS_LNAME (FAT32_ENTRY.ofBytes b).attrib

/-- The part that begins a long name, which is its last one. -/
def isLast (b : List UInt8) : Bool := isName b && (FAT32_NAME_ENTRY.ofBytes b).id &&& 0x40 ≠ 0

/-- The number of a part. -/
def number (b : List UInt8) : ℕ :=
  let id := (FAT32_NAME_ENTRY.ofBytes b).id
  if id &&& 0x40 ≠ 0 then (id &&& 0x1f).toNat else id.toNat

def sumOf (b : List UInt8) : UInt8 := (FAT32_NAME_ENTRY.ofBytes b).checksum

/-- The entries in front of the next last part. -/
def segment (bs : List (List UInt8)) : List (List UInt8) := bs.takeWhile fun b => !isLast b

/-- The numbers of the parts with a checksum. -/
def numbers (sum : UInt8) (bs : List (List UInt8)) : List ℕ :=
  (bs.filter fun b => isName b && sumOf b = sum).map number

/-- Behind the last part `b` the parts count down beyond the first one; a part that is too large is
followed by one of its own number. -/
def Overruns (b : List UInt8) (bs : List (List UInt8)) : Prop :=
  (if number b ≤ MAX_LNAME_ENTRIS then (List.range (number b)).reverse else [number b]).Sublist
    (numbers (sumOf b) (segment bs))

/-- No last part has the number 0, or is overrun by the parts behind it. -/
def Led : List (List UInt8) → Prop
  | [] => True
  | b :: bs => (isLast b = true → number b ≠ 0 ∧ ¬Overruns b bs) ∧ Led bs

/-- The parts have numbers that `long_name` has room for, also those in front of any last part. -/
structure Numbered (bs : List (List UInt8)) : Prop where
  loose : ∀ b ∈ segment bs, isName b = true → 1 ≤ number b ∧ number b ≤ MAX_LNAME_ENTRIS
  led : Led bs

/-- How many entries in front of the next file are taken for parts of its name: the number of the
last part that came behind the file before. -/
def counted (bs : List (List UInt8)) : ℕ :=
  ((bs.reverse.takeWhile fun b => !isFile b).find? isLast).elim 0 fun b =>
    if number b ≤ MAX_LNAME_ENTRIS then number b else 0

/-! ## A step of the scan -/

variable {st s : Scan} {b : List UInt8} {bs : List (List UInt8)} {sum id : ℤ} {n k : ℕ}

/-- The number that is expected behind a last part. -/
def lead (b : List UInt8) : ℤ := if number b ≤ MAX_LNAME_ENTRIS then number b - 1 else number b

lemma isName_of_last (h : isLast b = true) : isName b = true := by
  rw [isLast, Bool.and_eq_true] at h
  exact h.1

lemma step_name (h : isName b = true) (st : Scan) :
    step st b = st.nameEntry (FAT32_NAME_ENTRY.ofBytes b) := by
  simp only [isName, Bool.and_eq_true, Bool.not_eq_true'] at h
  rw [step, h.1, if_neg Bool.false_ne_true, if_pos h.2]

/-- The last part of a name. -/
lemma step_last (h : isLast b = true) (st : Scan) :
    (number b = 0 ∧ step st b = none) ∨
    (number b ≠ 0 ∧ ∃ s, step st b = some s ∧ s.checksum = (sumOf b).toNat ∧ s.id = lead b ∧
      s.nameEntries = if number b ≤ MAX_LNAME_ENTRIS then number b else 0) := by
  have hmax : MAX_LNAME_ENTRIS = 4 := rfl
  rw [step_name (isName_of_last h)]
  simp only [isLast, Bool.and_eq_true, decide_eq_true_eq] at h
  have hnum : number b = ((FAT32_NAME_ENTRY.ofBytes b).id &&& 0x1f).toNat := if_pos h.2
  rw [Scan.nameEntry, if_pos h.2]
  dsimp only
  rw [← hnum]
  by_cases hbig : number b > MAX_LNAME_ENTRIS
  · rw [if_pos hbig]
    refine .inr ⟨by omega, _, rfl, rfl, ?_, ?_⟩
    · rw [lead, if_neg (Nat.not_le.mpr hbig)]
    · rw [if_neg (Nat.not_le.mpr hbig)]
  · have hle := Nat.le_of_not_lt hbig
    rw [if_neg hbig, Scan.copyPart]
    dsimp only
    by_cases hzero : number b = 0
    · refine .inl ⟨hzero, if_neg fun hin => ?_⟩
      omega
    · refine .inr ⟨hzero, _, if_pos ⟨by omega, by omega⟩, rfl, ?_, ?_⟩
      · rw [lead, if_pos hle]
      · rw [if_pos hle]

/-- The part is the one that is expected. -/
def Expected (sum id : ℤ) (b : List UInt8) : Prop :=
  isName b = true ∧ isLast b = false ∧ ((sumOf b).toNat : ℤ) = sum ∧ (number b : ℤ) = id

lemma step_expected (h : Expected st.checksum st.id b) :
    (¬(1 ≤ st.id ∧ st.id ≤ MAX_LNAME_ENTRIS) ∧ step st b = none) ∨
    ((1 ≤ st.id ∧ st.id ≤ MAX_LNAME_ENTRIS) ∧ ∃ s, step st b = some s ∧
      s.checksum = st.checksum ∧ s.id = st.id - 1 ∧ s.nameEntries = st.nameEntries) := by
  obtain ⟨hname, hlast, hsum, hid⟩ := h
  have hlow : ¬(FAT32_NAME_ENTRY.ofBytes b).id &&& 0x40 ≠ 0 := by
    rw [isLast, hname, Bool.true_and, decide_eq_false_iff_not] at hlast
    exact hlast
  have hnum : number b = (FAT32_NAME_ENTRY.ofBytes b).id.toNat := if_neg hlow
  have hmatch : ¬(((FAT32_NAME_ENTRY.ofBytes b).checksum.toNat : ℤ) ≠ st.checksum ∨
      ((FAT32_NAME_ENTRY.ofBytes b).id.toNat : ℤ) ≠ st.id) := by
    rw [not_or, not_not, not_not, ← hnum]
    exact ⟨hsum, hid⟩
  rw [step_name hname, Scan.nameEntry, if_neg hlow, if_neg hmatch, Scan.copyPart]
  dsimp only
  by_cases hin : 1 ≤ st.id ∧ st.id ≤ MAX_LNAME_ENTRIS
  · exact .inr ⟨hin, _, if_pos ⟨by omega, by omega⟩, rfl, rfl, rfl⟩
  · refine .inl ⟨hin, if_neg fun h => hin ?_⟩
    omega

/-- Every other entry leaves what is expected as it is. -/
lemma step_other (hlast : isLast b = false) (h : ¬Expected st.checksum st.id b) :
    ∃ s, step st b = some s ∧ s.checksum = st.checksum ∧ s.id = st.id ∧
      s.nameEntries = if isFile b then 0 else st.nameEntries := by
  by_cases hname : isName b = true
  · have hlow : ¬(FAT32_NAME_ENTRY.ofBytes b).id &&& 0x40 ≠ 0 := by
      rw [isLast, hname, Bool.true_and, decide_eq_false_iff_not] at hlast
      exact hlast
    have hnum : number b = (FAT32_NAME_ENTRY.ofBytes b).id.toNat := if_neg hlow
    have hno : ((FAT32_NAME_ENTRY.ofBytes b).checksum.toNat : ℤ) ≠ st.checksum ∨
        ((FAT32_NAME_ENTRY.ofBytes b).id.toNat : ℤ) ≠ st.id := by
      by_contra hyes
      rw [not_or, not_not, not_not] at hyes
      exact h ⟨hname, hlast, hyes.1, by rw [hnum]; exact hyes.2⟩
    refine ⟨st, ?_, rfl, rfl, ?_⟩
    · rw [step_name hname, Scan.nameEntry, if_neg hlow, if_pos hno]
    · simp only [isName, Bool.and_eq_true, Bool.not_eq_true'] at hname
      rw [isFile, hname.2, Bool.not_true, Bool.and_false]
      rfl
  · rw [step]
    by_cases hused : unused b = true
    · rw [if_pos hused, isFile, hused, Bool.not_true, Bool.false_and]
      exact ⟨st, rfl, rfl, rfl, rfl⟩
    · have hattr : ¬FAT32_IS_LNAME (FAT32_ENTRY.ofBytes b).attrib = true := by
        intro hattr
        exact hname (by rw [isName, Bool.eq_false_iff.mpr hused, hattr]; rfl)
      rw [if_neg hused, if_neg hattr, isFile, Bool.eq_false_iff.mpr hused,
        Bool.eq_false_iff.mpr hattr]
      exact ⟨_, rfl, rfl, rfl, rfl⟩

/-! ## Where the scan gets through -/

instance (sum id : ℤ) (b : List UInt8) : Decidable (Expected sum id b) :=
  inferInstanceAs (Decidable (_ ∧ _ ∧ _ ∧ _))

/-- Parts are copied to places that there are, from here on. -/
def Safe : ℤ → ℤ → List (List UInt8) → Prop
  | _, _, [] => True
  | sum, id, b :: bs =>
    if isLast b then number b ≠ 0 ∧ Safe (sumOf b).toNat (lead b) bs
    else if Expected sum id b then (1 ≤ id ∧ id ≤ MAX_LNAME_ENTRIS) ∧ Safe sum (id - 1) bs
    else Safe sum id bs

lemma after_isSome_iff : (after st bs).isSome ↔ Safe st.checksum st.id bs := by
  induction bs generalizing st with
  | nil => simp [after_nil, Safe]
  | cons b bs ih =>
    rw [after_cons, Safe]
    by_cases hlast : isLast b = true
    · rw [if_pos hlast]
      rcases step_last hlast st with ⟨hzero, hstep⟩ | ⟨hne, s, hstep, hsum, hid, -⟩
      · simp [hstep, hzero]
      · rw [hstep, Option.bind_some, ih, hsum, hid]
        exact (and_iff_right hne).symm
    · rw [if_neg hlast]
      by_cases hexp : Expected st.checksum st.id b
      · rw [if_pos hexp]
        rcases step_expected hexp with ⟨hout, hstep⟩ | ⟨hin, s, hstep, hsum, hid, -⟩
        · simp [hstep, hout]
        · rw [hstep, Option.bind_some, ih, hsum, hid]
          exact (and_iff_right hin).symm
      · rw [if_neg hexp]
        obtain ⟨s, hstep, hsum, hid, -⟩ := step_other (Bool.eq_false_iff.mpr hlast) hexp
        rw [hstep, Option.bind_some, ih, hsum, hid]

lemma numbers_cons_of_part {u : UInt8} (hname : isName b = true) (hsum : sumOf b = u) :
    numbers u (b :: bs) = number b :: numbers u bs := by
  rw [numbers, List.filter_cons_of_pos (by simp [hname, hsum]), List.map_cons, numbers]

lemma numbers_cons_of_not {u : UInt8} (h : ¬(isName b = true ∧ sumOf b = u)) :
    numbers u (b :: bs) = numbers u bs := by
  rw [numbers, List.filter_cons_of_neg (by simpa using h), numbers]

lemma expected_iff {u : UInt8} (hlast : isLast b = false) :
    Expected u.toNat n b ↔ (isName b = true ∧ sumOf b = u) ∧ number b = n := by
  rw [Expected, Int.natCast_inj, Int.natCast_inj, UInt8.toNat_inj]
  exact ⟨fun h => ⟨⟨h.1, h.2.2.1⟩, h.2.2.2⟩, fun h => ⟨h.1.1, hlast, h.1.2, h.2⟩⟩

/-- Behind a last part that fits, the parts must not count down to 0. -/
lemma safe_down {u : UInt8} (hbs : ∀ b ∈ bs, isLast b = false) (hn : n < MAX_LNAME_ENTRIS) :
    Safe u.toNat n bs ↔ ¬(List.range (n + 1)).reverse.Sublist (numbers u bs) := by
  induction bs generalizing n with
  | nil => simp [Safe, numbers]
  | cons b bs ih =>
    have hlast := hbs b List.mem_cons_self
    have hrest := fun x hx => hbs x (List.mem_cons_of_mem b hx)
    rw [Safe, if_neg (by rw [hlast]; exact Bool.false_ne_true)]
    by_cases hpart : isName b = true ∧ sumOf b = u
    · rw [numbers_cons_of_part hpart.1 hpart.2, List.range_succ, List.reverse_concat]
      by_cases hnum : number b = n
      · rw [if_pos ((expected_iff hlast).mpr ⟨hpart, hnum⟩), hnum, List.cons_sublist_cons]
        cases n with
        | zero => simp
        | succ n =>
          have hsub : ((n + 1 : ℕ) : ℤ) - 1 = n := by omega
          rw [hsub, ih hrest (by omega)]
          exact and_iff_right ⟨by omega, by omega⟩
      · rw [if_neg fun hexp => hnum ((expected_iff hlast).mp hexp).2, ih hrest hn,
          List.range_succ, List.reverse_concat, List.cons_sublist_cons',
          or_iff_left fun h => hnum h.1.symm]
    · rw [if_neg fun hexp => hpart ((expected_iff hlast).mp hexp).1, ih hrest hn,
        numbers_cons_of_not hpart]

/-- Behind one that does not fit, no part must have its number. -/
lemma safe_big {u : UInt8} (hbs : ∀ b ∈ bs, isLast b = false) (hn : MAX_LNAME_ENTRIS < n) :
    Safe u.toNat n bs ↔ ¬[n].Sublist (numbers u bs) := by
  induction bs with
  | nil => simp [Safe, numbers]
  | cons b bs ih =>
    have hlast := hbs b List.mem_cons_self
    have hrest := fun x hx => hbs x (List.mem_cons_of_mem b hx)
    rw [Safe, if_neg (by rw [hlast]; exact Bool.false_ne_true)]
    by_cases hpart : isName b = true ∧ sumOf b = u
    · rw [numbers_cons_of_part hpart.1 hpart.2]
      by_cases hnum : number b = n
      · rw [if_pos ((expected_iff hlast).mpr ⟨hpart, hnum⟩), hnum, List.cons_sublist_cons]
        refine ⟨fun h => ?_, fun h => absurd (List.nil_sublist _) h⟩
        omega
      · rw [if_neg fun hexp => hnum ((expected_iff hlast).mp hexp).2, ih hrest,
          List.cons_sublist_cons', or_iff_left fun h => hnum h.1.symm]
    · rw [if_neg fun hexp => hpart ((expected_iff hlast).mp hexp).1, ih hrest,
        numbers_cons_of_not hpart]

lemma not_last_of_segment : ∀ b ∈ segment bs, isLast b = false := by
  intro b hb
  have h := List.mem_takeWhile_imp hb
  simpa using h

lemma safe_lead (hne : number b ≠ 0) :
    Safe (sumOf b).toNat (lead b) (segment bs) ↔ ¬Overruns b bs := by
  rw [lead, Overruns]
  by_cases hle : number b ≤ MAX_LNAME_ENTRIS
  · rw [if_pos hle, if_pos hle]
    obtain ⟨m, hm⟩ := Nat.exists_eq_succ_of_ne_zero hne
    rw [hm] at hle ⊢
    have hsub : ((m.succ : ℕ) : ℤ) - 1 = m := by omega
    rw [hsub]
    exact safe_down not_last_of_segment (by omega)
  · rw [if_neg hle, if_neg hle]
    exact safe_big not_last_of_segment (by omega)

/-- What is expected matters up to the next last part. -/
lemma safe_iff : Safe sum id bs ↔ Safe sum id (segment bs) ∧ Led bs := by
  induction bs generalizing sum id with
  | nil => simp [Safe, segment, Led]
  | cons b bs ih =>
    rw [Safe, Led]
    by_cases hlast : isLast b = true
    · have hseg : segment (b :: bs) = [] := by simp [segment, hlast]
      rw [if_pos hlast, hseg, Safe, true_and, ih, imp_iff_right hlast]
      constructor
      · rintro ⟨hne, hsafe, hled⟩
        exact ⟨⟨hne, (safe_lead hne).mp hsafe⟩, hled⟩
      · rintro ⟨⟨hne, hover⟩, hled⟩
        exact ⟨hne, (safe_lead hne).mpr hover, hled⟩
    · have hseg : segment (b :: bs) = b :: segment bs := by simp [segment, hlast]
      rw [if_neg hlast, hseg, Safe, if_neg hlast]
      by_cases hexp : Expected sum id b
      · rw [if_pos hexp, if_pos hexp, ih]
        simp only [hlast, Bool.false_eq_true, false_imp_iff, true_and, and_assoc]
      · rw [if_neg hexp, if_neg hexp, ih]
        simp only [hlast, Bool.false_eq_true, false_imp_iff, true_and]

/-- Whatever was expected before the first entry. -/
lemma safe_all (hbs : ∀ b ∈ bs, isLast b = false) : (∀ sum id, Safe sum id bs) ↔
    ∀ b ∈ bs, isName b = true → 1 ≤ number b ∧ number b ≤ MAX_LNAME_ENTRIS := by
  constructor
  · intro h b hb hname
    have hsafe := h (sumOf b).toNat (number b)
    clear h
    induction bs with
    | nil => exact absurd hb List.not_mem_nil
    | cons a bs ih =>
      have hlast := hbs a List.mem_cons_self
      rw [Safe, if_neg (by rw [hlast]; exact Bool.false_ne_true)] at hsafe
      by_cases hexp : Expected (sumOf b).toNat (number b) a
      · rw [if_pos hexp] at hsafe
        omega
      · rw [if_neg hexp] at hsafe
        rcases List.mem_cons.mp hb with rfl | hb
        · exact absurd ((expected_iff hlast).mpr ⟨⟨hname, rfl⟩, rfl⟩) hexp
        · exact ih (fun x hx => hbs x (List.mem_cons_of_mem a hx)) hb hsafe
  · intro h sum id
    induction bs generalizing sum id with
    | nil => trivial
    | cons a bs ih =>
      have ih := ih (fun x hx => hbs x (List.mem_cons_of_mem a hx))
        fun b hb => h b (List.mem_cons_of_mem a hb)
      rw [Safe, if_neg (by rw [hbs a List.mem_cons_self]; exact Bool.false_ne_true)]
      by_cases hexp : Expected sum id a
      · rw [if_pos hexp]
        obtain ⟨hname, -, -, hid⟩ := hexp
        have hnum := h a List.mem_cons_self hname
        exact ⟨by omega, ih sum (id - 1)⟩
      · rw [if_neg hexp]
        exact ih sum id

/-- A scan gets through the entries, whatever its locals hold at first, exactly if the numbers of
the parts are in order. -/
theorem numbered_iff : (∀ stack, (after (start stack) bs).isSome) ↔ Numbered bs := by
  have hsafe : (∀ stack, (after (start stack) bs).isSome) ↔ ∀ sum id, Safe sum id bs := by
    constructor
    · intro h sum id
      exact after_isSome_iff.mp (h ⟨⟨fun _ => 0, fun _ => [], sum, id, 0⟩, 0, 0⟩)
    · intro h stack
      exact after_isSome_iff.mpr (h _ _)
  rw [hsafe]
  constructor
  · intro h
    refine ⟨(safe_all not_last_of_segment).mp fun sum id => (safe_iff.mp (h sum id)).1, ?_⟩
    exact (safe_iff.mp (h 0 0)).2
  · intro h sum id
    exact safe_iff.mpr ⟨(safe_all not_last_of_segment).mpr h.loose sum id, h.led⟩

/-! ## The parts that are counted -/

lemma not_isFile_of_name (h : isName b = true) : isFile b = false := by
  simp only [isName, Bool.and_eq_true, Bool.not_eq_true'] at h
  rw [isFile, h.2, Bool.not_true, Bool.and_false]

lemma counted_concat (bs : List (List UInt8)) (b : List UInt8) : counted (bs ++ [b]) =
    if isFile b then 0
    else if isLast b then if number b ≤ MAX_LNAME_ENTRIS then number b else 0
    else counted bs := by
  rw [counted, List.reverse_concat]
  by_cases hfile : isFile b = true
  · rw [if_pos hfile, List.takeWhile_cons_of_neg (by simp [hfile])]
    rfl
  · rw [if_neg hfile, List.takeWhile_cons_of_pos (by simp [hfile])]
    by_cases hlast : isLast b = true
    · rw [if_pos hlast, List.find?_cons_of_pos hlast]
      rfl
    · rw [if_neg hlast, List.find?_cons_of_neg hlast]
      rfl

lemma step_counted (h : step st b = some s) (hst : st.nameEntries = counted bs) :
    s.nameEntries = counted (bs ++ [b]) := by
  rw [counted_concat]
  by_cases hlast : isLast b = true
  · rw [not_isFile_of_name (isName_of_last hlast), if_neg Bool.false_ne_true, if_pos hlast]
    rcases step_last hlast st with ⟨-, hstep⟩ | ⟨-, t, hstep, -, -, hentries⟩
    · rw [hstep] at h
      cases h
    · rwa [Option.some.inj (h.symm.trans hstep)]
  · rw [if_neg hlast, ← hst]
    by_cases hexp : Expected st.checksum st.id b
    · rw [not_isFile_of_name hexp.1, if_neg Bool.false_ne_true]
      rcases step_expected hexp with ⟨-, hstep⟩ | ⟨-, t, hstep, -, -, hentries⟩
      · rw [hstep] at h
        cases h
      · rwa [Option.some.inj (h.symm.trans hstep)]
    · obtain ⟨t, hstep, -, -, hentries⟩ := step_other (Bool.eq_false_iff.mpr hlast) hexp
      rwa [Option.some.inj (h.symm.trans hstep)]

/-- The number of parts that the scan has counted. -/
theorem after_counted (h : after st bs = some s) (hst : st.nameEntries = 0) :
    s.nameEntries = counted bs := by
  induction bs using List.reverseRecOn generalizing s with
  | nil =>
    obtain rfl : st = s := Option.some.inj h
    exact hst
  | append_singleton bs b ih =>
    rw [after_append] at h
    obtain ⟨t, ht, h⟩ := Option.bind_eq_some_iff.mp h
    rw [after_cons] at h
    obtain ⟨u, hu, h⟩ := Option.bind_eq_some_iff.mp h
    obtain rfl : u = s := Option.some.inj h
    exact step_counted hu (ih ht)

/-! ## Without long names -/

lemma numbered_of_short (h : ∀ b ∈ bs, isName b = false) : Numbered bs where
  loose b hb hname := by
    rw [h b ((List.takeWhile_sublist _).subset hb)] at hname
    cases hname
  led := by
    induction bs with
    | nil => trivial
    | cons b bs ih =>
      refine ⟨fun hlast => ?_, ih fun x hx => h x (List.mem_cons_of_mem b hx)⟩
      have hname := isName_of_last hlast
      rw [h b List.mem_cons_self] at hname
      cases hname

lemma counted_of_short (h : ∀ b ∈ bs, isName b = false) : counted bs = 0 := by
  have hfind : (bs.reverse.takeWhile fun b => !isFile b).find? isLast = none := by
    refine List.find?_eq_none.mpr fun b hb hlast => ?_
    have hname := isName_of_last hlast
    rw [h b (List.mem_reverse.mp ((List.takeWhile_sublist _).subset hb))] at hname
    cases hname
  rw [counted, hfind]
  rfl

end Parts

end Sgos.Fat32
