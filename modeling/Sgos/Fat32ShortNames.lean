import Sgos.Fat32Create

/-!
# Short names

`fat32_build_shortname` makes the fields of a short name of a file name and tries the next ones with
what is left of it. Which names can be read back from these fields.
-/
namespace Sgos.Fat32
open ByteBuffer ByteStore

namespace ShortNames
open Names Create

variable {addr : UInt32}

/-! ## Bytes of names -/

lemma forall_byte {P : UInt8 → Prop} (h : ∀ k < 256, P (UInt8.ofNat k)) (c : UInt8) : P c := by
  have hc := h c.toNat c.toNat_lt
  rwa [UInt8.ofNat_toNat] at hc

lemma tolower_toupper (c : UInt8) : tolower (toupper c) = tolower c :=
  @forall_byte (fun c => tolower (toupper c) = tolower c) (by decide +kernel) c

lemma tolower_dot (c : UInt8) (h : tolower c = 46) : c = 46 :=
  @forall_byte (fun c => tolower c = 46 → c = 46) (by decide +kernel) c h

/-- Whether a byte of a field is a part of the name. -/
def solid (c : UInt8) : Bool := c ≠ 0 && c ≠ 32

lemma solid_toupper (c : UInt8) : solid (toupper c) = solid c :=
  @forall_byte (fun c => solid (toupper c) = solid c) (by decide +kernel) c

variable {s name stem ext : List UInt8} {longSign trychar : UInt8}

lemma unpad_eq (s : List UInt8) : unpad s = s.takeWhile solid := rfl

lemma unpad_map_toupper (s : List UInt8) : unpad (s.map toupper) = (unpad s).map toupper := by
  have hsolid : solid ∘ toupper = solid := funext solid_toupper
  rw [unpad_eq, unpad_eq, List.takeWhile_map, hsolid]

lemma unpad_pad (width : ℕ) (s : List UInt8) : unpad (pad width s) = unpad s := by
  have hpad : ∀ k, unpad (s ++ List.replicate k 32) = unpad s := by
    intro k
    induction s with
    | nil => cases k <;> rfl
    | cons c s ih =>
      by_cases hc : solid c = true
      · rw [List.cons_append, unpad_eq, unpad_eq, List.takeWhile_cons_of_pos hc,
          List.takeWhile_cons_of_pos hc]
        exact congrArg _ ih
      · rw [List.cons_append, unpad_eq, unpad_eq, List.takeWhile_cons_of_neg hc,
          List.takeWhile_cons_of_neg hc]
  exact hpad _

lemma length_pad {width : ℕ} (h : s.length ≤ width) : (pad width s).length = width := by
  rw [pad, List.length_append, List.length_replicate]
  omega

/-- A name without blanks and zeros is kept. -/
lemma unpad_eq_self (h : IsAscii s) : unpad s = s ↔ (32 : UInt8) ∉ s := by
  rw [unpad, List.takeWhile_eq_self_iff]
  constructor
  · intro hsolid hmem
    have hno := hsolid 32 hmem
    cases hno
  · intro hblank c hc
    have hne : c ≠ 32 := fun he => hblank (he ▸ hc)
    simp [(h c hc).1, hne]

lemma eq_of_unpad_length {t : List UInt8} (h : (unpad t).length = s.length)
    (hpre : t.length ≤ s.length) : unpad t = t := by
  have hle := length_unpad_le t
  have hprefix : unpad t <+: t := List.takeWhile_prefix _
  exact hprefix.eq_of_length (by omega)

lemma strrchr_dot (h : (46 : UInt8) ∉ ext) : strrchr (stem ++ 46 :: ext) 46 = some stem.length := by
  have hrev : (stem ++ 46 :: ext).reverse = ext.reverse ++ 46 :: stem.reverse := by simp
  have hnone : ext.reverse.findIdx? (· == (46 : UInt8)) = none := by
    rw [List.findIdx?_eq_none_iff]
    intro c hc
    exact beq_false_of_ne fun he => h (he ▸ List.mem_reverse.mp hc)
  have hfirst : (46 :: stem.reverse).findIdx? (· == (46 : UInt8)) = some 0 := rfl
  rw [strrchr, hrev, List.idxOf?, List.findIdx?_append, hnone, hfirst]
  simp

lemma strrchr_none (h : (46 : UInt8) ∉ name) : strrchr name 46 = none := by
  have hnone : name.reverse.idxOf? 46 = none := by
    rw [List.idxOf?_eq_none_iff]
    simpa using h
  rw [strrchr, hnone]
  rfl

/-- The last dot of a name. -/
lemma last_dot (h : (46 : UInt8) ∈ name) : ∃ stem ext, name = stem ++ 46 :: ext ∧ (46 : UInt8) ∉ ext := by
  obtain ⟨ext, stem, hrev, hext⟩ := List.eq_append_cons_of_mem (List.mem_reverse.mpr h)
  refine ⟨stem.reverse, ext.reverse, ?_, by simpa using hext⟩
  rw [← List.reverse_reverse name, hrev]
  simp

lemma drop_dot (stem ext : List UInt8) : (stem ++ 46 :: ext).drop (stem.length + 1) = ext := by
  rw [← List.drop_drop, List.drop_left]
  rfl

lemma shortname_dot (hext : (46 : UInt8) ∉ ext) (hstem : stem.length ≤ 8) :
    shortname (stem ++ 46 :: ext) addr longSign trychar =
      (pad 8 (stem.map toupper), pad 3 ((ext.take 3).map toupper), stem.length) := by
  have hlong : ¬stem.length > 8 := by omega
  rw [shortname, strrchr_dot hext]
  simp only [Option.getD_some, hlong, decide_false, Bool.false_eq_true, if_false, List.append_nil,
    List.take_left', drop_dot, List.take_of_length_le hstem]

lemma shortname_long (hext : (46 : UInt8) ∉ ext) (hstem : 8 < stem.length) :
    shortname (stem ++ 46 :: ext) addr longSign trychar =
      (pad 8 ((stem.take 6).map toupper ++ [longSign, trychar]), pad 3 ((ext.take 3).map toupper),
        6) := by
  have hlong : stem.length > 8 := hstem
  have hsix : (stem.take 6).length = 6 := List.length_take_of_le (by omega)
  rw [shortname, strrchr_dot hext]
  simp only [Option.getD_some, hlong, decide_true, if_true, List.take_left, drop_dot, hsix]

lemma shortname_plain (hname : (46 : UInt8) ∉ name) (haddr : ¬(0 - addr).toInt32 > 8) :
    shortname name addr longSign trychar =
      (pad 8 ((name.take 8).map toupper), pad 3 [], (name.take 8).length) := by
  rw [shortname, strrchr_none hname]
  simp only [Option.getD_none, haddr, decide_false, Bool.false_eq_true, if_false, List.append_nil,
    List.take_length, List.map_nil]

/-- A pointer into a name that is below the middle of the address space. -/
def Low (addr : UInt32) (name : List UInt8) : Prop := addr.toNat + name.length ≤ 2 ^ 31

lemma Low.not_gt (h : Low addr name) : ¬(0 - addr).toInt32 > 8 := by
  rw [Low] at h
  have hint : (0 - addr).toInt32.toInt = (0 - addr).toBitVec.toInt := rfl
  have height : (8 : Int32).toInt = 8 := rfl
  have hsub : (0 - addr).toBitVec.toNat = (2 ^ 32 - addr.toNat) % 2 ^ 32 := by
    rw [UInt32.toNat_toBitVec, UInt32.toNat_sub, UInt32.toNat_zero, Nat.add_zero]
  rw [gt_iff_lt, Int32.lt_iff_toInt_lt, hint, height, BitVec.toInt_eq_toNat_cond, hsub]
  split_ifs <;> omega

lemma Low.drop {p : ℕ} (h : Low addr name) (hp : p ≤ name.length) :
    Low (addr + UInt32.ofNat p) (name.drop p) := by
  have hsize : addressSpace = 2 ^ 32 := by decide
  rw [Low] at h ⊢
  have hnat : (UInt32.ofNat p).toNat = p := by
    rw [UInt32.toNat_ofNat']
    omega
  rw [toNat_add_of_lt (by rw [hnat, hsize]; omega), hnat, List.length_drop]
  omega

/-- The fields `sname` and `extention` are made of `name`, and `passed` bytes are passed. -/
structure IsTrial (name sname extention : List UInt8) (passed : ℕ) : Prop where
  name_length : sname.length = 8
  ext_length : extention.length = 3
  passed_le : passed ≤ name.length
  dot : (46 : UInt8) ∈ name → (46 : UInt8) ∈ name.drop passed
  name_le : (unpad sname).length ≤ name.length
  total_le : (46 : UInt8) ∈ name → (unpad sname).length + 1 + (unpad extention).length ≤ name.length
  first : IsAscii name → sname.getD 0 0 ≠ 0 ∧ sname.getD 0 0 ≠ 0xe5

lemma getD_pad {a : List UInt8} (h : ∀ c ∈ a.head?, c ≠ 0 ∧ c ≠ 0xe5) :
    (pad 8 a).getD 0 0 ≠ 0 ∧ (pad 8 a).getD 0 0 ≠ 0xe5 := by
  cases a with
  | nil => exact ⟨by decide, by decide⟩
  | cons c a => exact h c rfl

lemma toupper_ascii {c : UInt8} (h : c ≠ 0 ∧ c < 0x80) : toupper c ≠ 0 ∧ toupper c ≠ 0xe5 :=
  @forall_byte (fun c => c ≠ 0 ∧ c < 0x80 → toupper c ≠ 0 ∧ toupper c ≠ 0xe5) (by decide +kernel)
    c h

/-- The bytes that are put into the fields, at most as many as there are. -/
lemma isTrial_pad {a b : List UInt8} {passed : ℕ} (ha : a.length ≤ 8) (hb : b.length ≤ 3)
    (hpassed : passed ≤ name.length) (hdot : (46 : UInt8) ∈ name → (46 : UInt8) ∈ name.drop passed)
    (hname : a.length ≤ name.length)
    (htotal : (46 : UInt8) ∈ name → a.length + 1 + b.length ≤ name.length)
    (hfirst : IsAscii name → ∀ c ∈ a.head?, c ≠ 0 ∧ c ≠ 0xe5) :
    IsTrial name (pad 8 a) (pad 3 b) passed where
  name_length := length_pad ha
  ext_length := length_pad hb
  passed_le := hpassed
  dot := hdot
  name_le := by
    rw [unpad_pad]
    exact (length_unpad_le a).trans hname
  total_le h := by
    rw [unpad_pad, unpad_pad]
    have hle := htotal h
    have hle₁ := length_unpad_le a
    have hle₂ := length_unpad_le b
    omega
  first h := getD_pad (hfirst h)

lemma head?_map_toupper {t : List UInt8} (ht : ∀ c ∈ t, c ∈ name) (h : IsAscii name) :
    ∀ c ∈ (t.map toupper).head?, c ≠ 0 ∧ c ≠ 0xe5 := by
  intro c hc
  cases t with
  | nil => cases hc
  | cons b t =>
    obtain rfl : toupper b = c := Option.some.inj hc
    exact toupper_ascii (h b (ht b List.mem_cons_self))

lemma shortname_trial (haddr : Low addr name) (longSign trychar : UInt8) :
    ∃ sname extention passed,
      shortname name addr longSign trychar = (sname, extention, passed) ∧
      IsTrial name sname extention passed := by
  by_cases hdot : (46 : UInt8) ∈ name
  · obtain ⟨stem, ext, rfl, hext⟩ := last_dot hdot
    have hlen : (stem ++ 46 :: ext).length = stem.length + 1 + ext.length := by
      rw [List.length_append, List.length_cons]
      omega
    have hthree : ((ext.take 3).map toupper).length ≤ 3 := by
      rw [List.length_map]
      exact List.length_take_le _ _
    have hext' : ((ext.take 3).map toupper).length ≤ ext.length := by
      rw [List.length_map]
      exact List.length_take_le' _ _
    rcases Nat.lt_or_ge 8 stem.length with hlong | hfit
    · have hsix : (stem.take 6).length = 6 := List.length_take_of_le (by omega)
      have height : ((stem.take 6).map toupper ++ [longSign, trychar]).length = 8 := by
        rw [List.length_append, List.length_map, hsix]
        rfl
      refine ⟨_, _, _, shortname_long hext hlong, isTrial_pad height.le hthree (by omega)
        (fun _ => ?_) (by omega) (fun _ => by omega) fun h c hc => ?_⟩
      · rw [List.drop_append_of_le_length (by omega)]
        simp
      · have hne : (stem.take 6).map toupper ≠ [] :=
          List.ne_nil_of_length_pos (by rw [List.length_map, hsix]; decide)
        rw [List.head?_append_of_ne_nil _ hne] at hc
        exact head?_map_toupper (fun c hc => List.mem_append_left _ (List.mem_of_mem_take hc)) h c hc
    · have hstem : (stem.map toupper).length = stem.length := List.length_map _
      refine ⟨_, _, _, shortname_dot hext hfit, isTrial_pad (by omega) hthree (by omega)
        (fun _ => ?_) (by omega) (fun _ => by omega) fun h =>
          head?_map_toupper (fun c hc => List.mem_append_left _ hc) h⟩
      rw [List.drop_left]
      exact List.mem_cons_self
  · have hle := List.length_take_le 8 name
    have hle' := List.length_take_le' 8 name
    have hmap : ((name.take 8).map toupper).length = (name.take 8).length := List.length_map _
    exact ⟨_, _, _, shortname_plain hdot haddr.not_gt, isTrial_pad (by omega) (Nat.zero_le 3) hle'
      (fun h => absurd h hdot) (by omega) (fun h => absurd h hdot) fun h =>
        head?_map_toupper (fun c hc => List.mem_of_mem_take hc) h⟩

/-! ## Which names are kept -/

/-- The name that is read from the fields of a short name. -/
def shown (dir : Bool) (sname extention : List UInt8) : List UInt8 :=
  unpad sname ++ if dir then [] else 46 :: unpad extention

/-- Two names that differ in case only. -/
def SameName (a b : List UInt8) : Prop := a.map tolower = b.map tolower

/-- A name of the form `NAME.EXT`, with the dot even if nothing follows it; the name of a directory
has none. -/
def Fits (dir : Bool) (name : List UInt8) : Prop :=
  (32 : UInt8) ∉ name ∧
    if dir then (46 : UInt8) ∉ name ∧ name.length ≤ 8
    else ∃ stem ext, name = stem ++ 46 :: ext ∧ (46 : UInt8) ∉ ext ∧ stem.length ≤ 8 ∧ ext.length ≤ 3

variable {dir : Bool} {sname extention : List UInt8} {passed : ℕ}

lemma SameName.length_eq {a b : List UInt8} (h : SameName a b) : a.length = b.length := by
  have hlen := congrArg List.length h
  rwa [List.length_map, List.length_map] at hlen

lemma sameName_toupper (a b : List UInt8) : SameName (a.map toupper) b ↔ SameName a b := by
  have hmap : (a.map toupper).map tolower = a.map tolower := by
    rw [List.map_map]
    exact List.map_congr_left fun c _ => tolower_toupper c
  rw [SameName, SameName, hmap]

lemma not_sameName_of_dot {a : List UInt8} (ha : (46 : UInt8) ∈ a) (hname : (46 : UInt8) ∉ name) :
    ¬SameName a name := by
  intro h
  have hmem : tolower 46 ∈ name.map tolower := by
    rw [← h]
    exact List.mem_map_of_mem ha
  obtain ⟨c, hc, he⟩ := List.mem_map.mp hmem
  exact hname (tolower_dot c he ▸ hc)

lemma dot_ne_blank : (32 : UInt8) ≠ 46 := by decide

lemma last_dot_unique {stem' ext' : List UInt8} (h : stem ++ 46 :: ext = stem' ++ 46 :: ext')
    (hext : (46 : UInt8) ∉ ext) (hext' : (46 : UInt8) ∉ ext') : stem = stem' ∧ ext = ext' := by
  have hpos := @strrchr_dot stem ext hext
  rw [h, strrchr_dot hext'] at hpos
  obtain ⟨rfl, htail⟩ := List.append_inj h (Option.some.inj hpos).symm
  exact ⟨rfl, (List.cons.inj htail).2⟩

lemma ascii_of_subset {t : List UInt8} (h : IsAscii name) (ht : ∀ c ∈ t, c ∈ name) : IsAscii t :=
  fun c hc => h c (ht c hc)

lemma shown_pad (dir : Bool) (a b : List UInt8) : shown dir (pad 8 (a.map toupper))
    (pad 3 (b.map toupper)) = (shown dir a b).map toupper := by
  rw [shown, shown, unpad_pad, unpad_pad, unpad_map_toupper, unpad_map_toupper, List.map_append]
  cases dir <;> rfl

/-- A stem of at most eight characters and an extension. -/
lemma same_stem_iff (hstem : IsAscii stem) (hext : IsAscii ext) :
    SameName (shown false stem (ext.take 3)) (stem ++ 46 :: ext) ↔
      (32 : UInt8) ∉ stem ++ 46 :: ext ∧ ext.length ≤ 3 := by
  have hshown : shown false stem (ext.take 3) = unpad stem ++ 46 :: unpad (ext.take 3) := rfl
  have hblank : (32 : UInt8) ∉ stem ++ 46 :: ext ↔ (32 : UInt8) ∉ stem ∧ (32 : UInt8) ∉ ext := by
    rw [List.mem_append, List.mem_cons]
    simp [dot_ne_blank]
  rw [hshown, hblank]
  constructor
  · intro hsame
    have heq := hsame.length_eq
    have hle₁ := length_unpad_le stem
    have hle₂ := length_unpad_le (ext.take 3)
    have hle₃ := List.length_take_le' 3 ext
    have hle₄ := List.length_take_le 3 ext
    simp only [List.length_append, List.length_cons] at heq
    have hthree : ext.length ≤ 3 := by omega
    rw [List.take_of_length_le hthree] at heq hle₂
    exact ⟨⟨(unpad_eq_self hstem).mp (eq_of_unpad_length (s := stem) (by omega) le_rfl),
      (unpad_eq_self hext).mp (eq_of_unpad_length (s := ext) (by omega) le_rfl)⟩, hthree⟩
  · rintro ⟨⟨h₁, h₂⟩, hle⟩
    rw [List.take_of_length_le hle, (unpad_eq_self hstem).mpr h₁, (unpad_eq_self hext).mpr h₂]
    exact rfl

/-- The first trial gives the name back exactly if it has the form of a short name. -/
lemma same_iff_fits (h : IsAscii name) (haddr : Low addr name)
    (hshort : shortname name addr longSign trychar = (sname, extention, passed)) :
    SameName (shown dir sname extention) name ↔ Fits dir name := by
  by_cases hdot : (46 : UInt8) ∈ name
  · obtain ⟨stem, ext, rfl, hext⟩ := last_dot hdot
    have hstem : IsAscii stem := ascii_of_subset h fun c hc => List.mem_append_left _ hc
    have hascii : IsAscii ext := ascii_of_subset h fun c hc =>
      List.mem_append_right _ (List.mem_cons_of_mem _ hc)
    have hlen : (stem ++ 46 :: ext).length = stem.length + 1 + ext.length := by
      rw [List.length_append, List.length_cons]
      omega
    have hle₃ := List.length_take_le' 3 ext
    have hfits : Fits dir (stem ++ 46 :: ext) ↔ (32 : UInt8) ∉ stem ++ 46 :: ext ∧
        dir = false ∧ stem.length ≤ 8 ∧ ext.length ≤ 3 := by
      rw [Fits]
      refine and_congr_right fun _ => ?_
      cases dir with
      | true => simp
      | false =>
        refine ⟨fun hex => ?_, fun ⟨_, h₁, h₂⟩ => ⟨stem, ext, rfl, hext, h₁, h₂⟩⟩
        obtain ⟨stem', ext', heq, hext', h₁, h₂⟩ := hex
        obtain ⟨rfl, rfl⟩ := last_dot_unique heq hext hext'
        exact ⟨rfl, h₁, h₂⟩
    rw [hfits]
    rcases Nat.lt_or_ge 8 stem.length with hlong | hfit
    · rw [shortname_long hext hlong] at hshort
      obtain ⟨rfl, hrest⟩ := Prod.mk.inj hshort
      obtain ⟨rfl, -⟩ := Prod.mk.inj hrest
      refine ⟨fun hsame => ?_, fun ⟨_, _, hle, _⟩ => by omega⟩
      have heq := hsame.length_eq
      have hsix : (stem.take 6).length = 6 := List.length_take_of_le (by omega)
      have hle₁ := length_unpad_le (pad 8 ((stem.take 6).map toupper ++ [longSign, trychar]))
      have hle₂ := length_unpad_le ((ext.take 3).map toupper)
      rw [length_pad (by rw [List.length_append, List.length_map, hsix]; rfl)] at hle₁
      rw [List.length_map] at hle₂
      rw [shown, List.length_append, unpad_pad 3] at heq
      cases dir with
      | true =>
        rw [if_pos rfl, List.length_nil] at heq
        omega
      | false =>
        rw [if_neg Bool.false_ne_true, List.length_cons] at heq
        omega
    · rw [shortname_dot hext hfit] at hshort
      obtain ⟨rfl, hrest⟩ := Prod.mk.inj hshort
      obtain ⟨rfl, -⟩ := Prod.mk.inj hrest
      rw [shown_pad, sameName_toupper]
      cases dir with
      | true =>
        refine ⟨fun hsame => ?_, fun ⟨_, hno, _⟩ => by cases hno⟩
        have heq := hsame.length_eq
        have hle₁ := length_unpad_le stem
        rw [shown, if_pos rfl, List.append_nil] at heq
        omega
      | false =>
        rw [same_stem_iff hstem hascii]
        exact ⟨fun ⟨h₁, h₂⟩ => ⟨h₁, rfl, hfit, h₂⟩, fun ⟨h₁, _, _, h₂⟩ => ⟨h₁, h₂⟩⟩
  · rw [shortname_plain hdot haddr.not_gt] at hshort
    obtain ⟨rfl, hrest⟩ := Prod.mk.inj hshort
    obtain ⟨rfl, -⟩ := Prod.mk.inj hrest
    have hpad : pad 3 [] = pad 3 (([] : List UInt8).map toupper) := rfl
    rw [hpad, shown_pad, sameName_toupper, Fits]
    cases dir with
    | true =>
      rw [shown, if_pos rfl, if_pos rfl, List.append_nil]
      have hle := length_unpad_le (name.take 8)
      have hle₁ := List.length_take_le 8 name
      have hle₂ := List.length_take_le' 8 name
      constructor
      · intro hsame
        have heq := hsame.length_eq
        have height : name.length ≤ 8 := by omega
        rw [List.take_of_length_le height] at heq
        exact ⟨(unpad_eq_self h).mp (eq_of_unpad_length heq le_rfl), hdot, height⟩
      · rintro ⟨hblank, -, hlen⟩
        rw [List.take_of_length_le hlen, (unpad_eq_self h).mpr hblank]
        exact rfl
    | false =>
      refine ⟨fun hsame => absurd hsame (not_sameName_of_dot (by simp [shown]) hdot), ?_⟩
      rintro ⟨-, hex⟩
      rw [if_neg Bool.false_ne_true] at hex
      obtain ⟨stem, ext, rfl, -⟩ := hex
      exact absurd (by simp) hdot

/-! ## The search for a short name -/

variable {opens : ℕ → List UInt8 → Option Bool} {taken : List UInt8 → Bool} {fuel : ℕ}

lemma triedName_eq (sname extention : List UInt8) : fat32GetShortname
    { zeroEntry with name := sname, extention := extention } = shown false sname extention := by
  simp [fat32GetShortname, shown, zeroEntry]

/-- A name that is not taken ends the search. -/
lemma buildShortname_free (hopens : ∀ fuel s, opens fuel s = some (taken s))
    (hshort : shortname name addr longSign trychar = (sname, extention, passed))
    (hfree : taken (shown false sname extention) = false) :
    buildShortname opens (fuel + 1) name addr longSign trychar = some (sname, extention) := by
  rw [buildShortname, hshort]
  dsimp only
  rw [triedName_eq, hopens, Option.bind_eq_bind, Option.bind_some, hfree]
  rfl

/-- After a name that is taken the search goes on behind the bytes that were passed. -/
lemma buildShortname_taken (fuel : ℕ) (hopens : ∀ fuel s, opens fuel s = some (taken s))
    (hshort : shortname name addr longSign trychar = (sname, extention, passed))
    (htaken : taken (shown false sname extention) = true) :
    ∃ longSign' trychar', buildShortname opens (fuel + 1) name addr longSign trychar =
      buildShortname opens fuel (name.drop passed) (addr + UInt32.ofNat passed) longSign'
        trychar' := by
  by_cases hsix : trychar = 54
  · refine ⟨longSign + 1, 49, ?_⟩
    rw [buildShortname, hshort]
    dsimp only
    rw [triedName_eq, hopens, Option.bind_eq_bind, Option.bind_some, htaken, if_pos rfl, if_pos hsix]
  · refine ⟨longSign, trychar + 1, ?_⟩
    rw [buildShortname, hshort]
    dsimp only
    rw [triedName_eq, hopens, Option.bind_eq_bind, Option.bind_some, htaken, if_pos rfl, if_neg hsix]

/-- A short name that is found is a trial with the name from somewhere on. -/
lemma buildShortname_trial (hopens : ∀ fuel s, opens fuel s = some (taken s))
    (haddr : Low addr name)
    (h : buildShortname opens fuel name addr longSign trychar = some (sname, extention)) :
    ∃ k passed, k ≤ name.length ∧ ((46 : UInt8) ∈ name → (46 : UInt8) ∈ name.drop k) ∧
      IsTrial (name.drop k) sname extention passed := by
  induction fuel generalizing name addr longSign trychar with
  | zero => cases h
  | succ fuel ih =>
    obtain ⟨sname', extention', passed, hshort, htrial⟩ := shortname_trial haddr longSign trychar
    cases htaken : taken (shown false sname' extention') with
    | false =>
      rw [buildShortname_free hopens hshort htaken] at h
      obtain ⟨rfl, rfl⟩ := Prod.mk.inj (Option.some.inj h)
      exact ⟨0, passed, Nat.zero_le _, id, htrial⟩
    | true =>
      obtain ⟨longSign', trychar', hnext⟩ := buildShortname_taken fuel hopens hshort htaken
      rw [hnext] at h
      obtain ⟨k, p, hk, hdot, htrial'⟩ := ih (haddr.drop htrial.passed_le) h
      rw [List.length_drop] at hk
      rw [List.drop_drop] at hdot htrial'
      have hle := htrial.passed_le
      exact ⟨passed + k, p, by omega, fun hmem => hdot (htrial.dot hmem), htrial'⟩

end ShortNames

end Sgos.Fat32
