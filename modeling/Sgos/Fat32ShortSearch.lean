import Sgos.Fat32RoundTrip

/-!
# The search for a short name

`fat32_build_shortname` tries a short name for each piece of the base of a name, from the front to the
end, as long as there is a file that `fat32_open` takes for it. Behind the last piece only a blank
base is left, which it tries for ever.
-/
namespace Sgos.Fat32
open ByteStore

namespace ShortSearch
open Scan Lookup Names Create ShortNames RoundTrip

/-! ## The pieces of a name -/

/-- A name with this base, and this extension if there is a dot. -/
def nameOf (dot : Bool) (base ext : List UInt8) : List UInt8 :=
  base ++ if dot then 46 :: ext else []

/-- The first piece of a base. In front of a dot one of more than eight characters is cut. -/
def piece (dot : Bool) (longSign trychar : UInt8) (base : List UInt8) : List UInt8 :=
  if dot = true ∧ 8 < base.length then (base.take 6).map toupper ++ [longSign, trychar]
  else (base.take 8).map toupper

/-- The characters of the base that are in its first piece. -/
def width (dot : Bool) (base : List UInt8) : ℕ :=
  if dot = true ∧ 8 < base.length then 6 else (base.take 8).length

/-- The marks of the next piece. -/
def nextSign (longSign trychar : UInt8) : UInt8 := if trychar = 54 then longSign + 1 else longSign
def nextTry (trychar : UInt8) : UInt8 := if trychar = 54 then 49 else trychar + 1

lemma width_pos {dot : Bool} {base : List UInt8} (h : base ≠ []) : 0 < width dot base := by
  have hlen := List.length_pos_of_ne_nil h
  rw [width, List.length_take]
  split_ifs <;> omega

lemma width_le (dot : Bool) (base : List UInt8) : width dot base ≤ base.length := by
  rw [width, List.length_take]
  split_ifs <;> omega

/-- All pieces of a base. -/
def pieces (dot : Bool) (longSign trychar : UInt8) (base : List UInt8) : List (List UInt8) :=
  if base = [] then []
  else piece dot longSign trychar base ::
    pieces dot (nextSign longSign trychar) (nextTry trychar) (base.drop (width dot base))
termination_by base.length
decreasing_by
  rename_i h
  have hpos := @width_pos dot base h
  have hle := width_le dot base
  rw [List.length_drop]
  omega

/-- The characters of the extension that are kept. -/
def extField (dot : Bool) (ext : List UInt8) : List UInt8 :=
  if dot then (ext.take 3).map toupper else []

/-- A name, its base and its extension. -/
def hasDot (name : List UInt8) : Bool := (strrchr name 46).isSome

def baseOf (name : List UInt8) : List UInt8 := name.take ((strrchr name 46).getD name.length)

def extOf (name : List UInt8) : List UInt8 :=
  (strrchr name 46).elim [] fun e => name.drop (e + 1)

/-- The name that is tried for a piece. -/
def tried (dot : Bool) (ext p : List UInt8) : List UInt8 :=
  shown false (pad 8 p) (pad 3 (extField dot ext))

/-! ## What should come out, and when it does -/

/-- The search ends with eleven bytes, a base that is not blank, and a short name of no file. -/
def ShortNamed (opens : ℕ → List UInt8 → Option Bool) (rs : List (List UInt8)) (name : List UInt8)
    (addr : UInt32) : Prop :=
  ∃ sname extention, buildShortname opens addressSpace name addr 126 49 = some (sname, extention) ∧
    sname.length = 8 ∧ extention.length = 3 ∧ (∃ c ∈ sname, c ≠ 32) ∧
    ∀ b ∈ rs, isFile b = true → field b 0 11 ≠ sname ++ extention

/-- A file is opened by the names of the pieces in front of the `j`-th one, and by the name of this
one no file is. -/
def FirstFree (opens : ℕ → List UInt8 → Option Bool) (fuel : ℕ) (dot : Bool) (ext : List UInt8)
    (ps : List (List UInt8)) (j : ℕ) (p : List UInt8) : Prop :=
  ps[j]? = some p ∧ opens (fuel - 1 - j) (tried dot ext p) = some false ∧
    ∀ i < j, ∀ q, ps[i]? = some q → opens (fuel - 1 - i) (tried dot ext q) = some true

variable {opens : ℕ → List UInt8 → Option Bool} {dot : Bool} {base ext p q : List UInt8}
  {addr : UInt32} {longSign trychar : UInt8} {fuel j : ℕ} {ps : List (List UInt8)}
  {sname extention : List UInt8}

lemma length_piece_le : (piece dot longSign trychar base).length ≤ 8 := by
  rw [piece]
  split_ifs with h
  · rw [List.length_append, List.length_map, List.length_take]
    simp
  · rw [List.length_map]
    exact List.length_take_le _ _

lemma pieces_cons (h : base ≠ []) : pieces dot longSign trychar base =
    piece dot longSign trychar base ::
      pieces dot (nextSign longSign trychar) (nextTry trychar) (base.drop (width dot base)) := by
  rw [pieces, if_neg h]

lemma pieces_nil : pieces dot longSign trychar [] = [] := by
  rw [pieces, if_pos rfl]

lemma length_of_mem_pieces (hp : p ∈ pieces dot longSign trychar base) : p.length ≤ 8 := by
  fun_induction pieces dot longSign trychar base with
  | case1 => exact absurd hp List.not_mem_nil
  | case2 longSign trychar base h ih =>
    rcases List.mem_cons.mp hp with rfl | hp
    · exact length_piece_le
    · exact ih hp

lemma length_pieces_le : (pieces dot longSign trychar base).length ≤ base.length := by
  fun_induction pieces dot longSign trychar base with
  | case1 => exact Nat.zero_le _
  | case2 longSign trychar base h ih =>
    have hpos := @width_pos dot base h
    have hle := width_le dot base
    rw [List.length_drop] at ih
    rw [List.length_cons]
    omega

/-! ## One try -/

/-- The fields that are tried, and how far the name is passed. -/
lemma shortname_nameOf (hext : (46 : UInt8) ∉ ext) (hbase : dot = false → (46 : UInt8) ∉ base)
    (haddr : Low addr (nameOf dot base ext)) :
    shortname (nameOf dot base ext) addr longSign trychar =
      (pad 8 (piece dot longSign trychar base), pad 3 (extField dot ext), width dot base) := by
  cases dot with
  | true =>
    have hname : nameOf true base ext = base ++ 46 :: ext := rfl
    rw [hname]
    rcases Nat.lt_or_ge 8 base.length with hlong | hfit
    · rw [shortname_long hext hlong, piece, width, if_pos ⟨rfl, hlong⟩, if_pos ⟨rfl, hlong⟩]
      rfl
    · have hno : ¬(true = true ∧ 8 < base.length) := fun h => by omega
      rw [shortname_dot hext hfit, piece, width, if_neg hno, if_neg hno,
        List.take_of_length_le hfit]
      rfl
  | false =>
    have hname : nameOf false base ext = base := List.append_nil base
    have hno : ¬(false = true ∧ 8 < base.length) := fun h => Bool.false_ne_true h.1
    rw [hname] at haddr ⊢
    rw [shortname_plain (hbase rfl) haddr.not_gt, piece, width, if_neg hno, if_neg hno]
    rfl

lemma drop_nameOf (dot : Bool) (base ext : List UInt8) :
    (nameOf dot base ext).drop (width dot base) = nameOf dot (base.drop (width dot base)) ext := by
  rw [nameOf, nameOf, List.drop_append_of_le_length (width_le dot base)]

/-- A try: no file is opened and the search ends, or it goes on behind the piece. -/
lemma buildShortname_succ (hext : (46 : UInt8) ∉ ext) (hbase : dot = false → (46 : UInt8) ∉ base)
    (haddr : Low addr (nameOf dot base ext)) (fuel : ℕ) :
    buildShortname opens (fuel + 1) (nameOf dot base ext) addr longSign trychar =
      (opens fuel (tried dot ext (piece dot longSign trychar base))).bind fun taken =>
        if taken then buildShortname opens fuel (nameOf dot (base.drop (width dot base)) ext)
          (addr + UInt32.ofNat (width dot base)) (nextSign longSign trychar) (nextTry trychar)
        else some (pad 8 (piece dot longSign trychar base), pad 3 (extField dot ext)) := by
  rw [buildShortname, shortname_nameOf hext hbase haddr]
  dsimp only
  rw [triedName_eq, Option.bind_eq_bind, drop_nameOf, tried, nextSign, nextTry]
  cases opens fuel (shown false (pad 8 (piece dot longSign trychar base))
    (pad 3 (extField dot ext))) with
  | none => rfl
  | some taken =>
    cases taken with
    | false => rfl
    | true => split_ifs <;> rfl

lemma low_advance (haddr : Low addr (nameOf dot base ext)) :
    Low (addr + UInt32.ofNat (width dot base)) (nameOf dot (base.drop (width dot base)) ext) := by
  rw [← drop_nameOf]
  refine haddr.drop ?_
  rw [nameOf, List.length_append]
  exact (width_le dot base).trans (Nat.le_add_right _ _)

lemma not_mem_drop {c : UInt8} (h : c ∉ base) (k : ℕ) : c ∉ base.drop k :=
  fun hmem => h (List.mem_of_mem_drop hmem)

lemma firstFree_zero (h : base ≠ []) : FirstFree opens (fuel + 1) dot ext
    (pieces dot longSign trychar base) 0 p ↔ p = piece dot longSign trychar base ∧
      opens fuel (tried dot ext p) = some false := by
  rw [FirstFree, pieces_cons h, List.getElem?_cons_zero, Option.some.injEq, eq_comm]
  exact and_congr_right fun _ => and_iff_left fun i hi => absurd hi (Nat.not_lt_zero i)

lemma firstFree_succ (h : base ≠ []) : FirstFree opens (fuel + 1) dot ext
    (pieces dot longSign trychar base) (j + 1) p ↔
      opens fuel (tried dot ext (piece dot longSign trychar base)) = some true ∧
      FirstFree opens fuel dot ext (pieces dot (nextSign longSign trychar) (nextTry trychar)
        (base.drop (width dot base))) j p := by
  have hindex : ∀ i, fuel + 1 - 1 - (i + 1) = fuel - 1 - i := fun i => by omega
  rw [FirstFree, FirstFree, pieces_cons h, List.getElem?_cons_succ, hindex]
  constructor
  · rintro ⟨hp, hfree, htaken⟩
    refine ⟨htaken 0 j.succ_pos _ rfl, hp, hfree, fun i hi q hq => ?_⟩
    rw [← hindex]
    exact htaken (i + 1) (Nat.succ_lt_succ hi) q hq
  · rintro ⟨hfirst, hp, hfree, htaken⟩
    refine ⟨hp, hfree, fun i hi q hq => ?_⟩
    cases i with
    | zero =>
      obtain rfl := Option.some.inj hq
      exact hfirst
    | succ i =>
      rw [hindex]
      exact htaken i (Nat.lt_of_succ_lt_succ hi) q hq

/-- The first piece that is free is found. -/
lemma search_found (hext : (46 : UInt8) ∉ ext) (hbase : dot = false → (46 : UInt8) ∉ base)
    (haddr : Low addr (nameOf dot base ext)) (hj : j < fuel)
    (h : FirstFree opens fuel dot ext (pieces dot longSign trychar base) j p) :
    buildShortname opens fuel (nameOf dot base ext) addr longSign trychar =
      some (pad 8 p, pad 3 (extField dot ext)) := by
  induction j generalizing fuel base addr longSign trychar with
  | zero =>
    obtain ⟨fuel, rfl⟩ := Nat.exists_eq_succ_of_ne_zero (Nat.ne_of_gt hj)
    have hne : base ≠ [] := by
      rintro rfl
      rw [FirstFree, pieces_nil] at h
      cases h.1
    obtain ⟨rfl, hfree⟩ := (firstFree_zero hne).mp h
    rw [buildShortname_succ hext hbase haddr, hfree]
    rfl
  | succ j ih =>
    obtain ⟨fuel, rfl⟩ := Nat.exists_eq_succ_of_ne_zero (Nat.ne_of_gt (Nat.zero_lt_of_lt hj))
    have hne : base ≠ [] := by
      rintro rfl
      rw [FirstFree, pieces_nil] at h
      cases h.1
    obtain ⟨htaken, hrest⟩ := (firstFree_succ hne).mp h
    rw [buildShortname_succ hext hbase haddr, htaken]
    exact ih (fun hdot => not_mem_drop (hbase hdot) _) (low_advance haddr)
      (Nat.lt_of_succ_lt_succ hj) hrest

/-- What is found is the first piece that is free, or blank. -/
lemma search_spec (hext : (46 : UInt8) ∉ ext) (hbase : dot = false → (46 : UInt8) ∉ base)
    (haddr : Low addr (nameOf dot base ext))
    (h : buildShortname opens fuel (nameOf dot base ext) addr longSign trychar =
      some (sname, extention)) :
    sname = pad 8 [] ∨ ∃ j p, FirstFree opens fuel dot ext (pieces dot longSign trychar base) j p ∧
      sname = pad 8 p ∧ extention = pad 3 (extField dot ext) := by
  induction fuel generalizing base addr longSign trychar with
  | zero => cases h
  | succ fuel ih =>
    rw [buildShortname_succ hext hbase haddr] at h
    obtain ⟨taken, hopens, h⟩ := Option.bind_eq_some_iff.mp h
    by_cases hne : base = []
    · subst hne
      cases taken with
      | false =>
        obtain ⟨rfl, -⟩ := Prod.mk.inj (Option.some.inj h)
        rw [piece, if_neg fun hlong => Nat.not_lt_zero 8 hlong.2]
        exact .inl rfl
      | true =>
        refine (ih (fun hdot => not_mem_drop (hbase hdot) _) (low_advance haddr) h).imp_right ?_
        rintro ⟨j, p, hfirst, -⟩
        rw [List.drop_nil, pieces_nil] at hfirst
        cases hfirst.1
    · cases taken with
      | false =>
        obtain ⟨rfl, rfl⟩ := Prod.mk.inj (Option.some.inj h)
        exact .inr ⟨0, _, (firstFree_zero hne).mpr ⟨rfl, hopens⟩, rfl, rfl⟩
      | true =>
        refine (ih (fun hdot => not_mem_drop (hbase hdot) _) (low_advance haddr) h).imp_right ?_
        rintro ⟨j, p, hfirst, hp⟩
        exact ⟨j + 1, p, (firstFree_succ hne).mpr ⟨hopens, hfirst⟩, hp⟩

/-! ## When a short name is found -/

lemma blank_pad (h : ∃ c ∈ pad 8 p, c ≠ 32) : ∃ c ∈ p, c ≠ 32 := by
  obtain ⟨c, hc, hne⟩ := h
  rcases List.mem_append.mp hc with hc | hc
  · exact ⟨c, hc, hne⟩
  · exact absurd (List.eq_of_mem_replicate hc) hne

lemma name_eq (name : List UInt8) :
    nameOf (hasDot name) (baseOf name) (extOf name) = name ∧ (46 : UInt8) ∉ extOf name ∧
      (hasDot name = false → (46 : UInt8) ∉ baseOf name) := by
  by_cases hdot : (46 : UInt8) ∈ name
  · obtain ⟨stem, ext, rfl, hext⟩ := last_dot hdot
    have hpos := @strrchr_dot stem ext hext
    rw [hasDot, baseOf, extOf, hpos]
    simp only [Option.isSome_some, Option.getD_some, List.take_left, Option.elim_some, drop_dot]
    exact ⟨rfl, hext, fun h => by cases h⟩
  · rw [hasDot, baseOf, extOf, strrchr_none hdot]
    simp only [Option.isSome_none, Option.getD_none, List.take_length, Option.elim_none]
    exact ⟨List.append_nil name, List.not_mem_nil, fun _ => hdot⟩

section Volume
variable {dev : Fat32Dev} {clock : Clock} {d : Store} {cs : List UInt32} {parent : File}
  {stack : ℕ → Stack} {fsave : FileEnt} {name : List UInt8}

/-- A short name comes out exactly if a piece of the base is free and not blank, and no file has it,
and files are opened by all pieces in front of it. -/
theorem shortNamed_iff (haddr : Low addr name) :
    ShortNamed (opened dev clock d parent stack fsave) (records dev d cs) name addr ↔
      ∃ j p, FirstFree (opened dev clock d parent stack fsave) addressSpace (hasDot name)
          (extOf name) (pieces (hasDot name) 126 49 (baseOf name)) j p ∧
        (∃ c ∈ p, c ≠ 32) ∧
        ∀ b ∈ records dev d cs, isFile b = true →
          field b 0 11 ≠ pad 8 p ++ pad 3 (extField (hasDot name) (extOf name)) := by
  obtain ⟨hname, hext, hbase⟩ := name_eq name
  rw [← hname] at haddr
  have hspec := fun sname extention => @search_spec (opened dev clock d parent stack fsave)
    (hasDot name) (baseOf name) (extOf name) addr 126 49 addressSpace sname extention hext hbase haddr
  rw [hname] at hspec
  constructor
  · rintro ⟨sname, extention, hbuild, -, -, hsolid, hunique⟩
    rcases hspec _ _ hbuild with rfl | ⟨j, p, hfirst, rfl, rfl⟩
    · obtain ⟨c, hc, -⟩ := blank_pad hsolid
      exact absurd hc List.not_mem_nil
    · exact ⟨j, p, hfirst, blank_pad hsolid, hunique⟩
  · rintro ⟨j, p, hfirst, ⟨c, hc, hne⟩, hunique⟩
    have hj : j < addressSpace := by
      have hlt := (List.getElem?_eq_some_iff.mp hfirst.1).1
      have hle := @length_pieces_le (hasDot name) (baseOf name) 126 49
      have hspace : addressSpace = 2 ^ 32 := by decide
      rw [Low, nameOf, List.length_append] at haddr
      omega
    have hlen : (extField (hasDot name) (extOf name)).length ≤ 3 := by
      rw [extField]
      split_ifs
      · rw [List.length_map]
        exact List.length_take_le _ _
      · exact Nat.zero_le _
    have hfound := search_found hext hbase haddr hj hfirst
    rw [hname] at hfound
    exact ⟨_, _, hfound,
      length_pad (length_of_mem_pieces (List.mem_of_getElem? hfirst.1)), length_pad hlen,
      ⟨c, List.mem_append_left _ hc, hne⟩, hunique⟩

end Volume

/-! ## In an empty directory -/

/-- `foo.txt` gets the short name `FOO     TXT`. -/
theorem shortNamed_foo : ShortNamed (opened smallDev noClock smallStore fooDir (fun _ => noStack)
      (newFile [102, 111, 111, 46, 116, 120, 116])) (records smallDev smallStore [2])
    [102, 111, 111, 46, 116, 120, 116] 4096 := by
  have hunused : (records smallDev smallStore [2]).all (fun b => !isFile b) = true := by
    decide +kernel
  have hdot : hasDot [102, 111, 111, 46, 116, 120, 116] = true := rfl
  have hbase : baseOf [102, 111, 111, 46, 116, 120, 116] = [102, 111, 111] := rfl
  refine (shortNamed_iff (by rw [Low]; decide)).mpr ⟨0, [70, 79, 79], ⟨?_, ?_, ?_⟩,
    ⟨70, by decide, by decide⟩, fun b hb hfile => ?_⟩
  · rw [hdot, hbase, pieces_cons (by decide)]
    rfl
  · decide +kernel
  · exact fun i hi => absurd hi (Nat.not_lt_zero i)
  · have hno := List.all_eq_true.mp hunused b hb
    rw [hfile] at hno
    cases hno

/-- `.foo` gets a blank one. -/
theorem not_shortNamed : ¬ShortNamed (opened smallDev noClock smallStore fooDir (fun _ => noStack)
      (newFile [46, 102, 111, 111])) (records smallDev smallStore [2])
    [46, 102, 111, 111] 4096 := by
  rintro ⟨sname, extention, hbuild, -, -, ⟨c, hc, hne⟩, -⟩
  have hblank : buildShortname (opened smallDev noClock smallStore fooDir (fun _ => noStack)
      (newFile [46, 102, 111, 111])) addressSpace [46, 102, 111, 111] 4096 126 49 =
      some (List.replicate 8 32, [70, 79, 79]) := by decide +kernel
  obtain ⟨rfl, -⟩ := Prod.mk.inj (Option.some.inj (hblank.symm.trans hbuild))
  exact hne (List.eq_of_mem_replicate hc)

end ShortSearch

end Sgos.Fat32
