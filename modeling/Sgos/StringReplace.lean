import Sgos.StringSlices

/-!
# Replacing in strings

`strstr` finds the first occurrence of a word, and `find` finds it behind a place. `replace` goes
from one occurrence to the next and returns the text with all of them replaced, unless the word is
empty: then its loop stays in place.
-/
namespace Sgos.SystemString
open ByteBuffer CString TextBuffer Outcome Occurrences

variable {mem : Malloc} {s src dest tmp : Str} {u v w : List UInt8}

/-! ## `strstr` and `find` -/

/-- The comparison ends with the word, or at a character that differs, at the latest at the end of
the text. -/
lemma mismatch_spec (hu : (0 : UInt8) ∉ u) (hv : (0 : UInt8) ∉ v) (rest : List UInt8) :
    u <+: v ∧ mismatch u (v ++ 0 :: rest) = some none ∨
      ¬u <+: v ∧ ∃ b, mismatch u (v ++ 0 :: rest) = some (some b) ∧ (b = 0 → v.length < u.length) := by
  induction u generalizing v with
  | nil => exact .inl ⟨List.nil_prefix, rfl⟩
  | cons a u ih =>
    rw [List.mem_cons, not_or] at hu
    cases v with
    | nil =>
      refine .inr ⟨by simp, 0, ?_, by simp⟩
      rw [List.nil_append, mismatch, if_neg (Ne.symm hu.1)]
    | cons b v =>
      rw [List.mem_cons, not_or] at hv
      rw [List.cons_append, mismatch, List.cons_prefix_cons]
      by_cases hab : a = b
      · subst hab
        rw [if_pos rfl]
        obtain ⟨hpre, hnone⟩ | ⟨hpre, c, hc, hend⟩ := ih hu.2 hv.2
        · exact .inl ⟨⟨rfl, hpre⟩, hnone⟩
        · exact .inr ⟨fun h => hpre h.2, c, hc, fun h => Nat.succ_lt_succ (hend h)⟩
      · rw [if_neg hab]
        exact .inr ⟨fun h => hab h.1, b, rfl, fun h => absurd h.symm hv.1⟩

/-- `strstr` stays in the text and finds the first occurrence. -/
lemma strstrFrom_spec (hu : (0 : UInt8) ∉ u) (hv : (0 : UInt8) ∉ v) (i : ℕ) (rest : List UInt8) :
    strstrFrom u i (v ++ 0 :: rest) = some ((firstOccurrence u v).map (i + ·)) := by
  induction v generalizing i with
  | nil =>
    obtain ⟨hpre, hsame⟩ | ⟨hpre, b, hb, -⟩ := mismatch_spec hu hv rest
    · rw [List.nil_append] at hsame ⊢
      rw [strstrFrom, hsame, firstOccurrence, if_pos (List.prefix_nil.mp hpre)]
      rfl
    · have hne : u ≠ [] := by
        rintro rfl
        exact hpre List.nil_prefix
      have hzero : b = 0 := by
        obtain ⟨a, u, rfl⟩ := List.exists_cons_of_ne_nil hne
        rw [List.mem_cons, not_or] at hu
        rw [List.nil_append, mismatch, if_neg (Ne.symm hu.1)] at hb
        exact (Option.some.inj (Option.some.inj hb)).symm
      rw [List.nil_append] at hb ⊢
      rw [strstrFrom, hb, firstOccurrence, if_neg hne]
      exact if_pos hzero
  | cons c v ih =>
    rw [firstOccurrence]
    obtain ⟨hpre, hsame⟩ | ⟨hpre, b, hb, hend⟩ := mismatch_spec hu hv rest
    · rw [List.cons_append] at hsame ⊢
      rw [strstrFrom, hsame, if_pos hpre]
      rfl
    · rw [List.cons_append] at hb ⊢
      rw [strstrFrom, hb, if_neg hpre]
      dsimp only
      split_ifs with hzero
      · -- the text is shorter than the word
        have hshort := hend hzero
        have hnone : firstOccurrence u v = none := by
          by_contra hsome
          obtain ⟨k, hk⟩ := Option.ne_none_iff_exists'.mp hsome
          have hfit := length_of_firstOccurrence hk
          rw [List.length_cons] at hshort
          omega
        rw [hnone]
        rfl
      · rw [List.mem_cons, not_or] at hv
        rw [ih hv.2, Option.map_map]
        congr 2
        funext k
        exact Nat.add_right_comm i 1 k ▸ (Nat.add_assoc i k 1)

lemma find_end (hs : Holds s v) (substr : Str) : find s substr v.length = some (-1) :=
  if_pos hs.length.le

/-- `find` behind a place of the text. -/
lemma find_eq (hs : Holds s v) (hsrc : Holds src u) {j : ℕ} (hj : j < v.length) :
    (∀ k, firstOccurrence u (v.drop j) = some k → find s src j = some ((j : ℤ) + k)) ∧
      (firstOccurrence u (v.drop j) = none → find s src j = some (-1)) := by
  have hlen := hs.length
  have hmax := hs.length_lt_max
  obtain ⟨buf, hbuf, htext, -⟩ := hs.text
  obtain ⟨hv, rest, hrest⟩ := cstring_eq_some htext
  obtain ⟨word, hword, hu, -⟩ := hsrc.text
  have hzero : (0 : UInt8) ∉ v.drop j := fun h => hv (List.mem_of_mem_drop h)
  have hfound : strstr (buf.drop (j : ℤ).toNat) word = some ((firstOccurrence u (v.drop j)).map (0 + ·)) := by
    rw [strstr, hu, Int.toNat_natCast, hrest, List.drop_append_of_le_length hj.le]
    exact strstrFrom_spec (cstring_eq_some hu).1 hzero 0 rest
  rw [find, if_neg (by omega), if_neg (by omega), hbuf, hword]
  simp only [Option.bind_eq_bind, Option.bind_some, hfound]
  constructor
  · intro k hk
    have hfit := length_of_firstOccurrence hk
    rw [List.length_drop] at hfit
    rw [hk, Option.map_some]
    dsimp only
    rw [Nat.zero_add, int_eq (by omega) (by omega)]
  · intro hnone
    rw [hnone]
    rfl

/-- The place that `find( src.buf, j )` should return: of the first occurrence behind `j`. -/
def nextPlace (u v : List UInt8) (j : ℕ) : ℤ :=
  if j < v.length then
    match firstOccurrence u (v.drop j) with
    | some k => (j + k : ℕ)
    | none => -1
  else -1

lemma findText_spec (hmem : mem.Serves) (hs : Holds s v) (hsrc : Holds src u) {j : ℕ}
    (hj : j ≤ v.length) : Gives (findText mem s src j) (· = nextPlace u v j) := by
  obtain ⟨buf, hbuf, htext, -⟩ := hsrc.text
  have hcopy := constructText_spec hmem htext hsrc.length_lt_max
  rw [← hbuf] at hcopy
  refine hcopy.bind fun substr hsubstr => ?_
  by_cases hend : j < v.length
  · obtain ⟨hsome, hnone⟩ := find_eq hs hsubstr hend
    rw [nextPlace, if_pos hend]
    cases hocc : firstOccurrence u (v.drop j) with
    | some k => exact gives_ofOption (hsome k hocc) (Nat.cast_add j k).symm
    | none => exact gives_ofOption (hnone hocc) rfl
  · have hlast : j = v.length := by omega
    rw [nextPlace, if_neg hend, hlast]
    exact gives_ofOption (find_end hs substr) rfl

/-- `mid` of a part that is in the text. -/
lemma mid_text (hmem : mem.Serves) (hs : Holds s v) {start n : ℕ} (hend : start + n ≤ v.length) :
    Gives (mid mem s start n) (Holds · ((v.drop start).take n)) := by
  have hlen := hs.length
  have hmax := hs.length_lt_max
  refine (construct_spec hmem).bind fun tmp htmp => ?_
  have hsum : int ((start : ℤ) + n) = start + n := int_eq (by omega) (by omega)
  have hclip : (if int ((start : ℤ) + n) > s.len then int (s.len - start) else (n : ℤ)) = n := by
    rw [hsum]
    exact if_neg (by omega)
  dsimp only
  rw [hclip]
  by_cases hpos : 0 < n
  · rw [if_pos ⟨by omega, by omega⟩]
    exact slice_text start n hmem hs htmp.1 (by omega) (by omega) (by omega)
  · have hzero : n = 0 := by omega
    rw [if_neg (by omega), hzero, List.take_zero]
    exact gives_pure htmp.1

/-! ## `replace` -/

lemma nextPlace_eq {j : ℕ} (h : 0 ≤ nextPlace u v j) :
    ∃ k, firstOccurrence u (v.drop j) = some k ∧ nextPlace u v j = (j + k : ℕ) ∧ j < v.length := by
  unfold nextPlace at h ⊢
  split_ifs at h ⊢ with hj
  · cases hocc : firstOccurrence u (v.drop j) with
    | some k => exact ⟨k, rfl, rfl, hj⟩
    | none =>
      rw [hocc] at h
      have hneg : (0 : ℤ) ≤ -1 := h
      omega
  · omega

lemma replaced_end (w : List UInt8) {j : ℕ} (h : ¬0 ≤ nextPlace u v j) :
    replaced u w (v.drop j) = v.drop j := by
  unfold nextPlace at h
  split_ifs at h with hj
  · cases hocc : firstOccurrence u (v.drop j) with
    | some k =>
      rw [hocc] at h
      exact absurd (Int.natCast_nonneg _) h
    | none => exact replaced_of_none hocc
  · rw [List.drop_of_length_le (by omega), replaced]
    split_ifs <;> rfl

/-- One turn of the loop: the text up to the next occurrence and the replacement are appended. -/
lemma replaceLoop_turn (hmem : mem.Serves) (hs : Holds s v) (hsrc : Holds src u)
    (hdest : Holds dest w) {acc : List UInt8} (htmp : Holds tmp acc) {j k : ℕ} (fuel : ℕ)
    (hocc : firstOccurrence u (v.drop j) = some k) (hj : j ≤ v.length)
    (hfit : ((acc ++ ((v.drop j).take k ++ w)).length : ℤ) < INT_MAX) {R : Str × ℤ → Prop}
    (hrest : ∀ tmp', Holds tmp' (acc ++ ((v.drop j).take k ++ w)) →
      Gives (replaceLoop mem s src dest fuel tmp' ((j + k + u.length : ℕ) : ℤ)
        (nextPlace u v (j + k + u.length))) R) :
    Gives (replaceLoop mem s src dest (fuel + 1) tmp j (j + k : ℕ)) R := by
  have hmax := hs.length_lt_max
  have hin := length_of_firstOccurrence hocc
  rw [List.length_drop] at hin
  have hcount : int (((j + k : ℕ) : ℤ) - j) = k := by
    rw [int_eq (by omega) (by omega)]
    omega
  have hnext : int (((j + k : ℕ) : ℤ) + src.len) = (j + k + u.length : ℕ) := by
    rw [hsrc.length, int_eq (by omega) (by omega)]
    omega
  rw [List.length_append] at hfit
  unfold replaceLoop
  rw [if_pos (by omega), hcount, hnext]
  refine (mid_text hmem hs (by omega)).bind fun piece hpiece => ?_
  refine (plus_spec hmem hpiece hdest ?_).bind fun piece' hpiece' => ?_
  · rw [List.length_append] at hfit
    omega
  refine (plusAssign_spec hmem htmp hpiece' (by omega)).bind fun tmp' htmp' => ?_
  refine (findText_spec hmem hs hsrc (by omega)).bind fun i hi => ?_
  subst hi
  exact hrest tmp' htmp'

/-- The loop leaves a beginning of the result, and the place in the text behind which the rest of
it follows. -/
lemma replaceLoop_spec (hmem : mem.Serves) (hs : Holds s v) (hsrc : Holds src u)
    (hdest : Holds dest w) (hne : u ≠ []) (fuel : ℕ) {tmp : Str} {acc : List UInt8} {j : ℕ}
    (htmp : Holds tmp acc) (hj : j ≤ v.length) (hfuel : v.length - j < fuel)
    (hfit : ((acc ++ replaced u w (v.drop j)).length : ℤ) < INT_MAX) :
    Gives (replaceLoop mem s src dest fuel tmp j (nextPlace u v j)) fun r =>
      ∃ acc' j', Holds r.1 acc' ∧ r.2 = (j' : ℕ) ∧ j' ≤ v.length ∧
        acc' ++ v.drop j' = acc ++ replaced u w (v.drop j) := by
  induction fuel generalizing tmp acc j with
  | zero => omega
  | succ fuel ih =>
    by_cases hfound : 0 ≤ nextPlace u v j
    · obtain ⟨k, hocc, hplace, hin⟩ := nextPlace_eq hfound
      have hlength := length_of_firstOccurrence hocc
      have hpos : 0 < u.length := List.length_pos_iff.mpr hne
      have hsplit := replaced_of_some w hne hocc
      rw [List.length_drop] at hlength
      rw [List.drop_drop, ← Nat.add_assoc] at hsplit
      have hacc : acc ++ replaced u w (v.drop j) =
          (acc ++ ((v.drop j).take k ++ w)) ++ replaced u w (v.drop (j + k + u.length)) := by
        rw [hsplit, List.append_assoc, List.append_assoc, List.append_assoc]
      rw [hacc] at hfit ⊢
      rw [hplace]
      refine replaceLoop_turn hmem hs hsrc hdest htmp fuel hocc hj ?_ fun tmp' htmp' =>
        ih htmp' (by omega) (by omega) hfit
      rw [List.length_append] at hfit
      omega
    · unfold replaceLoop
      rw [if_neg hfound]
      exact gives_pure ⟨acc, j, htmp, rfl, hj, by rw [replaced_end w hfound]⟩

/-- With an empty word the loop finds the place where it is. -/
lemma replaceLoop_stays (hmem : mem.Serves) (hs : Holds s v) (hsrc : Holds src [])
    (hne : v ≠ []) (fuel : ℕ) (tmp : Str) : Fails (replaceLoop mem s src dest fuel tmp 0 0) := by
  have hplace : nextPlace [] v 0 = 0 := by
    rw [nextPlace, if_pos (List.length_pos_iff.mpr hne), firstOccurrence_nil]
    rfl
  have hnext : int (0 + src.len) = 0 := by
    rw [hsrc.length]
    rfl
  induction fuel generalizing tmp with
  | zero => exact fails_ofOption rfl
  | succ fuel ih =>
    unfold replaceLoop
    rw [if_pos le_rfl, hnext]
    refine bind_fails fun piece => bind_fails fun piece' => bind_fails fun tmp' => ?_
    refine (findText_spec hmem hs hsrc (Nat.zero_le _)).bind_fails fun i hi => ?_
    rw [hi, hplace]
    exact ih tmp'

/-- `replace` returns, whatever number of turns from some number on it may take, the text with the
occurrences replaced. -/
def ReplaceOk (mem : Malloc) (s src dest : Str) (u v w : List UInt8) : Prop :=
  ∃ n, ∀ fuel, n ≤ fuel → Gives (replace mem fuel s src dest) (Holds · (replaced u w v))

lemma replace_gives (hmem : mem.Serves) (hs : Holds s v) (hsrc : Holds src u)
    (hdest : Holds dest w) (hok : u ≠ [] ∨ v = [])
    (hfit : ((replaced u w v).length : ℤ) < INT_MAX) {fuel : ℕ} (hfuel : v.length < fuel) :
    Gives (replace mem fuel s src dest) (Holds · (replaced u w v)) := by
  refine (constructCopy_spec hmem hsrc).bind fun src' hsrc' => ?_
  refine (constructCopy_spec hmem hdest).bind fun dest' hdest' => ?_
  refine (construct_spec hmem).bind fun tmp htmp => ?_
  refine (findText_spec (j := 0) hmem hs hsrc' (Nat.zero_le _)).bind fun i hi => ?_
  subst hi
  have hloop : Gives (replaceLoop mem s src' dest' fuel tmp (0 : ℕ) (nextPlace u v 0)) fun r =>
      ∃ acc' j', Holds r.1 acc' ∧ r.2 = (j' : ℕ) ∧ j' ≤ v.length ∧
        acc' ++ v.drop j' = [] ++ replaced u w (v.drop 0) := by
    by_cases hne : u = []
    · -- there is nothing to search in
      have hv : v = [] := hok.resolve_left (not_not.mpr hne)
      obtain ⟨fuel, rfl⟩ : ∃ n, fuel = n + 1 := ⟨fuel - 1, by omega⟩
      have hplace : ¬0 ≤ nextPlace u v 0 := by
        rw [nextPlace, if_neg (by rw [hv]; exact Nat.lt_irrefl 0)]
        decide
      unfold replaceLoop
      rw [if_neg hplace]
      exact gives_pure ⟨[], 0, htmp.1, rfl, Nat.zero_le _, by rw [replaced_end w hplace]⟩
    · exact replaceLoop_spec hmem hs hsrc' hdest' hne fuel htmp.1 (Nat.zero_le _) (by omega)
        (by rw [List.nil_append, List.drop_zero]; exact hfit)
  refine hloop.bind fun r hr => ?_
  obtain ⟨acc, j, hacc, hplace, hj, hrest⟩ := hr
  rw [List.nil_append, List.drop_zero] at hrest
  have hmax := hs.length_lt_max
  have hcount : int (s.len - r.2) = (v.length - j : ℕ) := by
    rw [hs.length, hplace, int_eq (by omega) (by omega)]
    omega
  rw [hcount, hplace]
  refine (mid_text hmem hs (by omega)).bind fun rest hrest' => ?_
  rw [List.take_of_length_le (by rw [List.length_drop])] at hrest'
  rw [← hrest] at hfit ⊢
  refine plusAssign_spec hmem hacc hrest' ?_
  rw [List.length_append] at hfit
  omega

/-- The empty word in a text keeps `replace` in its loop. -/
lemma replace_stays (hmem : mem.Serves) (hs : Holds s v) (hsrc : Holds src []) (hne : v ≠ [])
    (fuel : ℕ) (dest : Str) : Fails (replace mem fuel s src dest) := by
  refine (constructCopy_spec hmem hsrc).bind_fails fun src' hsrc' => ?_
  refine bind_fails fun dest' => bind_fails fun tmp => ?_
  refine (findText_spec (j := 0) hmem hs hsrc' (Nat.zero_le _)).bind_fails fun i hi => ?_
  have hplace : nextPlace [] v 0 = 0 := by
    rw [nextPlace, if_pos (List.length_pos_iff.mpr hne), firstOccurrence_nil]
    rfl
  rw [hi, hplace]
  exact (replaceLoop_stays hmem hs hsrc' hne fuel tmp).bind

/-- `replace` returns the text with the occurrences replaced exactly if the word is not empty, or
the text is, and the result has a length. -/
theorem replace_iff (hmem : mem.Serves) (hs : Holds s v) (hsrc : Holds src u)
    (hdest : Holds dest w) :
    ReplaceOk mem s src dest u v w ↔
      (u ≠ [] ∨ v = []) ∧ ((replaced u w v).length : ℤ) < INT_MAX := by
  constructor
  · rintro ⟨n, hn⟩
    constructor
    · by_contra hstuck
      rw [not_or, not_not] at hstuck
      obtain ⟨rfl, hne⟩ := hstuck
      exact (replace_stays hmem hs hsrc hne n dest).not_gives (hn n le_rfl)
    · obtain ⟨r, hr⟩ := (hn n le_rfl).exists
      exact hr.length_lt_max
  · rintro ⟨hok, hfit⟩
    exact ⟨v.length + 1, fun fuel hfuel => replace_gives hmem hs hsrc hdest hok hfit hfuel⟩

theorem replace_iff_abc : ReplaceOk zeros abc abc abc [0x61, 0x62, 0x63] [0x61, 0x62, 0x63]
      [0x61, 0x62, 0x63] ↔ ([0x61, 0x62, 0x63] ≠ ([] : List UInt8) ∨ [0x61, 0x62, 0x63] = ([] : List UInt8)) ∧
    ((replaced [0x61, 0x62, 0x63] [0x61, 0x62, 0x63] ([0x61, 0x62, 0x63] : List UInt8)).length : ℤ) <
      INT_MAX :=
  replace_iff zeros_serves abc_holds abc_holds abc_holds

/-- Replacing the empty word in `abc` does not end. -/
theorem not_replaceOk : ¬ReplaceOk zeros abc ⟨some [0], 0, 1⟩ abc [] [0x61, 0x62, 0x63]
    [0x61, 0x62, 0x63] := by
  rintro ⟨n, hn⟩
  have hempty : Holds ⟨some [0], 0, 1⟩ [] :=
    ⟨stores_of_append [] List.not_mem_nil rfl rfl (by decide), rfl⟩
  have hstays := replace_stays zeros_serves abc_holds hempty (by simp) n abc
  exact hstays.not_gives (hn n le_rfl)

end Sgos.SystemString
