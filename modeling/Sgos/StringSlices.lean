import Mathlib.Data.List.TakeWhile
import Sgos.SystemStringLaw

/-!
# Parts of strings

What `left`, `right`, `mid` and `trim` should return, and when they do. `left` always does; `right`
begins one character too early; `mid` adds its arguments without looking at the sum; `trim` drops
the last character that it should keep, and leaves the buffer if there is none to keep.
-/
namespace Sgos.SystemString
open ByteBuffer CString TextBuffer Outcome

variable {mem : Malloc} {s tmp : Str} {v : List UInt8}

/-- The text without its leading and trailing characters `part`. -/
def trimmed (part : UInt8) (v : List UInt8) : List UInt8 :=
  (((v.dropWhile (· = part)).reverse).dropWhile (· = part)).reverse

def LeftOk (mem : Malloc) (s : Str) (v : List UInt8) (a : Int32) : Prop :=
  Gives (left mem s a.toInt) (Holds · (v.take a.toInt.toNat))

def RightOk (mem : Malloc) (s : Str) (v : List UInt8) (a : Int32) : Prop :=
  Gives (right mem s a.toInt) (Holds · (v.drop (v.length - a.toInt.toNat)))

def MidOk (mem : Malloc) (s : Str) (v : List UInt8) (a b : Int32) : Prop :=
  Gives (mid mem s a.toInt b.toInt)
    (Holds · (if a.toInt < 0 then [] else (v.drop a.toInt.toNat).take b.toInt.toNat))

def TrimOk (mem : Malloc) (s : Str) (v : List UInt8) (part : UInt8) : Prop :=
  Gives (trim mem s part) (Holds · (trimmed part v))

/-- All four return the parts that they are named after, and read inside of the buffer only. -/
def Slices (mem : Malloc) (s : Str) (v : List UInt8) (a b : Int32) (part : UInt8) : Prop :=
  LeftOk mem s v a ∧ RightOk mem s v a ∧ MidOk mem s v a b ∧ TrimOk mem s v part

/-- There is nothing to return, or the last characters that should be returned are those in front
of each. -/
def RightFits (v : List UInt8) (a : Int32) : Prop :=
  a.toInt ≤ 0 ∨ v = [] ∨ a.toInt < v.length ∧
    ∃ c, ∀ x ∈ v.drop (v.length - a.toInt.toNat - 1), x = c

/-- The sum of the arguments is an `int`, if it is looked at. -/
def MidFits (a b : Int32) : Prop := 0 ≤ a.toInt → 0 < b.toInt → a.toInt + b.toInt ≤ INT_MAX

/-! ## Copying a part -/

lemma fill_spec {n start : ℤ} {buf chunk : List UInt8} (htmp : Stores tmp []) (hbuf : s.buf = some buf)
    (hchunk : bytesFrom buf start n = some chunk) (hzero : (0 : UInt8) ∉ chunk)
    (hn : (chunk.length : ℤ) = n) (hroom : n < tmp.bufSize) :
    ∃ s', fill tmp s start n = some s' ∧ Holds s' chunk := by
  obtain ⟨old, hold, -, hsize⟩ := htmp.text
  have hwrite : write old 0 chunk = some (chunk ++ old.drop chunk.length) :=
    write_start old chunk (by omega)
  obtain ⟨c, rest, hrest⟩ : ∃ c rest, old.drop chunk.length = c :: rest := by
    apply List.exists_cons_of_ne_nil
    intro hnil
    have hlength := congrArg List.length hnil
    rw [List.length_drop, List.length_nil] at hlength
    omega
  have hput : putEnd (chunk ++ c :: rest) n = some (chunk ++ 0 :: rest) := by
    rw [putEnd, if_pos (by simp; omega), ← hn, Int.toNat_natCast,
      List.set_append_right _ _ le_rfl, Nat.sub_self, List.set_cons_zero]
  refine ⟨{ tmp with buf := some (chunk ++ 0 :: rest), len := n }, ?_, ?_, hn.symm⟩
  · rw [fill, hold, Option.bind_eq_bind, Option.bind_some, hbuf, Option.bind_some, hchunk,
      Option.bind_some, hwrite, hrest, Option.bind_some, hput]
    rfl
  · refine stores_of_append rest hzero rfl ?_ htmp.small
    have hlength := congrArg List.length hrest
    rw [List.length_drop, List.length_cons] at hlength
    rw [hsize, List.length_append, List.length_cons]
    omega

/-- The size of the new buffer is made to fit. -/
lemma slice_room (hmem : mem.Serves) (htmp : Holds tmp []) {siz : ℤ} (hsiz : siz ≤ INT_MAX) :
    Gives (mksize mem tmp siz) fun s' => Stores s' [] ∧ siz ≤ s'.bufSize := by
  have hlen := htmp.length
  have hsize := htmp.length_lt
  rw [List.length_nil, Nat.cast_zero] at hlen hsize
  refine (mksize_stores hmem siz htmp.toStores (fun hgrow => ?_) hsiz).mono fun s' hs' => ⟨hs'.1, hs'.2.2⟩
  rw [List.length_nil, hlen]
  omega

lemma slice_spec (hmem : mem.Serves) {n start : ℤ} {buf chunk : List UInt8} (htmp : Holds tmp [])
    (hbuf : s.buf = some buf) (hchunk : bytesFrom buf start n = some chunk)
    (hzero : (0 : UInt8) ∉ chunk) (hn : (chunk.length : ℤ) = n) (hmax : n < INT_MAX) :
    Gives (slice mem tmp s start n (int (n + 1))) (Holds · chunk) := by
  rw [int_eq (by omega) (by omega)]
  refine (slice_room hmem htmp (by omega)).bind fun s' hs' => ?_
  obtain ⟨s'', hs'', hholds⟩ := fill_spec hs'.1 hbuf hchunk hzero hn (by omega)
  exact gives_ofOption hs'' hholds

lemma slice_fails {n start siz : ℤ} {buf : List UInt8} (hbuf : s.buf = some buf)
    (hout : bytesFrom buf start n = none) : Fails (slice mem tmp s start n siz) := by
  refine bind_fails fun s' => fails_ofOption ?_
  rw [fill]
  cases s'.buf with
  | none => rfl
  | some old =>
    rw [hbuf, Option.bind_eq_bind, Option.bind_some, Option.bind_some, hout]
    rfl

/-- The characters of the text from a place on. -/
lemma bytesFrom_text {buf rest : List UInt8} {start n : ℤ} (hbuf : buf = v ++ 0 :: rest)
    (h0 : 0 ≤ start) (hn : 0 ≤ n) (hend : start + n ≤ v.length) :
    bytesFrom buf start n = some ((v.drop start.toNat).take n.toNat) := by
  rw [bytesFrom]
  split_ifs with hzero hin
  · rw [hzero, Int.toNat_zero, List.take_zero]
  · rw [hbuf, List.drop_append_of_le_length (by omega),
      List.take_append_of_le_length (by rw [List.length_drop]; omega)]
  · refine absurd ⟨h0, hn, ?_⟩ hin
    rw [hbuf, List.length_append]
    push_cast
    omega

lemma part_zero_notMem {i n : ℕ} (hs : Holds s v) : (0 : UInt8) ∉ (v.drop i).take n := by
  intro hmem
  exact hs.zero_notMem (List.mem_of_mem_drop (List.mem_of_mem_take hmem))

lemma slice_text (start n : ℤ) (hmem : mem.Serves) (hs : Holds s v) (htmp : Holds tmp [])
    (h0 : 0 ≤ start) (hn : 0 ≤ n) (hend : start + n ≤ v.length) :
    Gives (slice mem tmp s start n (int (n + 1)))
      (Holds · ((v.drop start.toNat).take n.toNat)) := by
  obtain ⟨buf, hbuf, htext, -⟩ := hs.text
  obtain ⟨-, rest, hrest⟩ := cstring_eq_some htext
  have hmax := hs.length_lt_max
  refine slice_spec hmem htmp hbuf (bytesFrom_text hrest h0 hn hend) (part_zero_notMem hs) ?_
    (by omega)
  rw [List.length_take, List.length_drop]
  omega

/-! ## `left`, `right`, `mid` -/

theorem left_ok (hmem : mem.Serves) (hs : Holds s v) (a : Int32) : LeftOk mem s v a := by
  refine (construct_spec hmem).bind fun tmp htmp => ?_
  have hlen := hs.length
  by_cases hall : a.toInt > s.len
  · rw [if_pos hall, if_pos (by omega)]
    refine (slice_text 0 s.len hmem hs htmp.1 le_rfl (by omega) (by omega)).mono ?_
    intro r hr
    rw [hlen, Int.toNat_natCast, Int.toNat_zero, List.drop_zero, List.take_length] at hr
    rw [List.take_of_length_le (by omega)]
    exact hr
  · rw [if_neg hall]
    dsimp only
    split_ifs with hneg
    · exact slice_text 0 _ hmem hs htmp.1 le_rfl hneg (by omega)
    · have hzero : a.toInt.toNat = 0 := by omega
      rw [hzero, List.take_zero]
      exact gives_pure htmp.1

/-- A list is the same without its last element and without its first if all are equal. -/
lemma take_cons_eq_iff (c : UInt8) (w : List UInt8) :
    (c :: w).take w.length = w ↔ ∀ x ∈ w, x = c := by
  induction w generalizing c with
  | nil => simp
  | cons d w ih =>
    rw [List.length_cons, List.take_succ_cons, List.cons.injEq, ih d, List.forall_mem_cons]
    constructor
    · rintro ⟨rfl, h⟩
      exact ⟨rfl, h⟩
    · rintro ⟨rfl, h⟩
      exact ⟨rfl, h⟩

/-- The characters that `right` returns are the last ones if all are equal, with the one in front. -/
lemma shifted_iff {n : ℕ} (hn : n < v.length) :
    (v.drop (v.length - n - 1)).take n = v.drop (v.length - n) ↔
      ∃ c, ∀ x ∈ v.drop (v.length - n - 1), x = c := by
  have hsucc : v.length - n = v.length - n - 1 + 1 := by omega
  have hlength : (v.drop (v.length - n)).length = n := by
    rw [List.length_drop]
    omega
  obtain ⟨c, w, hw⟩ : ∃ c w, v.drop (v.length - n - 1) = c :: w := by
    apply List.exists_cons_of_ne_nil
    intro hnil
    have hzero := congrArg List.length hnil
    rw [List.length_drop, List.length_nil] at hzero
    omega
  have hrest : v.drop (v.length - n) = w := by
    rw [hsucc, ← List.drop_drop, hw]
    rfl
  rw [hrest] at hlength ⊢
  have hiff := take_cons_eq_iff c w
  rw [hlength] at hiff
  rw [hw, hiff]
  constructor
  · intro h
    refine ⟨c, fun x hx => ?_⟩
    obtain rfl | hx := List.mem_cons.mp hx
    · rfl
    · exact h x hx
  · rintro ⟨d, h⟩ x hx
    rw [h x (List.mem_cons_of_mem c hx), h c List.mem_cons_self]

/-- An object holds one text. -/
lemma Holds.unique {w : List UInt8} (h : Holds s v) (h' : Holds s w) : v = w := by
  obtain ⟨buf, hbuf, htext, -⟩ := h.text
  obtain ⟨buf', hbuf', htext', -⟩ := h'.text
  cases hbuf.symm.trans hbuf'
  exact Option.some.inj (htext.symm.trans htext')

/-- A computation that gives a text gives no other. -/
lemma gives_holds_iff {x : Act Str} {w : List UInt8} (h : Gives x (Holds · v)) :
    Gives x (Holds · w) ↔ v = w := by
  constructor
  · intro h'
    obtain ⟨r, hr, hr'⟩ := (h.and h').exists
    exact hr.unique hr'
  · rintro rfl
    exact h

/-- `right` of nothing. -/
lemma right_none (hmem : mem.Serves) (hs : Holds s v) {a : ℤ} (hnone : a ≤ 0 ∨ v = []) :
    Gives (right mem s a) (Holds · []) := by
  have hlen := hs.length
  obtain ⟨buf, hbuf, -, -⟩ := hs.text
  refine (construct_spec hmem).bind fun tmp htmp => ?_
  have hmin : (if a > s.len then s.len else a) ≤ 0 := by
    obtain hneg | rfl := hnone
    · split_ifs <;> omega
    · rw [List.length_nil] at hlen
      split_ifs <;> omega
  dsimp only
  generalize (if a > s.len then s.len else a) = n at hmin
  split_ifs with hpos
  · have hzero : n = 0 := by omega
    rw [hzero]
    exact slice_spec hmem htmp.1 hbuf rfl List.not_mem_nil rfl (by decide)
  · exact gives_pure htmp.1

/-- `right` of a part of the text begins a character too early. -/
lemma right_shifted (hmem : mem.Serves) (hs : Holds s v) {a : ℤ} (hpos : 0 < a)
    (hless : a < v.length) :
    Gives (right mem s a) (Holds · ((v.drop (v.length - a.toNat - 1)).take a.toNat)) := by
  have hlen := hs.length
  refine (construct_spec hmem).bind fun tmp htmp => ?_
  have hmin : (if a > s.len then s.len else a) = a := if_neg (by omega)
  rw [hmin, if_pos hpos.le]
  have hstart : (s.len - a - 1).toNat = v.length - a.toNat - 1 := by omega
  rw [← hstart]
  exact slice_text _ _ hmem hs htmp.1 (by omega) (by omega) (by omega)

/-- `right` of the whole text begins in front of the buffer. -/
lemma right_fails (hmem : mem.Serves) (hs : Holds s v) {a : ℤ} (hne : v ≠ [])
    (hall : (v.length : ℤ) ≤ a) : Fails (right mem s a) := by
  have hlen := hs.length
  have hlong : 0 < v.length := List.length_pos_iff.mpr hne
  obtain ⟨buf, hbuf, -, -⟩ := hs.text
  refine (construct_spec hmem).bind_fails fun tmp htmp => ?_
  have hmin : (if a > s.len then s.len else a) = s.len := by
    split_ifs <;> omega
  rw [hmin, if_pos (by omega)]
  refine slice_fails hbuf ?_
  rw [bytesFrom, if_neg (by omega), if_neg (by omega)]

theorem right_iff (hmem : mem.Serves) (hs : Holds s v) (a : Int32) :
    RightOk mem s v a ↔ RightFits v a := by
  unfold RightOk RightFits
  by_cases hnone : a.toInt ≤ 0 ∨ v = []
  · have hempty : v.drop (v.length - a.toInt.toNat) = [] := by
      obtain hneg | rfl := hnone
      · rw [List.drop_eq_nil_iff]
        omega
      · exact List.drop_nil
    rw [hempty]
    exact iff_of_true (right_none hmem hs hnone) (by tauto)
  rw [not_or, not_le] at hnone
  obtain ⟨hpos, hne⟩ := hnone
  by_cases hless : a.toInt < v.length
  · rw [gives_holds_iff (right_shifted hmem hs hpos hless), shifted_iff (by omega)]
    constructor
    · intro h
      exact .inr (.inr ⟨hless, h⟩)
    · rintro (hneg | hnil | ⟨-, h⟩)
      · omega
      · exact absurd hnil hne
      · exact h
  · refine iff_of_false (right_fails hmem hs hne (not_lt.mp hless)).not_gives ?_
    rintro (hneg | hnil | ⟨hin, -⟩)
    · omega
    · exact hne hnil
    · exact hless hin

lemma int_sum (a b : Int32) (h : a.toInt + b.toInt ≤ INT_MAX) (h0 : 0 ≤ a.toInt) :
    int (a.toInt + b.toInt) = a.toInt + b.toInt := by
  have hb := b.le_toInt
  unfold INT_MAX at h
  unfold int
  rw [Int.bmod_def]
  omega

theorem mid_iff (hmem : mem.Serves) (hs : Holds s v) (a b : Int32) :
    MidOk mem s v a b ↔ MidFits a b := by
  have hlen := hs.length
  have hmax := hs.length_lt_max
  have ha := a.toInt_lt
  have hb := b.le_toInt
  have hb' := b.toInt_lt
  obtain ⟨buf, hbuf, -, hsize⟩ := hs.text
  have hsmall := hs.small
  unfold MidOk MidFits
  by_cases hneg : a.toInt < 0
  · refine iff_of_true ?_ (fun h => absurd h (not_le.mpr hneg))
    refine (construct_spec hmem).bind fun tmp htmp => ?_
    dsimp only
    rw [if_neg (fun h => not_lt.mpr h.1 hneg), if_pos hneg]
    exact gives_pure htmp.1
  have h0 : 0 ≤ a.toInt := not_lt.mp hneg
  by_cases hsum : a.toInt + b.toInt ≤ INT_MAX
  · refine iff_of_true ?_ (fun _ _ => hsum)
    refine (construct_spec hmem).bind fun tmp htmp => ?_
    dsimp only
    rw [int_sum a b hsum h0, if_neg hneg]
    by_cases hlong : a.toInt + b.toInt > s.len
    · have hrest : int (s.len - a.toInt) = s.len - a.toInt := by
        unfold int
        unfold INT_MAX at hmax
        rw [Int.bmod_def]
        omega
      rw [if_pos hlong, hrest]
      by_cases hin : 0 < s.len - a.toInt
      · rw [if_pos ⟨h0, hin⟩]
        refine (slice_text _ _ hmem hs htmp.1 h0 hin.le (by omega)).mono fun r hr => ?_
        rw [List.take_of_length_le (by rw [List.length_drop]; omega)] at hr ⊢
        exact hr
      · rw [if_neg (fun h => hin h.2), List.drop_of_length_le (by omega), List.take_nil]
        exact gives_pure htmp.1
    · rw [if_neg hlong]
      by_cases hpos : 0 < b.toInt
      · rw [if_pos ⟨h0, hpos⟩]
        exact slice_text _ _ hmem hs htmp.1 h0 hpos.le (by omega)
      · have hzero : b.toInt.toNat = 0 := by omega
        rw [if_neg (fun h => hpos h.2), hzero, List.take_zero]
        exact gives_pure htmp.1
  · -- the sum is negative, and the part goes far beyond the end
    have hpos : 0 < b.toInt := by
      unfold INT_MAX at hsum
      omega
    refine iff_of_false ?_ (fun h => hsum (h h0 hpos))
    refine Fails.not_gives ((construct_spec hmem).bind_fails fun tmp htmp => ?_)
    have hover : ¬ int (a.toInt + b.toInt) > s.len := by
      unfold INT_MAX at hsum
      unfold int
      rw [Int.bmod_def]
      omega
    dsimp only
    rw [if_neg hover, if_pos ⟨h0, hpos⟩]
    refine slice_fails hbuf ?_
    rw [bytesFrom, if_neg hpos.ne', if_neg (by omega)]

/-! ## `trim` -/

lemma scanUp_spec {part x : UInt8} {pre more : List UInt8} (hpre : ∀ c ∈ pre, c = part)
    (hx : x ≠ part) : scanUp part (pre ++ x :: more) = some pre.length := by
  induction pre with
  | nil => exact if_neg hx
  | cons c pre ih =>
    rw [List.forall_mem_cons] at hpre
    rw [List.cons_append, scanUp, if_pos hpre.1, ih hpre.2]
    rfl

lemma scanDown_spec {part x : UInt8} {buf : List UInt8} {lo n : ℕ} (hlo : buf[lo]? = some x)
    (hx : x ≠ part) (hpart : ∀ i, lo < i → i < n → buf[i]? = some part) (hn : lo < n) :
    scanDown part buf n = some lo := by
  induction n with
  | zero => omega
  | succ n ih =>
    by_cases hlast : lo = n
    · rw [scanDown, ← hlast, hlo, Option.bind_some, if_neg hx]
    · rw [scanDown, hpart n (by omega) (by omega), Option.bind_some, if_pos rfl]
      exact ih (fun i hi hin => hpart i hi (by omega)) (by omega)

/-- Without another character the loop leaves the buffer at its beginning. -/
lemma scanDown_none {part : UInt8} {buf : List UInt8} {n : ℕ}
    (hpart : ∀ i < n, buf[i]? = some part) : scanDown part buf n = none := by
  induction n with
  | zero => rfl
  | succ n ih =>
    rw [scanDown, hpart n (by omega), Option.bind_some, if_pos rfl]
    exact ih fun i hi => hpart i (by omega)

/-- A text with a character to keep begins and ends with some to drop. -/
lemma exists_trimmed {part : UInt8} (h : ∃ x ∈ v, x ≠ part) : ∃ pre body x post,
    v = pre ++ (body ++ [x]) ++ post ∧ trimmed part v = body ++ [x] ∧ x ≠ part ∧
      (∀ c ∈ pre, c = part) ∧ (∀ c ∈ post, c = part) ∧ ∃ y, (body ++ [x]).head? = some y ∧ y ≠ part := by
  have hall (w : List UInt8) : ∀ c ∈ w.takeWhile (· = part), c = part := by
    intro c hc
    simpa using List.mem_takeWhile_imp hc
  have hhead {w : List UInt8} (hw : w.dropWhile (· = part) ≠ []) :
      ∃ y rest, w.dropWhile (· = part) = y :: rest ∧ y ≠ part := by
    obtain ⟨y, rest, hy⟩ := List.exists_cons_of_ne_nil hw
    refine ⟨y, rest, hy, ?_⟩
    have hnot := List.head_dropWhile_not (· = part) hw
    simp only [hy, List.head_cons] at hnot
    simpa using hnot
  have hfront : v.dropWhile (· = part) ≠ [] := by
    obtain ⟨x, hx, hne⟩ := h
    intro hnil
    rw [List.dropWhile_eq_nil_iff] at hnil
    exact hne (by simpa using hnil x hx)
  obtain ⟨y, rest, hy, hyne⟩ := hhead hfront
  have hback : (v.dropWhile (· = part)).reverse.dropWhile (· = part) ≠ [] := by
    intro hnil
    rw [List.dropWhile_eq_nil_iff, hy] at hnil
    exact hyne (by simpa using hnil y (by simp))
  obtain ⟨x, more, hx, hxne⟩ := hhead hback
  have hsplit : v.dropWhile (· = part) = (more.reverse ++ [x]) ++
      ((v.dropWhile (· = part)).reverse.takeWhile (· = part)).reverse := by
    have hrev := List.takeWhile_append_dropWhile (p := (· = part))
      (l := (v.dropWhile (· = part)).reverse)
    rw [hx] at hrev
    have hback := congrArg List.reverse hrev
    rw [List.reverse_reverse, List.reverse_append, List.reverse_cons] at hback
    exact hback.symm
  refine ⟨v.takeWhile (· = part), more.reverse, x,
    ((v.dropWhile (· = part)).reverse.takeWhile (· = part)).reverse, ?_, ?_, hxne, hall v, ?_, y, ?_,
    hyne⟩
  · rw [List.append_assoc, ← hsplit, List.takeWhile_append_dropWhile]
  · rw [trimmed, hx, List.reverse_cons]
  · intro c hc
    exact hall _ c (List.mem_reverse.mp hc)
  · have hfirst := congrArg List.head? hsplit
    rw [hy, List.head?_append_of_ne_nil _ (by simp)] at hfirst
    exact hfirst.symm

lemma getElem?_text {buf rest : List UInt8} (hrest : buf = v ++ 0 :: rest) {i : ℕ}
    (hi : i < v.length) : buf[i]? = v[i]? := by
  rw [hrest, List.getElem?_append_left hi]

/-- `trim` drops the last character that it should keep. -/
lemma trim_spec (hmem : mem.Serves) (hs : Holds s v) {part : UInt8} (hkeep : ∃ x ∈ v, x ≠ part) :
    ∃ body x, trimmed part v = body ++ [x] ∧ Gives (trim mem s part) (Holds · body) := by
  have hlen := hs.length
  obtain ⟨buf, hbuf, htext, -⟩ := hs.text
  obtain ⟨-, rest, hrest⟩ := cstring_eq_some htext
  have hlast : s.len.toNat = v.length := by omega
  obtain ⟨pre, body, x, post, hv, htrim, hx, hpre, hpost, y, hy, hyne⟩ := exists_trimmed hkeep
  obtain ⟨more, hmore⟩ : ∃ more, body ++ [x] = y :: more :=
    ⟨_, (List.cons_head?_tail hy).symm⟩
  have hlength : v.length = pre.length + (body.length + 1) + post.length := by
    rw [hv]
    simp only [List.length_append, List.length_singleton]
  have hup : scanUp part buf = some pre.length := by
    rw [hrest, hv, hmore, List.append_assoc, List.append_assoc, List.cons_append]
    exact scanUp_spec hpre hyne
  have hdown : scanDown part buf s.len.toNat = some (pre.length + body.length) := by
    rw [hlast]
    refine scanDown_spec (x := x) ?_ hx (fun i hlo hi => ?_) (by omega)
    · rw [getElem?_text hrest (by omega), hv, List.append_assoc, List.append_assoc,
        List.getElem?_append_right (by omega), Nat.add_sub_cancel_left,
        List.getElem?_append_right le_rfl, Nat.sub_self]
      rfl
    · rw [getElem?_text hrest hi, hv, List.getElem?_append_right (by simp; omega)]
      have hpost' : i - (pre ++ (body ++ [x])).length < post.length := by
        simp only [List.length_append, List.length_singleton]
        omega
      rw [List.getElem?_eq_getElem hpost', hpost _ (List.getElem_mem hpost')]
  refine ⟨body, x, htrim, (construct_spec hmem).bind fun tmp htmp => ?_⟩
  refine (gives_ofOption hbuf rfl).bind fun b hb => ?_
  subst hb
  refine (gives_ofOption hup rfl).bind fun beg hbeg => ?_
  refine (gives_ofOption hdown rfl).bind fun last hlast => ?_
  subst hbeg hlast
  have hcount : ((pre.length + body.length : ℕ) : ℤ) - pre.length = body.length := by omega
  rw [hcount, if_pos (by omega)]
  refine (slice_text pre.length body.length hmem hs htmp.1 (by omega) (by omega)
    (by omega)).mono fun r hr => ?_
  rw [Int.toNat_natCast, Int.toNat_natCast, hv, List.append_assoc, List.drop_left' rfl,
    List.append_assoc, List.take_left' rfl] at hr
  exact hr

/-- Without a character to keep, `trim` leaves the buffer. -/
lemma trim_fails (hs : Holds s v) {part : UInt8} (hall : ∀ x ∈ v, x = part) :
    Fails (trim mem s part) := by
  have hlen := hs.length
  obtain ⟨buf, hbuf, htext, -⟩ := hs.text
  obtain ⟨-, rest, hrest⟩ := cstring_eq_some htext
  have hlast : s.len.toNat = v.length := by omega
  have hdown : scanDown part buf s.len.toNat = none := by
    rw [hlast]
    refine scanDown_none fun i hi => ?_
    rw [getElem?_text hrest hi, List.getElem?_eq_getElem hi, hall _ (List.getElem_mem hi)]
  refine bind_fails fun tmp => ?_
  refine (gives_ofOption hbuf rfl).bind_fails fun b hb => ?_
  subst hb
  exact bind_fails fun beg => (fails_ofOption hdown).bind

/-- `trim` returns the text without its last character, if it returns at all. -/
theorem not_trimOk (hmem : mem.Serves) (hs : Holds s v) (part : UInt8) : ¬TrimOk mem s v part := by
  unfold TrimOk
  by_cases hkeep : ∃ x ∈ v, x ≠ part
  · obtain ⟨body, x, htrim, hgives⟩ := trim_spec hmem hs hkeep
    rw [gives_holds_iff hgives, htrim]
    intro heq
    have hcount := congrArg List.length heq
    rw [List.length_append, List.length_singleton] at hcount
    omega
  · refine (trim_fails hs fun x hx => ?_).not_gives
    by_contra hne
    exact hkeep ⟨x, hx, hne⟩

/-- No string is sliced well by all four. `left` always returns what it should, `right` and `mid`
under their conditions, and `trim` never. -/
theorem slices_never (hmem : mem.Serves) (hs : Holds s v) (a b : Int32) (part : UInt8) :
    ¬Slices mem s v a b part ∧ LeftOk mem s v a ∧ (RightOk mem s v a ↔ RightFits v a) ∧
      (MidOk mem s v a b ↔ MidFits a b) ∧ ¬TrimOk mem s v part :=
  ⟨fun h => not_trimOk hmem hs part h.2.2.2, left_ok hmem hs a, right_iff hmem hs a,
    mid_iff hmem hs a b, not_trimOk hmem hs part⟩

/-! ## An example -/

/-- A memory that serves every call with zeros. -/
def zeros : Malloc where
  block _ n := some (List.replicate n 0)
  size _ n bytes h := by
    rw [← Option.some.inj h]
    exact List.length_replicate

lemma zeros_serves : zeros.Serves := fun _ n _ => Option.some_ne_none (List.replicate n 0)

/-- The string `abc`. -/
def abc : Str := ⟨some [0x61, 0x62, 0x63, 0], 3, 4⟩

lemma abc_holds : Holds abc [0x61, 0x62, 0x63] := by
  refine ⟨stores_of_append [] ?_ rfl rfl ?_, rfl⟩
  · decide
  · decide

theorem slices_never_abc : ¬Slices zeros abc [0x61, 0x62, 0x63] 1 1 0x20 ∧
    LeftOk zeros abc [0x61, 0x62, 0x63] 1 ∧
    (RightOk zeros abc [0x61, 0x62, 0x63] 1 ↔ RightFits [0x61, 0x62, 0x63] 1) ∧
    (MidOk zeros abc [0x61, 0x62, 0x63] 1 1 ↔ MidFits 1 1) ∧
    ¬TrimOk zeros abc [0x61, 0x62, 0x63] 0x20 :=
  slices_never zeros_serves abc_holds 1 1 0x20

/-- Without spaces to trim, `abc` becomes `ab`. -/
theorem not_slices : ¬Slices zeros abc [0x61, 0x62, 0x63] 1 1 0x20 := by
  rintro ⟨-, -, -, htrim⟩
  have hab : trim zeros abc 0x20 0 =
      some (⟨some ([0x61, 0x62] ++ List.replicate 14 0), 2, 16⟩, 1) := by rfl
  obtain ⟨r, n, hr, hholds⟩ := htrim 0
  rw [hab] at hr
  cases hr
  exact absurd hholds.length (by decide)

end Sgos.SystemString
