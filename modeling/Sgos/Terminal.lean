import Mathlib.Algebra.Order.Ring.Int
import Sgos.GuardedRun

/-!
# The kernel's terminal

`ArPrintChar` of `kernel/arch/i386/io/terminal.c`. Of `buffer` and `video` the `80 * 25` cells of the
screen are kept; an index outside of them gives `none`. The ports are left out. The cursor stays on
the screen as long as no backspace is printed in column 0.
-/
namespace Sgos.Terminal
open GuardedRun

def w : ℤ := 80
def h : ℤ := 25

structure Screen where
  x : ℤ
  y : ℤ
  video : List UInt16
  buffer : List UInt16
  style : UInt16
  deriving DecidableEq, Repr

/-! ## Cells -/

/-- `n` cells from `i` on are on the screen. -/
def Inside (i n : ℤ) : Prop := 0 ≤ i ∧ i + n ≤ w * h

instance (i n : ℤ) : Decidable (Inside i n) := inferInstanceAs (Decidable (_ ∧ _))

/-- An assignment to a cell. -/
def put (cells : List UInt16) (i : ℤ) (v : UInt16) : Option (List UInt16) :=
  if Inside i 1 then some (cells.set i.toNat v) else none

/-- `memcpy16(dest + i, src + j, n)`, which goes upwards. -/
def memcpy16 (dest : List UInt16) (i : ℤ) (src : List UInt16) (j n : ℤ) : Option (List UInt16) :=
  if Inside i n ∧ Inside j n then
    some (dest.take i.toNat ++ (src.drop j.toNat).take n.toNat ++ dest.drop (i + n).toNat)
  else none

/-- `memset16(s + i, v, count)`. -/
def memset16 (s : List UInt16) (i : ℤ) (v : UInt16) (count : ℤ) : Option (List UInt16) :=
  if Inside i count then
    some (s.take i.toNat ++ List.replicate count.toNat v ++ s.drop (i + count).toNat)
  else none

/-- The characters whose entries in `_ctype` have one of the bits `_P`, `_U`, `_L`, `_D`, `_SP`. -/
def isprint (c : UInt8) : Bool := 32 ≤ c && c ≤ 126

/-! ## The functions -/

def scrollUp (s : Screen) : Option Screen := do
  let buffer ← memcpy16 s.buffer 0 s.buffer w (w * (h - 1))
  let buffer ← memset16 buffer (w * (h - 1)) s.style w
  let video ← memcpy16 s.video 0 buffer 0 (w * h)
  some { s with buffer := buffer, video := video, y := s.y - 1 }

def nextLine (s : Screen) : Option Screen :=
  let s := { s with x := 0, y := s.y + 1 }
  if s.y ≥ h then scrollUp s else some s

def moveCursor (s : Screen) : Option Screen := do
  let video ← memcpy16 s.video (s.y * w) s.buffer (s.y * w) 80
  some { s with video := video }

def arClearScreen (s : Screen) : Option Screen := do
  let buffer ← memset16 s.buffer 0 s.style (w * h)
  let video ← memcpy16 s.video 0 buffer 0 (w * h)
  moveCursor { s with buffer := buffer, video := video, x := 0, y := 0 }

/-- A number sign and a bracket begin a colour. -/
def beginStyle (s : Screen) (ch : UInt8) : Screen :=
  if ch = 0x23 then { s with style := 0x0C00 }
  else if ch = 0x5B then { s with style := 0x0200 }
  else s

/-- The newline, the backspace and the printable characters. -/
def store (s : Screen) (ch : UInt8) : Option Screen :=
  if ch = 10 then nextLine s
  else if ch = 8 then do
    let buffer ← put s.buffer (s.y * w + (s.x - 1)) s.style
    some { s with buffer := buffer, x := s.x - 1 }
  else if isprint ch then do
    let buffer ← put s.buffer (s.y * w + s.x) (s.style ||| ch.toUInt16)
    some { s with buffer := buffer, x := s.x + 1 }
  else some s

/-- A bracket and the newline end it. -/
def endStyle (s : Screen) (ch : UInt8) : Screen :=
  if ch = 0x5D ∨ ch = 10 then { s with style := 0x0700 } else s

def wrap (s : Screen) : Option Screen := if s.x ≥ w then nextLine s else some s

/-- `ArPrintChar` for all characters but the tab. -/
def printOne (s : Screen) (ch : UInt8) : Option Screen := do
  let s ← store (beginStyle s ch) ch
  let s ← wrap (endStyle s ch)
  moveCursor s

/-- The loop for a tab; it fails if it has not ended after `fuel` turns. -/
def printTab : ℕ → Screen → Option Screen
  | 0, _ => none
  | fuel + 1, s => do
    let s ← printOne s 0x20
    if (s.x - 1).tmod 4 ≠ 0 then printTab fuel s else some s

def arPrintChar (fuel : ℕ) (s : Screen) (ch : UInt8) : Option Screen :=
  if ch = 9 then printTab fuel s else printOne s ch

/-! ## Runs -/

/-- Four turns are enough for a tab. -/
def step (s : Option Screen) (ch : UInt8) : Option Screen := s.bind fun s => arPrintChar 4 s ch

/-- The last call has returned, with all its indices on the screen, and so is the cursor. -/
def OnScreen (s : Option Screen) : Prop :=
  ∃ t, s = some t ∧ (0 ≤ t.x ∧ t.x < w) ∧ 0 ≤ t.y ∧ t.y < h

/-- No backspace in column 0. -/
def StepOk (s : Option Screen) (ch : UInt8) : Prop := ∀ t, s = some t → ch = 8 → 0 < t.x

structure Lawful (s : Screen) : Prop where
  column : 0 ≤ s.x ∧ s.x < w
  row : 0 ≤ s.y ∧ s.y < h
  buffer : s.buffer.length = 2000
  video : s.video.length = 2000

/-! ## One character -/

lemma put_inside (cells : List UInt16) {i : ℤ} (v : UInt16) (hi : Inside i 1) :
    put cells i v = some (cells.set i.toNat v) := if_pos hi

lemma memcpy16_spec (dest : List UInt16) {src : List UInt16} {i j n : ℤ} (hdest : dest.length = 2000)
    (hsrc : src.length = 2000) (hn : 0 ≤ n) (hi : Inside i n) (hj : Inside j n) :
    ∃ cells, memcpy16 dest i src j n = some cells ∧ cells.length = 2000 := by
  refine ⟨_, if_pos ⟨hi, hj⟩, ?_⟩
  have hsize : w * h = 2000 := by decide
  obtain ⟨hi0, hi1⟩ := hi
  obtain ⟨hj0, hj1⟩ := hj
  simp only [List.length_append, List.length_take, List.length_drop]
  omega

lemma memset16_spec {s : List UInt16} {i count : ℤ} (v : UInt16) (hs : s.length = 2000)
    (hcount : 0 ≤ count) (hi : Inside i count) :
    ∃ cells, memset16 s i v count = some cells ∧ cells.length = 2000 := by
  refine ⟨_, if_pos hi, ?_⟩
  have hsize : w * h = 2000 := by decide
  obtain ⟨hi0, hi1⟩ := hi
  simp only [List.length_append, List.length_take, List.length_drop, List.length_replicate]
  omega

lemma scrollUp_spec {s : Screen} (hbuffer : s.buffer.length = 2000)
    (hvideo : s.video.length = 2000) :
    ∃ s', scrollUp s = some s' ∧ s'.x = s.x ∧ s'.y = s.y - 1 ∧ s'.buffer.length = 2000 ∧
      s'.video.length = 2000 := by
  obtain ⟨b₁, h₁, hb₁⟩ := memcpy16_spec s.buffer (i := 0) (j := w) (n := w * (h - 1)) hbuffer hbuffer
    (by decide) (by decide) (by decide)
  obtain ⟨b₂, h₂, hb₂⟩ := @memset16_spec b₁ (w * (h - 1)) w s.style hb₁ (by decide)
    (by decide)
  obtain ⟨v, hv, hvl⟩ := memcpy16_spec s.video (i := 0) (j := 0) (n := w * h) hvideo hb₂ (by decide)
    (by decide) (by decide)
  refine ⟨{ s with buffer := b₂, video := v, y := s.y - 1 }, ?_, rfl, rfl, hb₂, hvl⟩
  simp only [scrollUp, h₁, h₂, hv, Option.bind_eq_bind, Option.bind_some]

/-- A new line scrolls where it would leave the screen. -/
lemma nextLine_spec {s : Screen} (hrow : 0 ≤ s.y ∧ s.y < h) (hbuffer : s.buffer.length = 2000)
    (hvideo : s.video.length = 2000) : ∃ s', nextLine s = some s' ∧ Lawful s' ∧ s'.x = 0 := by
  have hw : 0 < w := by decide
  unfold nextLine
  dsimp only
  split_ifs with hlast
  · obtain ⟨s', hs', hx, hy, hb, hv⟩ := scrollUp_spec (s := { s with x := 0, y := s.y + 1 }) hbuffer
      hvideo
    dsimp only at hx hy
    exact ⟨s', hs', ⟨by omega, by omega, hb, hv⟩, hx⟩
  · exact ⟨_, rfl, ⟨⟨le_rfl, hw⟩, by dsimp only; omega, hbuffer, hvideo⟩, rfl⟩

lemma moveCursor_spec {s : Screen} (hs : Lawful s) :
    ∃ s', moveCursor s = some s' ∧ Lawful s' ∧ s'.x = s.x := by
  obtain ⟨hx, hy, hb, hv⟩ := hs
  have hrow : Inside (s.y * w) 80 := by
    unfold Inside w h at *
    omega
  obtain ⟨v, h₁, hl⟩ := memcpy16_spec s.video hv hb (by decide) hrow hrow
  refine ⟨{ s with video := v }, ?_, ⟨hx, hy, hb, hl⟩, rfl⟩
  simp only [moveCursor, h₁, Option.bind_eq_bind, Option.bind_some]

lemma beginStyle_lawful {s : Screen} (hs : Lawful s) (ch : UInt8) :
    Lawful (beginStyle s ch) ∧ (beginStyle s ch).x = s.x := by
  obtain ⟨hx, hy, hb, hv⟩ := hs
  unfold beginStyle
  split_ifs <;> exact ⟨⟨hx, hy, hb, hv⟩, rfl⟩

lemma endStyle_lawful {s : Screen} (ch : UInt8) : (endStyle s ch).x = s.x ∧ (endStyle s ch).y = s.y ∧
    (endStyle s ch).buffer = s.buffer ∧ (endStyle s ch).video = s.video := by
  unfold endStyle
  split_ifs <;> exact ⟨rfl, rfl, rfl, rfl⟩

/-- What is stored lies on the screen; behind the last column the cursor is not yet back. -/
lemma store_spec {s : Screen} (hs : Lawful s) (ch : UInt8) (hback : ch = 8 → 0 < s.x) :
    ∃ s', store s ch = some s' ∧ (0 ≤ s'.x ∧ s'.x ≤ w) ∧ (0 ≤ s'.y ∧ s'.y < h) ∧
      s'.buffer.length = 2000 ∧ s'.video.length = 2000 ∧ (ch = 0x20 → s'.x = s.x + 1) := by
  obtain ⟨hx, hy, hb, hv⟩ := hs
  have hsize : w * h = 2000 := by decide
  have hcell (x : ℤ) (h0 : 0 ≤ x) (h1 : x < w) : Inside (s.y * w + x) 1 := by
    unfold Inside w h at *
    omega
  unfold store
  split_ifs with hnl hbs hprint
  · subst hnl
    obtain ⟨s', hs', hlaw, -⟩ := nextLine_spec hy hb hv
    exact ⟨s', hs', ⟨hlaw.column.1, hlaw.column.2.le⟩, hlaw.row, hlaw.buffer, hlaw.video,
      by intro hsp; exact absurd hsp (by decide)⟩
  · have hpos := hback hbs
    rw [put_inside s.buffer s.style (hcell (s.x - 1) (by omega) (by omega))]
    refine ⟨_, rfl, ⟨by dsimp only; omega, by dsimp only; omega⟩, hy, ?_, hv, ?_⟩
    · exact List.length_set.trans hb
    · intro hsp
      rw [hbs] at hsp
      exact absurd hsp (by decide)
  · rw [put_inside s.buffer (s.style ||| ch.toUInt16) (hcell s.x hx.1 hx.2)]
    refine ⟨_, rfl, ⟨by dsimp only; omega, by dsimp only; omega⟩, hy, ?_, hv, fun _ => rfl⟩
    exact List.length_set.trans hb
  · refine ⟨s, rfl, ⟨hx.1, hx.2.le⟩, hy, hb, hv, ?_⟩
    rintro rfl
    exact absurd (by decide) hprint

lemma wrap_spec {s : Screen} (hx : 0 ≤ s.x ∧ s.x ≤ w) (hy : 0 ≤ s.y ∧ s.y < h)
    (hb : s.buffer.length = 2000) (hv : s.video.length = 2000) :
    ∃ s', wrap s = some s' ∧ Lawful s' ∧ s'.x = if s.x = w then 0 else s.x := by
  unfold wrap
  split_ifs with hlong hend hend
  · obtain ⟨s', hs', hlaw, hzero⟩ := nextLine_spec hy hb hv
    exact ⟨s', hs', hlaw, hzero⟩
  · omega
  · omega
  · exact ⟨s, rfl, ⟨⟨hx.1, by omega⟩, hy, hb, hv⟩, rfl⟩

/-- A character other than a tab keeps the cursor on the screen; a space moves it on. -/
lemma printOne_spec {s : Screen} (hs : Lawful s) (ch : UInt8) (hback : ch = 8 → 0 < s.x) :
    ∃ s', printOne s ch = some s' ∧ Lawful s' ∧
      (ch = 0x20 → s'.x = if s.x + 1 = w then 0 else s.x + 1) := by
  obtain ⟨hlaw, hcol⟩ := beginStyle_lawful hs ch
  obtain ⟨s₁, h₁, hx, hy, hb, hv, hspace⟩ := store_spec hlaw ch (hcol ▸ hback)
  obtain ⟨hex, hey, heb, hev⟩ := endStyle_lawful (s := s₁) ch
  obtain ⟨s₂, h₂, hlaw₂, hx₂⟩ := wrap_spec (s := endStyle s₁ ch) (hex ▸ hx) (hey ▸ hy) (heb ▸ hb)
    (hev ▸ hv)
  obtain ⟨s₃, h₃, hlaw₃, hx₃⟩ := moveCursor_spec hlaw₂
  refine ⟨s₃, ?_, hlaw₃, fun hch => ?_⟩
  · simp only [printOne, h₁, h₂, h₃, Option.bind_eq_bind, Option.bind_some]
  · rw [hx₃, hx₂, hex, hspace hch, hcol]

/-! ## Tabs -/

/-- Each turn of the loop brings the cursor one column closer to the next stop. -/
lemma printTab_spec (n : ℕ) {s : Screen} (hs : Lawful s) (hn : -s.x % 4 = n) :
    ∃ s', printTab (n + 1) s = some s' ∧ Lawful s' := by
  induction n generalizing s with
  | zero =>
    obtain ⟨s', h₁, hlaw, hx⟩ := printOne_spec hs 0x20 (by intro h; exact absurd h (by decide))
    have hw : w = 80 := rfl
    have hcol := hs.column
    have hstop : ¬ (s'.x - 1).tmod 4 ≠ 0 := by
      rw [hx rfl, if_neg (by omega), Int.tmod_eq_emod_of_nonneg (by omega)]
      omega
    refine ⟨s', ?_, hlaw⟩
    simp only [printTab, h₁, Option.bind_eq_bind, Option.bind_some, if_neg hstop]
  | succ n ih =>
    obtain ⟨s', h₁, hlaw, hx⟩ := printOne_spec hs 0x20 (by intro h; exact absurd h (by decide))
    have hw : w = 80 := rfl
    have hcol := hs.column
    have hnext : (s'.x - 1) % 4 ≠ 0 ∧ -s'.x % 4 = n := by
      rw [hx rfl]
      split_ifs <;> omega
    have hgo : (s'.x - 1).tmod 4 ≠ 0 := by
      rw [ne_eq, ← Int.dvd_iff_tmod_eq_zero, Int.dvd_iff_emod_eq_zero]
      exact hnext.1
    obtain ⟨s'', h₂, hlaw₂⟩ := ih hlaw hnext.2
    refine ⟨s'', ?_, hlaw₂⟩
    rw [← h₂]
    simp only [printTab.eq_2 s, h₁, Option.bind_eq_bind, Option.bind_some, if_pos hgo]

lemma printTab_mono {fuel : ℕ} {s s' : Screen} (h : printTab fuel s = some s') (more : ℕ) :
    printTab (fuel + more) s = some s' := by
  induction fuel generalizing s with
  | zero => cases h
  | succ fuel ih =>
    rw [Nat.add_right_comm]
    simp only [printTab, Option.bind_eq_bind, Option.bind_eq_some_iff] at h ⊢
    obtain ⟨t, ht, hrest⟩ := h
    refine ⟨t, ht, ?_⟩
    split_ifs at hrest ⊢
    · exact ih hrest
    · exact hrest

/-- A tab ends after at most four turns. -/
lemma arPrintChar_spec {s : Screen} (hs : Lawful s) (ch : UInt8) (hback : ch = 8 → 0 < s.x) :
    ∃ s', arPrintChar 4 s ch = some s' ∧ Lawful s' := by
  unfold arPrintChar
  split_ifs with htab
  · obtain ⟨n, hn⟩ : ∃ n : ℕ, -s.x % 4 = n := ⟨(-s.x % 4).toNat, by omega⟩
    obtain ⟨k, hk⟩ : ∃ k, 4 = n + 1 + k := ⟨3 - n, by omega⟩
    obtain ⟨s', h₁, hlaw⟩ := printTab_spec n hs hn
    rw [hk]
    exact ⟨s', printTab_mono h₁ k, hlaw⟩
  · obtain ⟨s', h₁, hlaw, -⟩ := printOne_spec hs ch hback
    exact ⟨s', h₁, hlaw⟩

/-- A backspace in column 0 takes the cursor in front of it, if the call returns. -/
lemma printOne_backspace {s s' : Screen} (hs : s.x = 0) (h : printOne s 8 = some s') : s'.x = -1 := by
  have hmove {t t' : Screen} (ht : moveCursor t = some t') : t'.x = t.x := by
    simp only [moveCursor, Option.bind_eq_bind, Option.bind_eq_some_iff] at ht
    obtain ⟨v, -, ht⟩ := ht
    cases ht
    rfl
  simp only [printOne, Option.bind_eq_bind, Option.bind_eq_some_iff] at h
  obtain ⟨s₁, h₁, s₂, h₂, h₃⟩ := h
  have hstyle : beginStyle s 8 = s := rfl
  rw [hstyle, store, if_neg (by decide), if_pos rfl] at h₁
  obtain ⟨b, -, h₁⟩ := Option.bind_eq_some_iff.mp h₁
  cases h₁
  have hx₁ := (endStyle_lawful (s := { s with buffer := b, x := s.x - 1 }) 8).1
  have hnowrap : ¬ (endStyle { s with buffer := b, x := s.x - 1 } 8).x ≥ w := by
    have hw : w = 80 := rfl
    rw [hx₁]
    dsimp only
    omega
  rw [wrap, if_neg hnowrap] at h₂
  cases h₂
  rw [hmove h₃, hx₁]
  dsimp only
  omega

/-! ## Runs of characters -/

def Inv (s : Option Screen) : Prop := ∃ t, s = some t ∧ Lawful t

lemma step_inv (s : Option Screen) (ch : UInt8) (hs : Inv s) (hok : StepOk s ch) :
    Inv (step s ch) := by
  obtain ⟨t, rfl, hlaw⟩ := hs
  obtain ⟨t', ht', hlaw'⟩ := arPrintChar_spec hlaw ch (hok t rfl)
  exact ⟨t', ht', hlaw'⟩

lemma step_onScreen_iff (s : Option Screen) (ch : UInt8) (hs : Inv s) :
    OnScreen (step s ch) ↔ StepOk s ch := by
  constructor
  · obtain ⟨t, rfl, hlaw⟩ := hs
    rintro ⟨t', ht', hx, -⟩ t₁ ht₁ rfl
    cases ht₁
    by_contra hzero
    have hcol := hlaw.column
    have hback := printOne_backspace (by omega) ht'
    omega
  · intro hok
    obtain ⟨t', ht', hlaw'⟩ := step_inv s ch hs hok
    exact ⟨t', ht', hlaw'.column, hlaw'.row⟩

def blank (style : UInt16) : List UInt16 := List.replicate 2000 style

/-- The screen that `ArClearScreen` leaves. -/
def cleared (style : UInt16) : Screen := ⟨0, 0, blank style, blank style, style⟩

lemma length_blank (style : UInt16) : (blank style).length = 2000 := List.length_replicate

lemma memcpy16_all {dest src : List UInt16} (hdest : dest.length = 2000) (hsrc : src.length = 2000) :
    memcpy16 dest 0 src 0 (w * h) = some src := by
  have hall : Inside 0 (w * h) := by decide
  have hd : dest.drop (0 + w * h).toNat = [] := List.drop_of_length_le hdest.le
  have hs : src.take (w * h).toNat = src := List.take_of_length_le hsrc.le
  rw [memcpy16, if_pos ⟨hall, hall⟩, hd, Int.toNat_zero, List.drop_zero, hs, List.take_zero,
    List.nil_append, List.append_nil]

lemma arClearScreen_eq {s : Screen} (hb : s.buffer.length = 2000) (hv : s.video.length = 2000) :
    arClearScreen s = some (cleared s.style) := by
  have hall : Inside 0 (w * h) := by decide
  have hrow : Inside (0 * w) 80 := by decide
  have hset : memset16 s.buffer 0 s.style (w * h) = some (blank s.style) := by
    have hd : s.buffer.drop (0 + w * h).toNat = [] := List.drop_of_length_le hb.le
    rw [memset16, if_pos hall, hd, Int.toNat_zero, List.take_zero, List.nil_append,
      List.append_nil]
    rfl
  have hcopy : memcpy16 (blank s.style) (0 * w) (blank s.style) (0 * w) 80 =
      some (blank s.style) := by
    rw [memcpy16, if_pos ⟨hrow, hrow⟩, zero_mul, zero_add, Int.toNat_zero, List.drop_zero,
      List.take_zero, List.nil_append, List.take_append_drop]
  simp only [arClearScreen, hset, memcpy16_all hv (length_blank _), moveCursor, hcopy,
    Option.bind_eq_bind, Option.bind_some, cleared]

/-- From the cleared screen on, every call returns with its indices and the cursor on the screen,
exactly if no backspace is printed in column 0. -/
theorem onScreen_iff (style : UInt16) (chars : List UInt8) :
    (∀ before, before <+: chars → OnScreen (run step (some (cleared style)) before)) ↔
      Guarded step StepOk (some (cleared style)) chars := by
  have hw : 0 < w := by decide
  have hh : 0 < h := by decide
  have hlaw : Lawful (cleared style) :=
    ⟨⟨le_rfl, hw⟩, ⟨le_rfl, hh⟩, length_blank style, length_blank style⟩
  exact forall_prefix_iff Inv OnScreen step_inv step_onScreen_iff ⟨_, rfl, hlaw⟩
    ⟨_, rfl, hlaw.column, hlaw.row⟩ chars

/-- A backspace is the first character. -/
theorem not_onScreen :
    ¬ ∀ before, before <+: [8] → OnScreen (run step (some (cleared 0x0700)) before) := by
  intro hall
  obtain ⟨t, ht, -⟩ := hall [8] List.prefix_rfl
  have hnone : run step (some (cleared 0x0700)) [8] = none := by
    have hout : ¬ Inside (0 * w + (0 - 1)) 1 := by decide
    have hput : put (blank 0x0700) (0 * w + (0 - 1)) 0x0700 = none := if_neg hout
    have hstore : store (cleared 0x0700) 8 = none := by
      rw [store, if_neg (by decide), if_pos rfl]
      simp only [cleared, hput, Option.bind_eq_bind, Option.bind_none]
    have hstyle : beginStyle (cleared 0x0700) 8 = cleared 0x0700 := rfl
    have hone : printOne (cleared 0x0700) 8 = none := by
      rw [printOne, hstyle, hstore]
      rfl
    exact hone
  rw [hnone] at ht
  cases ht

end Sgos.Terminal
