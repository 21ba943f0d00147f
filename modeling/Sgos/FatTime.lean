import Mathlib.Tactic.IntervalCases
import Sgos.Fat32Lookup

/-!
# The times of directory entries

`mktime` and `gettime` of `api/time.c`, with which `fat32_settime` and `fat32_gettime` convert. The
fields for the day of the week and of the year are left out. Years count from 1900 in `struct tm`,
and from 0 in `fat32_settime` and `fat32_gettime`.
-/
namespace Sgos.Fat32.FatTime

def ERR_UNKNOWN : Int32 := 5
def SECS_PER_HOUR : ℤ := 60 * 60
def SECS_PER_DAY : ℤ := SECS_PER_HOUR * 24

def monYday (leap : Bool) : List ℤ :=
  if leap then [0, 31, 60, 91, 121, 152, 182, 213, 244, 274, 305, 335, 366]
  else [0, 31, 59, 90, 120, 151, 181, 212, 243, 273, 304, 334, 365]

def isleap (year : ℤ) : Bool := year.tmod 4 = 0 && (year.tmod 100 ≠ 0 || year.tmod 400 = 0)

/-- A `short`. -/
def short (x : ℤ) : ℤ := x.bmod 65536

def mktime (t : TIME) : UInt32 :=
  let month := short t.tm_mon
  let year :=
    if t.tm_year < 70 then short (t.tm_year + month.tdiv 12 + 2000)
    else short (t.tm_year + month.tdiv 12 + 1900)
  let month := month.tmod 12
  let (year, month) := if month < 0 then (year - 1, month + 12) else (year, month)
  let res := (year - 1970) * 365 + (monYday false).getD month.toNat 0
  let year := if month ≤ 1 then year - 1 else year
  let res := res + (year - 1968).tdiv 4 - (year - 1900).tdiv 100 + (year - 1600).tdiv 400
  let res := res + t.tm_mday - 1
  UInt32.ofInt (((res * 24 + t.tm_hour) * 60 + t.tm_min) * 60 + t.tm_sec)

def DIV (a b : ℤ) : ℤ := a.tdiv b - if a.tmod b < 0 then 1 else 0

def LEAPS_THRU_END_OF (y : ℤ) : ℤ := DIV y 4 - DIV y 100 + DIV y 400

/-- The loop that guesses the year; it fails if it has not ended after `fuel` turns. -/
def guessYear : ℕ → ℤ → ℤ → Option (ℤ × ℤ)
  | 0, _, _ => none
  | fuel + 1, y, days =>
      if days < 0 ∨ days ≥ (if isleap y then 366 else 365) then
        let yg := y + days.tdiv 365 - if days.tmod 365 < 0 then 1 else 0
        guessYear fuel yg
          (days - ((yg - y) * 365 + LEAPS_THRU_END_OF (yg - 1) - LEAPS_THRU_END_OF (y - 1)))
      else some (y, days)

/-- The last month that does not begin behind the day. -/
def findMonth (ip : List ℤ) (days : ℤ) : ℕ → ℕ
  | 0 => 0
  | y + 1 => if days < ip.getD (y + 1) 0 then findMonth ip days y else y + 1

/-- `__offtime`. The two loops in front bring `rem` into the day. -/
def offtime (fuel : ℕ) (t : UInt32) (offset : ℤ) : Option (Int32 × TIME) := do
  let days : ℤ := t.toNat / SECS_PER_DAY
  let rem : ℤ := t.toNat % SECS_PER_DAY + offset
  let days := days + rem / SECS_PER_DAY
  let rem := rem % SECS_PER_DAY
  let tm_hour := rem / SECS_PER_HOUR
  let rem := rem % SECS_PER_HOUR
  let (y, days) ← guessYear fuel 1970 days
  let ip := monYday (isleap y)
  let tm_mon := findMonth ip days 11
  some (1, ⟨y - 1900, tm_mon, days - ip.getD tm_mon 0 + 1, tm_hour, rem / 60, rem % 60⟩)

/-- Three turns of the loop are enough. -/
def gettime (t : UInt32) : Int32 × TIME := (offtime 3 t 0).getD (0, ⟨0, 0, 0, 0, 0, 0⟩)

def clock : Clock := ⟨mktime, gettime⟩

/-- What `fat32_settime` returns. -/
def settimeCode (clock : Clock) (t : UInt32) : Int32 :=
  let (ret, ftime) := clock.gettime t
  if ret < 0 then -ERR_UNKNOWN
  else if ftime.tm_year < 1980 then 1
  else if !ftime.valid then 1
  else 0

/-! ## The year -/

lemma isleap_iff (y : ℤ) :
    isleap y = true ↔ y % 4 = 0 ∧ (y % 100 ≠ 0 ∨ y % 400 = 0) := by
  have hmod (b : ℤ) : y.tmod b = 0 ↔ y % b = 0 := by
    rw [← Int.dvd_iff_tmod_eq_zero, Int.dvd_iff_emod_eq_zero]
  simp only [isleap, Bool.and_eq_true, Bool.or_eq_true, decide_eq_true_eq, ne_eq, hmod]

/-- `DIV` rounds down. -/
lemma div_eq (a : ℤ) {b : ℤ} (hb : 0 < b) : DIV a b = a / b := by
  have hmod := Int.emod_nonneg a hb.ne'
  have hlt := Int.emod_lt_of_pos a hb
  have hdvd := Int.dvd_iff_emod_eq_zero (a := b) (b := a)
  unfold DIV
  rw [Int.tdiv_eq_ediv, Int.tmod_eq_emod, Int.sign_eq_one_of_pos hb]
  split_ifs <;> omega

lemma leaps_eq (y : ℤ) : LEAPS_THRU_END_OF y = y / 4 - y / 100 + y / 400 := by
  unfold LEAPS_THRU_END_OF
  rw [div_eq y (by decide), div_eq y (by decide), div_eq y (by decide)]

def yearLength (y : ℤ) : ℤ := if isleap y then 366 else 365

/-- The days from 1970 to the beginning of a year. -/
def yearStart (y : ℤ) : ℤ :=
  (y - 1970) * 365 + LEAPS_THRU_END_OF (y - 1) - LEAPS_THRU_END_OF 1969

lemma yearLength_eq (y : ℤ) :
    yearLength y = 365 + LEAPS_THRU_END_OF y - LEAPS_THRU_END_OF (y - 1) := by
  have hleap := isleap_iff y
  rw [leaps_eq, leaps_eq]
  unfold yearLength
  split_ifs with hy
  · rw [hleap] at hy
    omega
  · rw [hleap] at hy
    omega

lemma yearLength_ge (y : ℤ) : 365 ≤ yearLength y := by
  unfold yearLength
  split_ifs <;> omega

lemma guessYear_stop {fuel : ℕ} {y days : ℤ} (h0 : 0 ≤ days) (h : days < yearLength y) :
    guessYear (fuel + 1) y days = some (y, days) := by
  unfold guessYear
  exact if_neg (not_or.mpr ⟨not_lt.mpr h0, not_le.mpr h⟩)

lemma guessYear_turn (fuel : ℕ) {y days yg : ℤ} (h : days < 0 ∨ yearLength y ≤ days)
    (hyg : yg = y + days.tdiv 365 - if days.tmod 365 < 0 then 1 else 0) :
    guessYear (fuel + 1) y days = guessYear fuel yg
      (days - ((yg - y) * 365 + LEAPS_THRU_END_OF (yg - 1) - LEAPS_THRU_END_OF (y - 1))) := by
  subst hyg
  rw [guessYear]
  exact if_pos h

/-- The year of a day, and the day of the year, are found in three turns. -/
lemma guessYear_spec {d : ℤ} (h0 : 0 ≤ d) (h1 : d ≤ 49710) :
    ∃ y r, guessYear 3 1970 d = some (y, r) ∧ 1970 ≤ y ∧ y ≤ 2106 ∧ 0 ≤ r ∧ r < yearLength y ∧
      d = yearStart y + r := by
  have hstart : LEAPS_THRU_END_OF 1969 = 477 := by decide
  by_cases hfirst : d < 365
  · exact ⟨1970, d, guessYear_stop h0 hfirst, by omega, by omega, h0, hfirst, (zero_add d).symm⟩
  have hq0 : 1 ≤ d / 365 := by omega
  have hq1 : d / 365 ≤ 136 := by omega
  have hguess : 1970 + d / 365 = 1970 + d.tdiv 365 - if d.tmod 365 < 0 then 1 else 0 := by
    rw [Int.tdiv_eq_ediv_of_nonneg h0, Int.tmod_eq_emod_of_nonneg h0, if_neg (by omega), sub_zero]
  have hturn := guessYear_turn 2 (.inr (not_lt.mp hfirst)) hguess
  have hstep : d - ((1970 + d / 365 - 1970) * 365 + LEAPS_THRU_END_OF (1970 + d / 365 - 1) -
      LEAPS_THRU_END_OF (1970 - 1)) = d - yearStart (1970 + d / 365) := rfl
  rw [hstep] at hturn
  have hyear := yearLength_ge (1970 + d / 365)
  have hdays : yearStart (1970 + d / 365) = d / 365 * 365 +
      LEAPS_THRU_END_OF (1970 + d / 365 - 1) - 477 := by
    unfold yearStart
    rw [hstart, add_sub_cancel_left]
  have hleaps := leaps_eq (1970 + d / 365 - 1)
  by_cases hend : 0 ≤ d - yearStart (1970 + d / 365)
  · refine ⟨_, _, hturn.trans (guessYear_stop hend (by omega)), by omega, by omega, hend, by omega,
      by omega⟩
  -- the leap days take the guess into the year before
  have hsmall : -34 ≤ d - yearStart (1970 + d / 365) := by omega
  have hlast : 1969 + d / 365 = 1970 + d / 365 + (d - yearStart (1970 + d / 365)).tdiv 365 -
      if (d - yearStart (1970 + d / 365)).tmod 365 < 0 then 1 else 0 := by
    obtain ⟨k, hk⟩ : ∃ k : ℕ, d - yearStart (1970 + d / 365) = -k :=
      ⟨(-(d - yearStart (1970 + d / 365))).toNat, by omega⟩
    rw [hk, Int.neg_tdiv, Int.neg_tmod, Int.tdiv_eq_ediv_of_nonneg (by omega),
      Int.tmod_eq_emod_of_nonneg (by omega), if_pos (by omega)]
    omega
  have hback := guessYear_turn 1 (.inl (not_le.mp hend)) hlast
  have hlength := yearLength_eq (1969 + d / 365)
  have hsame : (1970 : ℤ) + d / 365 - 1 = 1969 + d / 365 := by omega
  have hbefore : yearStart (1969 + d / 365) =
      yearStart (1970 + d / 365) - yearLength (1969 + d / 365) := by
    rw [hdays, hlength, hsame]
    unfold yearStart
    rw [hstart]
    omega
  have hrest : d - yearStart (1970 + d / 365) - ((1969 + d / 365 - (1970 + d / 365)) * 365 +
      LEAPS_THRU_END_OF (1969 + d / 365 - 1) - LEAPS_THRU_END_OF (1970 + d / 365 - 1)) =
        d - yearStart (1969 + d / 365) := by
    rw [hbefore, hlength, hsame]
    omega
  have hlong := yearLength_ge (1969 + d / 365)
  rw [hrest] at hback
  refine ⟨_, _, hturn.trans (hback.trans (guessYear_stop ?_ ?_)), ?_, ?_, ?_, ?_, ?_⟩ <;> omega

/-! ## The date -/

lemma findMonth_spec (leap : Bool) {days : ℤ} (h0 : 0 ≤ days) {n : ℕ}
    (h : days < (monYday leap).getD (n + 1) 0) :
    findMonth (monYday leap) days n ≤ n ∧
      (monYday leap).getD (findMonth (monYday leap) days n) 0 ≤ days ∧
      days < (monYday leap).getD (findMonth (monYday leap) days n + 1) 0 := by
  induction n with
  | zero =>
    refine ⟨le_rfl, ?_, h⟩
    cases leap <;> exact h0
  | succ n ih =>
    unfold findMonth
    split_ifs with hlt
    · obtain ⟨hle, hbeg, hend⟩ := ih hlt
      exact ⟨by omega, hbeg, hend⟩
    · exact ⟨le_rfl, not_lt.mp hlt, h⟩

/-- A date of a time: its fields are in their ranges, and the days and seconds in front of it are
those of the time. -/
structure Civil (t : UInt32) (y : ℤ) (tm : TIME) : Prop where
  year : tm.tm_year = y - 1900 ∧ 1970 ≤ y ∧ y ≤ 2106
  month : ∃ m : ℕ, tm.tm_mon = m ∧ m < 12 ∧ 1 ≤ tm.tm_mday ∧
    tm.tm_mday ≤ (monYday (isleap y)).getD (m + 1) 0 - (monYday (isleap y)).getD m 0 ∧
    (t.toNat : ℤ) = (((yearStart y + (monYday (isleap y)).getD m 0 + tm.tm_mday - 1) * 24 +
      tm.tm_hour) * 60 + tm.tm_min) * 60 + tm.tm_sec
  hour : 0 ≤ tm.tm_hour ∧ tm.tm_hour < 24
  minute : 0 ≤ tm.tm_min ∧ tm.tm_min < 60
  second : 0 ≤ tm.tm_sec ∧ tm.tm_sec < 60

/-- `gettime` finds the date of every time. -/
theorem gettime_civil (t : UInt32) : (gettime t).1 = 1 ∧ ∃ y, Civil t y (gettime t).2 := by
  have ht := t.toNat_lt
  have hday : SECS_PER_DAY = 86400 := by decide
  have hhour : SECS_PER_HOUR = 3600 := by decide
  obtain ⟨y, r, hguess, hlow, hhigh, hr0, hr, hd⟩ := guessYear_spec
    (d := (t.toNat : ℤ) / 86400 + t.toNat % 86400 / 86400) (by omega) (by omega)
  have hlast : r < (monYday (isleap y)).getD (11 + 1) 0 := by
    unfold yearLength at hr
    cases hleap : isleap y <;> simpa [hleap, monYday] using hr
  obtain ⟨hm, hbeg, hend⟩ := findMonth_spec (isleap y) hr0 hlast
  have hoff : offtime 3 t 0 = some (1, ⟨y - 1900, findMonth (monYday (isleap y)) r 11,
      r - (monYday (isleap y)).getD (findMonth (monYday (isleap y)) r 11) 0 + 1,
      t.toNat % 86400 % 86400 / 3600, t.toNat % 86400 % 86400 % 3600 / 60,
      t.toNat % 86400 % 86400 % 3600 % 60⟩) := by
    unfold offtime
    dsimp only
    rw [hday, hhour, add_zero, hguess]
    rfl
  unfold gettime
  rw [hoff, Option.getD_some]
  refine ⟨rfl, y, ⟨rfl, hlow, hhigh⟩, ⟨_, rfl, by omega, ?_, ?_, ?_⟩, ?_, ?_, ?_⟩ <;> dsimp only <;>
    omega

lemma monYday_leap (leap : Bool) {m : ℕ} (h : m < 12) : (monYday leap).getD m 0 =
    (monYday false).getD m 0 + if 1 < m then (if leap then 1 else 0) else 0 := by
  cases leap <;> interval_cases m <;> decide

lemma leaps_mktime {y : ℤ} (h : 1969 ≤ y) :
    (y - 1968).tdiv 4 - (y - 1900).tdiv 100 + (y - 1600).tdiv 400 =
      LEAPS_THRU_END_OF y - LEAPS_THRU_END_OF 1969 := by
  have hstart : LEAPS_THRU_END_OF 1969 = 477 := by decide
  have hleaps := leaps_eq y
  by_cases hy : 1968 ≤ y
  · rw [Int.tdiv_eq_ediv_of_nonneg (by omega), Int.tdiv_eq_ediv_of_nonneg (by omega),
      Int.tdiv_eq_ediv_of_nonneg (by omega)]
    omega
  · omega

lemma short_eq {x : ℤ} (h0 : 0 ≤ x) (h : x < 32768) : short x = x := by
  unfold short
  rw [Int.bmod_def]
  omega

/-- The days that `mktime` counts for a date of a year from 1970 on. -/
lemma mktime_eq {tm : TIME} {y : ℤ} {m : ℕ} (hyear : tm.tm_year = y - 1900) (hlow : 1970 ≤ y)
    (hhigh : y ≤ 2106) (hmon : tm.tm_mon = m) (hm : m < 12) :
    mktime tm = UInt32.ofInt
      ((((yearStart y + (monYday (isleap y)).getD m 0 + tm.tm_mday - 1) * 24 + tm.tm_hour) * 60 +
        tm.tm_min) * 60 + tm.tm_sec) := by
  have hdiv : (m : ℤ).tdiv 12 = 0 := by
    rw [Int.tdiv_eq_ediv_of_nonneg (by omega)]
    omega
  have hmod : (m : ℤ).tmod 12 = m := by
    rw [Int.tmod_eq_emod_of_nonneg (by omega)]
    omega
  have hy : short (y - 1900 + 0 + 1900) = y := by
    rw [add_zero, sub_add_cancel]
    exact short_eq (by omega) (by omega)
  have hlate : ¬y - 1900 < 70 := by omega
  have hmonth : ¬(m : ℤ) < 0 := by omega
  have hlength := yearLength_eq y
  have hleap := monYday_leap (isleap y) hm
  have hdays : (y - 1970) * 365 + (monYday false).getD m 0 +
      ((if (m : ℤ) ≤ 1 then y - 1 else y) - 1968).tdiv 4 -
      ((if (m : ℤ) ≤ 1 then y - 1 else y) - 1900).tdiv 100 +
      ((if (m : ℤ) ≤ 1 then y - 1 else y) - 1600).tdiv 400 =
        yearStart y + (monYday (isleap y)).getD m 0 := by
    unfold yearStart yearLength at *
    by_cases hfeb : m ≤ 1
    · have hcount := leaps_mktime (y := y - 1) (by omega)
      rw [if_neg (by omega)] at hleap
      rw [if_pos (by omega)]
      omega
    · have hcount := leaps_mktime (y := y) (by omega)
      rw [if_pos (by omega)] at hleap
      rw [if_neg (by omega)]
      split_ifs at hleap hlength <;> omega
  unfold mktime
  dsimp only
  rw [hyear, hmon, short_eq (by omega) (by omega), if_neg hlate, hdiv, hy, hmod, if_neg hmonth]
  dsimp only
  rw [Int.toNat_natCast, hdays]

/-- `mktime` finds the time of every date that `gettime` gives. -/
theorem mktime_gettime (t : UInt32) : mktime (gettime t).2 = t := by
  obtain ⟨-, y, ⟨hyear, hlow, hhigh⟩, ⟨m, hmon, hm, -, -, htime⟩, -, -, -⟩ := gettime_civil t
  rw [mktime_eq hyear hlow hhigh hmon hm, ← htime]
  have ht := t.toNat_lt
  unfold UInt32.ofInt
  rw [Int.emod_eq_of_lt (by omega) (by omega), Int.toNat_natCast, UInt32.ofNat_toNat]

/-! ## The fields of an entry -/

lemma valid_iff {t : TIME} : t.valid = true ↔ (t.tm_mon ≠ 0 ∧ t.tm_mon ≤ 12) ∧
    (t.tm_mday ≠ 0 ∧ t.tm_mday ≤ 31) ∧ t.tm_hour ≤ 23 ∧ t.tm_min ≤ 59 ∧ t.tm_sec ≤ 59 := by
  simp only [TIME.valid, Bool.and_eq_true, Bool.not_eq_true', Bool.or_eq_false_iff,
    decide_eq_false_iff_not, not_lt, and_assoc]

/-- Three fields of an entry that are added up. -/
lemma toNat_packed {x : ℤ} (h0 : 0 ≤ x) (h : x < 2 ^ 16) : (UInt16.ofInt x).toNat = x.toNat := by
  unfold UInt16.ofInt
  rw [Int.emod_eq_of_lt h0 h, UInt16.toNat_ofNat']
  omega

/-- With years from 0 and months from 1 on, an entry keeps the date and the hour; of the minutes and
the seconds `fat32_gettime` drops a bit. -/
theorem gettime_settime {clock : Clock} (ff : FAT32_ENTRY) {t : UInt32} (op : ℕ) {ret : Int32}
    {ftime : TIME} (hclock : clock.gettime t = (ret, ftime)) (hret : 0 ≤ ret)
    (hyear : 1980 ≤ ftime.tm_year ∧ ftime.tm_year ≤ 2107)
    (hmon : 1 ≤ ftime.tm_mon ∧ ftime.tm_mon ≤ 12)
    (hmday : 1 ≤ ftime.tm_mday ∧ ftime.tm_mday ≤ 31)
    (hhour : 0 ≤ ftime.tm_hour ∧ ftime.tm_hour ≤ 23)
    (hmin : 0 ≤ ftime.tm_min ∧ ftime.tm_min ≤ 59)
    (hsec : 0 ≤ ftime.tm_sec ∧ ftime.tm_sec ≤ 59) :
    fat32Gettime clock (fat32Settime clock ff t op) op =
      some (clock.mktime { ftime with
        tm_min := ftime.tm_min % 32, tm_sec := ftime.tm_sec / 2 * 2 % 32 }) := by
  have hvalid : ftime.valid = true := valid_iff.mpr (by omega)
  set date := UInt16.ofInt ((ftime.tm_year - 1980) * 512 + ftime.tm_mon * 32 + ftime.tm_mday)
  set time := UInt16.ofInt (ftime.tm_hour * 2048 + ftime.tm_min * 32 + ftime.tm_sec / 2)
  have hdateNat : date.toNat =
      ((ftime.tm_year - 1980) * 512 + ftime.tm_mon * 32 + ftime.tm_mday).toNat :=
    toNat_packed (by omega) (by omega)
  have htimeNat : time.toNat =
      (ftime.tm_hour * 2048 + ftime.tm_min * 32 + ftime.tm_sec / 2).toNat :=
    toNat_packed (by omega) (by omega)
  have hset : fat32Settime clock ff t op =
      if op = 0 then { ff with cdate := date, ctime := time }
      else if op = 2 then { ff with mdate := date, mtime := time, cdate := date, ctime := time }
      else { ff with mdate := date, mtime := time } := by
    unfold fat32Settime
    rw [hclock]
    dsimp only
    rw [if_neg (Int32.not_lt.mpr hret), if_neg (by omega), hvalid]
    rfl
  have hread : (if op = 0 then
      ((fat32Settime clock ff t op).cdate, (fat32Settime clock ff t op).ctime)
      else ((fat32Settime clock ff t op).mdate, (fat32Settime clock ff t op).mtime)) =
        (date, time) := by
    rw [hset]
    split_ifs <;> rfl
  have hfields : (⟨(date >>> 9).toNat + 1980, (date >>> 5 &&& 0x0f).toNat, (date &&& 0x1f).toNat,
      (time >>> 11).toNat, (time >>> 5 &&& 0x1f).toNat, ((time.toNat * 2) % 32 : ℕ)⟩ : TIME) =
        { ftime with tm_min := ftime.tm_min % 32, tm_sec := ftime.tm_sec / 2 * 2 % 32 } := by
    have hyear : (date >>> 9).toNat = date.toNat / 512 := Nat.shiftRight_eq_div_pow _ 9
    have hmonth : (date >>> 5 &&& 0x0f).toNat = date.toNat / 32 % 16 :=
      (Nat.and_two_pow_sub_one_eq_mod _ 4).trans (congrArg (· % 16) (Nat.shiftRight_eq_div_pow _ 5))
    have hday : (date &&& 0x1f).toNat = date.toNat % 32 := Nat.and_two_pow_sub_one_eq_mod _ 5
    have hhour : (time >>> 11).toNat = time.toNat / 2048 := Nat.shiftRight_eq_div_pow _ 11
    have hminute : (time >>> 5 &&& 0x1f).toNat = time.toNat / 32 % 32 :=
      (Nat.and_two_pow_sub_one_eq_mod _ 5).trans
        (congrArg (· % 32) (Nat.shiftRight_eq_div_pow _ 5))
    rw [hmonth, hday, hminute, hyear, hhour, hdateNat, htimeNat]
    simp only [TIME.mk.injEq]
    omega
  unfold fat32Gettime
  rw [hread]
  dsimp only
  rw [hfields, if_pos (valid_iff.mpr _)]
  dsimp only
  omega

/-- What `fat32_settime` and `fat32_gettime` should do: the time comes back, less an odd second,
and only the two fields of `op` have changed. -/
def RoundTrips (ff : FAT32_ENTRY) (t : UInt32) (op : ℕ) : Prop :=
  settimeCode clock t = 0 ∧
  fat32Gettime clock (fat32Settime clock ff t op) op = some (t - t % 2) ∧
  ∃ date time, fat32Settime clock ff t op =
    if op = 0 then { ff with cdate := date, ctime := time }
    else { ff with mdate := date, mtime := time }

/-- The years that `gettime` gives count from 1900: to `fat32_settime` each is one before 1980, and
the entry stays as it is. -/
theorem settime_refuses (ff : FAT32_ENTRY) (t : UInt32) (op : ℕ) :
    settimeCode clock t = 1 ∧ fat32Settime clock ff t op = ff := by
  obtain ⟨hret, y, ⟨hyear, -, hhigh⟩, -⟩ := gettime_civil t
  have hpos : ¬(gettime t).1 < 0 := by
    rw [hret]
    decide
  have hearly : (gettime t).2.tm_year < 1980 := by omega
  unfold settimeCode fat32Settime clock
  dsimp only
  rw [if_neg hpos, if_neg hpos, if_pos hearly, if_pos hearly]
  exact ⟨rfl, rfl⟩

/-- No time gets through an entry and back. -/
theorem not_settimeTrips (ff : FAT32_ENTRY) (t : UInt32) (op : ℕ) : ¬RoundTrips ff t op := by
  intro h
  have hcode := (settime_refuses ff t op).1
  rw [h.1] at hcode
  exact absurd hcode (by decide)

/-- The first second of 1980. -/
theorem not_settimeTrips_1980 : ¬∀ ff t op, 80 ≤ (gettime t).2.tm_year →
    (gettime t).2.tm_year ≤ 207 → op = 0 ∨ op = 1 → RoundTrips ff t op := by
  intro h
  have hyear : (gettime 315532800).2.tm_year = 80 := by decide
  have htrip := h zeroEntry 315532800 0 (by rw [hyear]) (by rw [hyear]; decide) (.inl rfl)
  exact absurd htrip.1 (by decide)

end Sgos.Fat32.FatTime
