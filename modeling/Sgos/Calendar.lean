import Sgos.FatTime

/-!
# The calendar

`__offtime` and `gettime` of `kernel/lib/time.c`, with all fields of `struct tm`. The macros, the
loop that guesses the year and `mktime` have the text of `api/time.c`. Every time of 32 bits is
taken to its date, and back.
-/
namespace Sgos.Calendar
open Fat32 Fat32.FatTime

/-- `struct tm`. -/
structure Tm extends TIME where
  tm_wday : ℤ
  tm_yday : ℤ
  tm_isdst : ℤ

/-- A `long int`. -/
def long (x : ℤ) : ℤ := x.bmod 4294967296

/-- The first loop of `__offtime`. -/
def raiseRem : ℕ → ℤ → ℤ → Option (ℤ × ℤ)
  | 0, _, _ => none
  | fuel + 1, days, rem =>
      if rem < 0 then raiseRem fuel (days - 1) (rem + SECS_PER_DAY) else some (days, rem)

/-- The second loop. -/
def lowerRem : ℕ → ℤ → ℤ → Option (ℤ × ℤ)
  | 0, _, _ => none
  | fuel + 1, days, rem =>
      if rem ≥ SECS_PER_DAY then lowerRem fuel (days + 1) (rem - SECS_PER_DAY) else some (days, rem)

/-- The last loop; `none` is an index in front of the table. -/
def lastMonth (ip : List ℤ) (days : ℤ) : ℕ → Option ℕ
  | 0 => if days < ip.getD 0 0 then none else some 0
  | y + 1 => if days < ip.getD (y + 1) 0 then lastMonth ip days y else some (y + 1)

/-- `__offtime`, with `fuel` turns for each of its loops. `tm_year` is as wide as `y`, so that the
test between them passes. -/
def offtime (fuel : ℕ) (t : UInt32) (offset : ℤ) : Option (ℤ × Tm) := do
  let days : ℤ := t.toNat / SECS_PER_DAY
  let rem : ℤ := long (t.toNat % SECS_PER_DAY + offset)
  let (days, rem) ← raiseRem fuel days rem
  let (days, rem) ← lowerRem fuel days rem
  let tm_hour := rem.tdiv SECS_PER_HOUR
  let rem := rem.tmod SECS_PER_HOUR
  let tm_wday := (4 + days).tmod 7
  let tm_wday := if tm_wday < 0 then tm_wday + 7 else tm_wday
  let (y, days) ← guessYear fuel 1970 days
  let ip := monYday (isleap y)
  let tm_mon ← lastMonth ip days 11
  some (1, ⟨⟨y - 1900, tm_mon, days - ip.getD tm_mon 0 + 1, tm_hour, rem.tdiv 60, rem.tmod 60⟩,
    tm_wday, days, if isleap y then 1 else 0⟩)

def gettime (fuel : ℕ) (t : UInt32) : Option (ℤ × Tm) := offtime fuel t 0

/-! ## The calendar itself -/

def leapYear (y : ℕ) : Bool := y % 4 = 0 && (y % 100 ≠ 0 || y % 400 = 0)

def yearDays (y : ℕ) : ℕ := if leapYear y then 366 else 365

def monthDays (leap : Bool) (m : ℕ) : ℕ :=
  if m = 1 then if leap then 29 else 28
  else if m = 3 ∨ m = 5 ∨ m = 8 ∨ m = 10 then 30
  else 31

/-- The days of the `n` years from 1970 on. -/
def daysBeforeYear : ℕ → ℕ
  | 0 => 0
  | n + 1 => daysBeforeYear n + yearDays (1970 + n)

/-- The days of the first `m` months of a year. -/
def daysBeforeMonth (leap : Bool) : ℕ → ℕ
  | 0 => 0
  | m + 1 => daysBeforeMonth leap m + monthDays leap m

/-- The fields are those of the second `t` from the beginning of 1970 on, a Thursday: year
`1970 + n`, month `m`. -/
structure DateOf (t : UInt32) (n m : ℕ) (tm : Tm) : Prop where
  year : tm.tm_year = 70 + n
  month : tm.tm_mon = m ∧ m < 12
  day : 1 ≤ tm.tm_mday ∧ tm.tm_mday ≤ monthDays (leapYear (1970 + n)) m
  hour : 0 ≤ tm.tm_hour ∧ tm.tm_hour < 24
  minute : 0 ≤ tm.tm_min ∧ tm.tm_min < 60
  second : 0 ≤ tm.tm_sec ∧ tm.tm_sec < 60
  yday : tm.tm_yday = daysBeforeMonth (leapYear (1970 + n)) m + (tm.tm_mday - 1)
  wday : tm.tm_wday = (4 + (daysBeforeYear n + tm.tm_yday)) % 7
  isdst : tm.tm_isdst = if leapYear (1970 + n) then 1 else 0
  time : (t.toNat : ℤ) =
    (((daysBeforeYear n + tm.tm_yday) * 24 + tm.tm_hour) * 60 + tm.tm_min) * 60 + tm.tm_sec

/-! ## The tables -/

lemma isleap_eq (y : ℕ) : isleap y = leapYear y := by
  have h := isleap_iff y
  rw [Bool.eq_iff_iff, h]
  simp only [leapYear, Bool.and_eq_true, Bool.or_eq_true, decide_eq_true_eq]
  omega

lemma yearLength_natCast (y : ℕ) : yearLength y = yearDays y := by
  unfold yearLength yearDays
  rw [isleap_eq]
  split_ifs <;> rfl

lemma yearStart_succ (y : ℤ) : yearStart (y + 1) = yearStart y + yearLength y := by
  rw [yearLength_eq]
  unfold yearStart
  rw [add_sub_cancel_right]
  omega

/-- What the leap days of the macro count is the length of the years. -/
lemma yearStart_eq (n : ℕ) : yearStart (1970 + n) = daysBeforeYear n := by
  induction n with
  | zero => decide
  | succ n ih =>
    have hyear : (1970 : ℤ) + n = (1970 + n : ℕ) := by omega
    have hsucc : (1970 : ℤ) + (n + 1 : ℕ) = 1970 + n + 1 := by omega
    rw [hsucc, yearStart_succ, ih, hyear, yearLength_natCast, daysBeforeYear, Nat.cast_add]

lemma monYday_eq (leap : Bool) {m : ℕ} (h : m ≤ 12) :
    (monYday leap).getD m 0 = daysBeforeMonth leap m := by
  cases leap <;> interval_cases m <;> decide

/-! ## The loops -/

lemma raiseRem_stop (fuel : ℕ) (days : ℤ) {rem : ℤ} (h : 0 ≤ rem) :
    raiseRem (fuel + 1) days rem = some (days, rem) := if_neg (not_lt.mpr h)

lemma lowerRem_stop (fuel : ℕ) (days : ℤ) {rem : ℤ} (h : rem < SECS_PER_DAY) :
    lowerRem (fuel + 1) days rem = some (days, rem) := if_neg (not_le.mpr h)

lemma raiseRem_ends (n : ℕ) (days : ℤ) {rem : ℤ} (h : -rem ≤ n) :
    ∃ days' rem', raiseRem (n + 1) days rem = some (days', rem') := by
  induction n generalizing days rem with
  | zero => exact ⟨_, _, raiseRem_stop 0 days (by omega)⟩
  | succ n ih =>
    rw [raiseRem]
    split_ifs with hneg
    · have hday : 0 < SECS_PER_DAY := by decide
      exact ih (days - 1) (by omega)
    · exact ⟨_, _, rfl⟩

lemma lowerRem_ends (n : ℕ) (days : ℤ) {rem : ℤ} (h : rem ≤ n) :
    ∃ days' rem', lowerRem (n + 1) days rem = some (days', rem') := by
  have hday : 0 < SECS_PER_DAY := by decide
  induction n generalizing days rem with
  | zero => exact ⟨_, _, lowerRem_stop 0 days (by omega)⟩
  | succ n ih =>
    rw [lowerRem]
    split_ifs with hlong
    · exact ih (days + 1) (by omega)
    · exact ⟨_, _, rfl⟩

lemma raiseRem_mono {fuel : ℕ} {days rem : ℤ} {r : ℤ × ℤ} (h : raiseRem fuel days rem = some r)
    (more : ℕ) : raiseRem (fuel + more) days rem = some r := by
  induction fuel generalizing days rem with
  | zero => cases h
  | succ fuel ih =>
    rw [Nat.add_right_comm]
    unfold raiseRem at h ⊢
    split_ifs at h ⊢
    · exact ih h
    · exact h

lemma lowerRem_mono {fuel : ℕ} {days rem : ℤ} {r : ℤ × ℤ} (h : lowerRem fuel days rem = some r)
    (more : ℕ) : lowerRem (fuel + more) days rem = some r := by
  induction fuel generalizing days rem with
  | zero => cases h
  | succ fuel ih =>
    rw [Nat.add_right_comm]
    unfold lowerRem at h ⊢
    split_ifs at h ⊢
    · exact ih h
    · exact h

lemma guessYear_mono {fuel : ℕ} {y days : ℤ} {r : ℤ × ℤ} (h : guessYear fuel y days = some r)
    (more : ℕ) : guessYear (fuel + more) y days = some r := by
  induction fuel generalizing y days with
  | zero => cases h
  | succ fuel ih =>
    rw [Nat.add_right_comm]
    by_cases hin : 0 ≤ days ∧ days < yearLength y
    · rw [guessYear_stop hin.1 hin.2] at h ⊢
      exact h
    · have hout : days < 0 ∨ yearLength y ≤ days := by omega
      rw [guessYear_turn _ hout rfl] at h ⊢
      exact ih h

/-- Between two years there is a leap day in at most every fourth. -/
lemma leaps_between {a b : ℤ} (h : a ≤ b) :
    0 ≤ LEAPS_THRU_END_OF b - LEAPS_THRU_END_OF a ∧
      LEAPS_THRU_END_OF b - LEAPS_THRU_END_OF a ≤ (b - a + 3) / 4 := by
  have hcentury (y : ℤ) : y / 100 = y / 4 / 25 := by omega
  have hfourth (y : ℤ) : y / 400 = y / 4 / 100 := by omega
  rw [leaps_eq, leaps_eq, hcentury, hcentury, hfourth, hfourth]
  omega

/-- The guesses come closer to the year, from any day on. -/
theorem guessYear_ends (n : ℕ) (y days : ℤ) (h : days.natAbs ≤ n) :
    ∃ fuel r, guessYear fuel y days = some r := by
  induction n using Nat.strong_induction_on generalizing y days with
  | _ n ih =>
    by_cases hin : 0 ≤ days ∧ days < yearLength y
    · exact ⟨1, _, guessYear_stop hin.1 hin.2⟩
    have hout : days < 0 ∨ yearLength y ≤ days := by omega
    have hyear := yearLength_ge y
    set q := days / 365 with hq
    have hguess : y + q = y + days.tdiv 365 - if days.tmod 365 < 0 then 1 else 0 := by
      have hdiv := div_eq days (b := 365) (by decide)
      unfold DIV at hdiv
      omega
    set rest := days - ((y + q - y) * 365 + LEAPS_THRU_END_OF (y + q - 1) -
      LEAPS_THRU_END_OF (y - 1)) with hrest
    have hturn (fuel : ℕ) := guessYear_turn fuel hout hguess
    simp only [← hrest] at hturn
    -- one year back the guess is right; otherwise it leaves fewer days
    by_cases hback : q = -1
    · have hlength := yearLength_eq (y - 1)
      have hlong := yearLength_ge (y - 1)
      have hsame : y + q - 1 = y - 1 - 1 := by omega
      have hyq : y + q = y - 1 := by omega
      rw [hsame] at hrest
      rw [hyq] at hturn
      refine ⟨2, _, (hturn 1).trans (guessYear_stop ?_ ?_)⟩
      · omega
      · omega
    · have hsmall : rest.natAbs < days.natAbs := by
        obtain hneg | hlong := hout
        · obtain ⟨hlow, hhigh⟩ := leaps_between (a := y + q - 1) (b := y - 1) (by omega)
          omega
        · obtain ⟨hlow, hhigh⟩ := leaps_between (a := y - 1) (b := y + q - 1) (by omega)
          omega
      obtain ⟨fuel, r, hr⟩ := ih rest.natAbs (by omega) (y + q) rest le_rfl
      exact ⟨fuel + 1, r, (hturn fuel).trans hr⟩

/-- The table begins with 0: the search for the month ends in it. -/
lemma lastMonth_eq (leap : Bool) {days : ℤ} (h : 0 ≤ days) (n : ℕ) :
    lastMonth (monYday leap) days n = some (findMonth (monYday leap) days n) := by
  induction n with
  | zero =>
    have hfirst : (monYday leap).getD 0 0 = 0 := by cases leap <;> rfl
    unfold lastMonth findMonth
    rw [hfirst, if_neg (not_lt.mpr h)]
  | succ n ih =>
    unfold lastMonth findMonth
    split_ifs with hlt
    · exact ih
    · rfl

/-- The loop for the year ends with a day of it. -/
lemma guessYear_in {fuel : ℕ} {y days : ℤ} {r : ℤ × ℤ} (h : guessYear fuel y days = some r) :
    0 ≤ r.2 ∧ r.2 < yearLength r.1 := by
  induction fuel generalizing y days with
  | zero => cases h
  | succ fuel ih =>
    by_cases hin : 0 ≤ days ∧ days < yearLength y
    · rw [guessYear_stop hin.1 hin.2] at h
      cases h
      exact hin
    · have hout : days < 0 ∨ yearLength y ≤ days := by omega
      rw [guessYear_turn _ hout rfl] at h
      exact ih h

/-- `__offtime` returns, whatever the offset is. -/
theorem offtime_ends (t : UInt32) (offset : ℤ) : ∃ fuel r, offtime fuel t offset = some r := by
  set days : ℤ := t.toNat / SECS_PER_DAY with hdays
  set rem : ℤ := long (t.toNat % SECS_PER_DAY + offset) with hrem
  have hday : 0 < SECS_PER_DAY := by decide
  obtain ⟨d₁, r₁, h₁⟩ := @raiseRem_ends rem.natAbs days rem (by omega)
  obtain ⟨d₂, r₂, h₂⟩ := @lowerRem_ends r₁.natAbs d₁ r₁ (by omega)
  obtain ⟨turns, ⟨y, d₃⟩, h₃⟩ := guessYear_ends _ 1970 d₂ le_rfl
  have hin := (guessYear_in h₃).1
  refine ⟨turns + (rem.natAbs + 1) + (r₁.natAbs + 1), ?_⟩
  have h₁' := raiseRem_mono h₁ (turns + (r₁.natAbs + 1))
  have h₂' := lowerRem_mono h₂ (turns + (rem.natAbs + 1))
  have h₃' := guessYear_mono h₃ (rem.natAbs + 1 + (r₁.natAbs + 1))
  have hfuel₁ : rem.natAbs + 1 + (turns + (r₁.natAbs + 1)) =
      turns + (rem.natAbs + 1) + (r₁.natAbs + 1) := by omega
  have hfuel₂ : r₁.natAbs + 1 + (turns + (rem.natAbs + 1)) =
      turns + (rem.natAbs + 1) + (r₁.natAbs + 1) := by omega
  rw [hfuel₁] at h₁'
  rw [hfuel₂] at h₂'
  rw [← add_assoc] at h₃'
  unfold offtime
  simp only [← hdays, ← hrem, h₁', h₂', h₃', lastMonth_eq _ hin, Option.bind_eq_bind,
    Option.bind_some]
  exact ⟨_, rfl⟩

/-! ## Every time -/

lemma daysBeforeMonth_succ (leap : Bool) (m : ℕ) :
    daysBeforeMonth leap (m + 1) = daysBeforeMonth leap m + monthDays leap m := rfl

/-- The fields that `gettime` gives are the date of the time. -/
lemma gettime_date (t : UInt32) : ∃ n m tm, (∀ fuel, 3 ≤ fuel → gettime fuel t = some (1, tm)) ∧
    n ≤ 136 ∧ DateOf t n m tm := by
  have ht := t.toNat_lt
  have hday : SECS_PER_DAY = 86400 := by decide
  have hhour : SECS_PER_HOUR = 3600 := by decide
  have hlong {x : ℤ} (h0 : 0 ≤ x) (h : x < 86400) : long x = x := by
    unfold long
    rw [Int.bmod_def]
    omega
  obtain ⟨y, r, hguess, hlow, hhigh, hr0, hr, hd⟩ := guessYear_spec
    (d := (t.toNat : ℤ) / 86400) (by omega) (by omega)
  obtain ⟨n, rfl⟩ : ∃ n : ℕ, y = 1970 + n := ⟨(y - 1970).toNat, by omega⟩
  have hleap : isleap (1970 + n) = leapYear (1970 + n) := isleap_eq (1970 + n)
  have hend : r < (monYday (isleap (1970 + n))).getD (11 + 1) 0 := by
    unfold yearLength at hr
    cases hy : isleap (1970 + n) <;> simpa [hy, monYday] using hr
  obtain ⟨hm, hbeg, hnext⟩ := findMonth_spec (isleap (1970 + n)) hr0 hend
  set m := findMonth (monYday (isleap (1970 + n))) r 11 with hmonth
  rw [monYday_eq _ (by omega), hleap] at hbeg
  rw [monYday_eq _ (by omega), hleap, daysBeforeMonth_succ] at hnext
  rw [yearStart_eq] at hd
  set rem : ℤ := t.toNat % 86400 with hrem
  refine ⟨n, m, ⟨⟨1970 + n - 1900, m, r - (monYday (isleap (1970 + n))).getD m 0 + 1, rem / 3600,
    rem % 3600 / 60, rem % 3600 % 60⟩, (4 + (t.toNat : ℤ) / 86400) % 7, r,
    if isleap (1970 + n) then 1 else 0⟩, fun fuel hfuel => ?_, by omega, ?_⟩
  · obtain ⟨k, rfl⟩ := Nat.exists_eq_add_of_le hfuel
    have hguess' := guessYear_mono hguess k
    have hraise : raiseRem (3 + k) ((t.toNat : ℤ) / 86400) rem = some ((t.toNat : ℤ) / 86400, rem) := by
      rw [Nat.add_right_comm 2 1 k]
      exact raiseRem_stop _ _ (by omega)
    have hlower : lowerRem (3 + k) ((t.toNat : ℤ) / 86400) rem = some ((t.toNat : ℤ) / 86400, rem) := by
      rw [Nat.add_right_comm 2 1 k]
      exact lowerRem_stop _ _ (by omega)
    have hwday : ¬ (4 + (t.toNat : ℤ) / 86400).tmod 7 < 0 := by
      rw [Int.tmod_eq_emod_of_nonneg (by omega)]
      omega
    unfold gettime offtime
    simp only [hday, hhour, add_zero, ← hrem]
    rw [hlong (by omega) (by omega)]
    simp only [hraise, hlower, hguess', lastMonth_eq _ hr0, Option.bind_eq_bind, Option.bind_some,
      if_neg hwday, ← hmonth]
    rw [Int.tdiv_eq_ediv_of_nonneg (by omega), Int.tmod_eq_emod_of_nonneg (by omega),
      Int.tmod_eq_emod_of_nonneg (by omega), Int.tdiv_eq_ediv_of_nonneg (by omega),
      Int.tmod_eq_emod_of_nonneg (by omega)]
  · rw [monYday_eq _ (by omega), hleap]
    constructor <;> dsimp only <;> omega

/-- Every time of 32 bits has its date, and `mktime` takes the date back to it; `__offtime` ends
with any offset. -/
theorem calendar_round (t : UInt32) :
    (∀ offset, ∃ fuel r, offtime fuel t offset = some r) ∧
    ∃ n m tm, (∀ fuel, 3 ≤ fuel → gettime fuel t = some (1, tm)) ∧ DateOf t n m tm ∧
      mktime tm.toTIME = t := by
  obtain ⟨n, m, tm, hget, hn, hdate⟩ := gettime_date t
  refine ⟨offtime_ends t, n, m, tm, hget, hdate, ?_⟩
  have ht := t.toNat_lt
  have hleap : isleap (1970 + n) = leapYear (1970 + n) := isleap_eq (1970 + n)
  have hyear := hdate.year
  obtain ⟨hmon, hm⟩ := hdate.month
  have htime := hdate.time
  rw [hdate.yday] at htime
  have hbase : (daysBeforeYear n : ℤ) +
      (daysBeforeMonth (leapYear (1970 + n)) m + (tm.tm_mday - 1)) =
        daysBeforeYear n + daysBeforeMonth (leapYear (1970 + n)) m + tm.tm_mday - 1 := by omega
  rw [hbase] at htime
  rw [mktime_eq (y := 1970 + n) (by omega) (by omega) (by omega) hmon hm, yearStart_eq,
    monYday_eq _ (by omega), hleap, ← htime]
  unfold UInt32.ofInt
  rw [Int.emod_eq_of_lt (by omega) (by omega), Int.toNat_natCast, UInt32.ofNat_toNat]

end Sgos.Calendar
