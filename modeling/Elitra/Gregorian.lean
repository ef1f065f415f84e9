import Mathlib.Algebra.Ring.Nat

namespace Elitra.Gregorian

def isLeap (y : ℕ) : Bool := (y % 4 == 0 && y % 100 != 0) || y % 400 == 0

def yearDays (y : ℕ) : ℕ := if isLeap y then 366 else 365

def monthDays (y m : ℕ) : ℕ :=
  if m = 2 then if isLeap y then 29 else 28
  else if m = 4 ∨ m = 6 ∨ m = 9 ∨ m = 11 then 30
  else 31

def daysOfMonths (y : ℕ) : ℕ → ℕ
  | 0 => 0
  | n + 1 => daysOfMonths y n + monthDays y (n + 1)

def daysOfYears : ℕ → ℕ
  | 0 => 0
  | n + 1 => daysOfYears n + yearDays (1970 + n)

def leapYears : ℕ → ℕ
  | 0 => 0
  | n + 1 => leapYears n + if isLeap (1970 + n) then 1 else 0

/-- A date from 1970 on and a time of day. -/
structure DateTime where
  year : ℕ
  month : ℕ
  day : ℕ
  hour : ℕ
  minute : ℕ
  second : ℕ
  from1970 : 1970 ≤ year
  monthRange : 1 ≤ month ∧ month ≤ 12
  dayRange : 1 ≤ day ∧ day ≤ monthDays year month
  hourRange : hour < 24
  minuteRange : minute < 60
  secondRange : second < 60

namespace DateTime

def dayOfYear (d : DateTime) : ℕ := daysOfMonths d.year (d.month - 1) + (d.day - 1)

def secondOfDay (d : DateTime) : ℕ := d.hour * 3600 + d.minute * 60 + d.second

/-- The seconds between 1970-01-01 00:00:00 and the date. -/
def seconds (d : DateTime) : ℕ :=
  (daysOfYears (d.year - 1970) + d.dayOfYear) * 86400 + d.secondOfDay

/-- The order of the calendar. -/
def Earlier (d e : DateTime) : Prop :=
  d.year < e.year ∨ d.year = e.year ∧ (d.month < e.month ∨ d.month = e.month ∧
    (d.day < e.day ∨ d.day = e.day ∧ d.secondOfDay < e.secondOfDay))

end DateTime

variable {y m n k : ℕ} {d e : DateTime}

lemma daysOfYears_eq (n : ℕ) : daysOfYears n = 365 * n + leapYears n := by
  induction n with
  | zero => rfl
  | succ n ih =>
    rw [daysOfYears, leapYears, ih, yearDays]
    split <;> omega

lemma daysOfMonths_mono (h : m ≤ n) : daysOfMonths y m ≤ daysOfMonths y n := by
  induction h with
  | refl => exact Nat.le_refl _
  | step _ ih => exact Nat.le_trans ih (Nat.le_add_right ..)

lemma daysOfYears_mono (h : m ≤ n) : daysOfYears m ≤ daysOfYears n := by
  induction h with
  | refl => exact Nat.le_refl _
  | step _ ih => exact Nat.le_trans ih (Nat.le_add_right ..)

lemma daysOfMonths_twelve (y : ℕ) : daysOfMonths y 12 = yearDays y := by
  simp only [daysOfMonths, monthDays, yearDays]
  cases isLeap y <;> rfl

lemma dayOfYear_lt (d : DateTime) : d.dayOfYear < daysOfMonths d.year d.month := by
  obtain ⟨hlow, -⟩ := d.monthRange
  obtain ⟨hday, hl⟩ := d.dayRange
  have hm : daysOfMonths d.year d.month =
      daysOfMonths d.year (d.month - 1) + monthDays d.year d.month := by
    obtain ⟨k, hk⟩ : ∃ k, d.month = k + 1 := ⟨d.month - 1, by omega⟩
    rw [hk, daysOfMonths, Nat.add_sub_cancel]
  rw [hm, DateTime.dayOfYear]
  omega

lemma dayOfYear_lt_yearDays (d : DateTime) : d.dayOfYear < yearDays d.year := by
  have hm : daysOfMonths d.year d.month ≤ daysOfMonths d.year 12 := daysOfMonths_mono d.monthRange.2
  rw [daysOfMonths_twelve] at hm
  exact Nat.lt_of_lt_of_le (dayOfYear_lt d) hm

lemma secondOfDay_lt (d : DateTime) : d.secondOfDay < 86400 := by
  have hh := d.hourRange
  have hm := d.minuteRange
  have hs := d.secondRange
  unfold DateTime.secondOfDay
  omega

lemma dayOfYear_lt_of_month (hy : d.year = e.year) (h : d.month < e.month) :
    d.dayOfYear < e.dayOfYear := by
  have hm : daysOfMonths d.year d.month ≤ daysOfMonths d.year (e.month - 1) :=
    daysOfMonths_mono (by omega)
  have hlt := dayOfYear_lt d
  unfold DateTime.dayOfYear at hlt ⊢
  rw [← hy]
  omega

lemma days_lt_of_year (h : d.year < e.year) :
    daysOfYears (d.year - 1970) + d.dayOfYear < daysOfYears (e.year - 1970) := by
  have hf := d.from1970
  have hy : 1970 + (d.year - 1970) = d.year := by omega
  have hm : daysOfYears (d.year - 1970 + 1) ≤ daysOfYears (e.year - 1970) :=
    daysOfYears_mono (by omega)
  rw [daysOfYears, hy] at hm
  have hlt := dayOfYear_lt_yearDays d
  omega

lemma seconds_lt_of_earlier (h : d.Earlier e) : d.seconds < e.seconds := by
  have hs := secondOfDay_lt d
  unfold DateTime.seconds
  rcases h with hy | ⟨hy, hm | ⟨hm, hday | ⟨hday, hsec⟩⟩⟩
  · have hlt := days_lt_of_year hy
    omega
  · have hlt := dayOfYear_lt_of_month hy hm
    rw [hy]
    omega
  · have hpos := d.dayRange.1
    have hlt : d.dayOfYear < e.dayOfYear := by
      unfold DateTime.dayOfYear
      rw [hy, hm]
      omega
    rw [hy]
    omega
  have heq : d.dayOfYear = e.dayOfYear := by
    unfold DateTime.dayOfYear
    rw [hy, hm, hday]
  rw [hy, heq]
  omega

end Elitra.Gregorian
