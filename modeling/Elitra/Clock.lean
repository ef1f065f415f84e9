import Elitra.Gregorian
import Mathlib.Tactic.IntervalCases

namespace Elitra.Clock
open Gregorian

structure Registers where
  second : ℕ
  minute : ℕ
  hour : ℕ
  day : ℕ
  month : ℕ
  year : ℕ
  century : ℕ

structure RTCInfo where
  second : ℕ
  minute : ℕ
  hour : ℕ
  day : ℕ
  month : ℕ
  year : ℕ

def decode (bcd : Bool) (n : ℕ) : ℕ := if bcd then n / 16 * 10 + n % 16 else n

def krustCmosReadTime (bcd : Bool) (r : Registers) : RTCInfo where
  second := decode bcd r.second
  minute := decode bcd r.minute
  hour := decode bcd r.hour
  day := decode bcd r.day
  month := decode bcd r.month
  year :=
    if 0x10 ≤ r.century ∨ 0 < r.century then decode bcd r.century * 100 + decode bcd r.year
    else 2000 + decode bcd r.year

/-- The seconds that `clock_gettime(CLOCK_REALTIME)` computes. -/
def realtime (rtc : RTCInfo) : ℕ :=
  let days := (rtc.year - 1970) * 365 + (rtc.year - 1969) / 4 + (rtc.month - 1) * 30 + rtc.day - 1
  days * 86400 + rtc.hour * 3600 + rtc.minute * 60 + rtc.second

/-- How the RTC is set up: BCD or binary, 24 or 12 hours, with or without a century register. -/
structure Mode where
  bcd : Bool
  hours24 : Bool
  century : Bool

def encode (bcd : Bool) (n : ℕ) : ℕ := if bcd then n / 10 * 16 + n % 10 else n

/-- The hour register; with 12 hours its top bit is for the afternoon. -/
def encodeHour (mode : Mode) (h : ℕ) : ℕ :=
  if mode.hours24 then encode mode.bcd h
  else encode mode.bcd (if h % 12 = 0 then 12 else h % 12) + if 12 ≤ h then 0x80 else 0

/-- The registers at a date. -/
def report (mode : Mode) (d : DateTime) : Registers where
  second := encode mode.bcd d.second
  minute := encode mode.bcd d.minute
  hour := encodeHour mode d.hour
  day := encode mode.bcd d.day
  month := encode mode.bcd d.month
  year := encode mode.bcd (d.year % 100)
  century := if mode.century then encode mode.bcd (d.year / 100) else 0

/-- The dates that the RTC can report: two digits of a century, or this century without them. -/
def Reportable (mode : Mode) (d : DateTime) : Prop :=
  if mode.century then d.year < 10000 else 2000 ≤ d.year ∧ d.year < 2100

def clockRealtime (mode : Mode) (d : DateTime) : ℕ :=
  realtime (krustCmosReadTime mode.bcd (report mode d))

/-- The hour register holds the hour itself. -/
def HourPlain (mode : Mode) (d : DateTime) : Prop :=
  mode.hours24 = true ∨ 1 ≤ d.hour ∧ d.hour ≤ 11

/-- Every fourth year and months of 30 days come out at the calendar's days. -/
def DaysPlain (d : DateTime) : Prop :=
  (d.year - 1969) / 4 + (d.month - 1) * 30 =
    leapYears (d.year - 1970) + daysOfMonths d.year (d.month - 1)

section Reading

variable {mode : Mode} {d : DateTime}

lemma decode_encode (bcd : Bool) (n : ℕ) : decode bcd (encode bcd n) = n := by
  cases bcd with
  | false => rfl
  | true =>
    change (n / 10 * 16 + n % 10) / 16 * 10 + (n / 10 * 16 + n % 10) % 16 = n
    omega

lemma decode_encode_add (bcd : Bool) (n : ℕ) :
    decode bcd (encode bcd n + 0x80) = n + if bcd then 80 else 128 := by
  cases bcd with
  | false => rfl
  | true =>
    change (n / 10 * 16 + n % 10 + 0x80) / 16 * 10 + (n / 10 * 16 + n % 10 + 0x80) % 16 = n + 80
    omega

lemma read_hour (mode : Mode) (h : ℕ) (hh : h < 24) :
    decode mode.bcd (encodeHour mode h) = h ∧ (mode.hours24 = true ∨ 1 ≤ h ∧ h ≤ 11) ∨
      (∃ off, decode mode.bcd (encodeHour mode h) = h + off ∧ off % 24 ≠ 0) ∧
        ¬ (mode.hours24 = true ∨ 1 ≤ h ∧ h ≤ 11) := by
  unfold encodeHour
  cases hm : mode.hours24 with
  | true =>
    rw [if_pos rfl, decode_encode]
    exact .inl ⟨rfl, .inl rfl⟩
  | false =>
    rw [if_neg (by decide)]
    by_cases hn : 12 ≤ h
    · refine .inr ⟨?_, by simp; omega⟩
      rw [if_pos hn, decode_encode_add]
      refine ⟨(if h % 12 = 0 then 12 else h % 12) + (if mode.bcd then 80 else 128) - h, ?_, ?_⟩
      · split <;> split <;> omega
      · split <;> split <;> omega
    rw [if_neg hn, Nat.add_zero, decode_encode]
    by_cases hz : h = 0
    · refine .inr ⟨⟨12, ?_, by decide⟩, by simp; omega⟩
      rw [hz]
      rfl
    refine .inl ⟨?_, .inr (by omega)⟩
    rw [if_neg (by omega)]
    omega

lemma read_year (hrep : Reportable mode d) :
    (krustCmosReadTime mode.bcd (report mode d)).year = d.year := by
  have hf := d.from1970
  unfold krustCmosReadTime report
  dsimp only
  rw [decode_encode]
  unfold Reportable at hrep
  cases hc : mode.century with
  | true =>
    rw [hc, if_pos rfl] at hrep
    have hpos : 0 < encode mode.bcd (d.year / 100) := by
      unfold encode
      split <;> omega
    rw [if_pos rfl, if_pos (.inr hpos), decode_encode]
    omega
  | false =>
    rw [hc, if_neg (by decide)] at hrep
    change (if 0x10 ≤ 0 ∨ 0 < 0 then _ else 2000 + d.year % 100) = d.year
    rw [if_neg (by decide)]
    omega

lemma clockRealtime_eq (hrep : Reportable mode d) :
    clockRealtime mode d =
      ((d.year - 1970) * 365 + ((d.year - 1969) / 4 + (d.month - 1) * 30) + (d.day - 1)) * 86400 +
        decode mode.bcd (encodeHour mode d.hour) * 3600 + d.minute * 60 + d.second := by
  have hf := d.dayRange.1
  unfold clockRealtime realtime
  rw [read_year hrep]
  unfold krustCmosReadTime report
  dsimp only
  rw [decode_encode, decode_encode, decode_encode, decode_encode]
  omega

/-- At a date the RTC can report, the result is the number of seconds since 1970 exactly if the hour
register holds the hour and the days come out; of two such dates the later has the larger result. -/
theorem clock_realtime_iff (mode : Mode) (d : DateTime) (hrep : Reportable mode d) :
    (clockRealtime mode d = d.seconds ↔ HourPlain mode d ∧ DaysPlain d) ∧
      ∀ e, Reportable mode e → HourPlain mode d ∧ DaysPlain d → HourPlain mode e ∧ DaysPlain e →
        d.Earlier e → clockRealtime mode d ≤ clockRealtime mode e := by
  have hex : ∀ d : DateTime, Reportable mode d →
      (clockRealtime mode d = d.seconds ↔ HourPlain mode d ∧ DaysPlain d) := by
    intro d hrep
    rw [clockRealtime_eq hrep]
    unfold DateTime.seconds DateTime.dayOfYear DateTime.secondOfDay HourPlain DaysPlain
    rw [daysOfYears_eq]
    rcases read_hour mode d.hour d.hourRange with ⟨hr, hp⟩ | ⟨⟨off, hr, hoff⟩, hp⟩
    · rw [hr]
      refine Iff.trans ?_ (and_iff_right hp).symm
      omega
    rw [hr]
    refine iff_of_false ?_ fun h => hp h.1
    omega
  refine ⟨hex d hrep, fun e hrep' hd he hea => ?_⟩
  rw [(hex d hrep).mpr hd, (hex e hrep').mpr he]
  exact Nat.le_of_lt (seconds_lt_of_earlier hea)

/-- Midnight of New Year 1970, in BCD and 24 hours. -/
def newYear : DateTime where
  year := 1970
  month := 1
  day := 1
  hour := 0
  minute := 0
  second := 0
  from1970 := by decide
  monthRange := by decide
  dayRange := by decide
  hourRange := by decide
  minuteRange := by decide
  secondRange := by decide

def januaryEnd : DateTime :=
  { newYear with
    day := 31
    hour := 23
    dayRange := by decide
    hourRange := by decide }

def februaryStart : DateTime :=
  { newYear with
    month := 2
    monthRange := by decide
    dayRange := by decide }

def usual : Mode := ⟨true, true, true⟩

theorem clock_realtime_iff_january : clockRealtime usual januaryEnd = januaryEnd.seconds ∧
    januaryEnd.seconds = 30 * 86400 + 23 * 3600 :=
  ⟨(clock_realtime_iff usual januaryEnd (show 1970 < 10000 by decide)).1.mpr ⟨.inl rfl, rfl⟩, rfl⟩

/-- The first of February 1970 is taken for the 31st of January, so the clock goes back. -/
theorem clock_goes_back :
    clockRealtime usual februaryStart = 30 * 86400 ∧ februaryStart.seconds = 31 * 86400 ∧
      januaryEnd.Earlier februaryStart ∧
      clockRealtime usual februaryStart < clockRealtime usual januaryEnd := by
  refine ⟨rfl, rfl, .inr ⟨rfl, .inl (by decide)⟩, by decide⟩

end Reading

end Elitra.Clock
