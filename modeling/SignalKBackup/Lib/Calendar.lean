import Mathlib.Algebra.Order.Ring.Int
import Mathlib.Tactic.Linarith
import Mathlib.Tactic.Ring

/-!
# Calendar — the UTC calendar of ECMAScript dates

A time value is a number of milliseconds since 1970-01-01T00:00Z, as an unbounded integer: the
limit of 100 million days to either side, beyond which a date is invalid, is left out.

* `utc` is `Date.UTC` with its rule for two-digit years, `setDate` is `setUTCDate`;
* `yearOfDay_spec`: a day lies in the year it is assigned to;
* `setDate_add`: setting the date relative to the present one shifts by days;
* `utc_fields`: the fields of a time give back its midnight, except in the years 0 to 99.
-/

namespace SignalKBackup
namespace Lib
namespace Calendar

def msPerDay : ℤ := 86400000

theorem msPerDay_pos : 0 < msPerDay := by decide

/-! ## Years -/

/-- The day number of 1 January. -/
def dayFromYear (y : ℤ) : ℤ :=
  365 * (y - 1970) + (y - 1969) / 4 - (y - 1901) / 100 + (y - 1601) / 400

/-- The year of a day, by the cycles of 400, 100, 4 and 1 years from the year 1 on. -/
def yearOfDay (day : ℤ) : ℤ :=
  -- days since 1 January of the year 1, where all cycles begin
  let d := day + 719162
  let r400 := d % 146097
  let n100 := min (r400 / 36524) 3
  let r100 := r400 - 36524 * n100
  let n4 := r100 / 1461
  let r4 := r100 - 1461 * n4
  400 * (d / 146097) + 100 * n100 + 4 * n4 + min (r4 / 365) 3 + 1

/-- The year of the cycles `a`, `b`, `c`, `e`, in days. -/
theorem dayFromYear_cycles {a b c e : ℤ} (hb : 0 ≤ b ∧ b ≤ 3) (hc : 0 ≤ c ∧ c ≤ 24)
    (he : 0 ≤ e ∧ e ≤ 3) :
    dayFromYear (400 * a + 100 * b + 4 * c + e + 1) =
      146097 * a + 36524 * b + 1461 * c + 365 * e - 719162 := by
  unfold dayFromYear
  omega

theorem dayFromYear_succ (y : ℤ) :
    dayFromYear y + 365 ≤ dayFromYear (y + 1) ∧ dayFromYear (y + 1) ≤ dayFromYear y + 366 := by
  unfold dayFromYear
  omega

theorem dayFromYear_lt {x y : ℤ} (h : x < y) : dayFromYear x + 365 ≤ dayFromYear y := by
  unfold dayFromYear
  omega

theorem dayFromYear_mono {x y : ℤ} (h : x ≤ y) : dayFromYear x ≤ dayFromYear y := by
  unfold dayFromYear
  omega

/-- The year after the cycles `a`, `b`, `c`, `e` starts 365 days later, or 366 when these are the
last days of a cycle of four years that has its leap day. -/
theorem dayFromYear_next {a b c e : ℤ} (hb : 0 ≤ b ∧ b ≤ 3) (hc : 0 ≤ c ∧ c ≤ 24)
    (he : 0 ≤ e ∧ e ≤ 3) :
    dayFromYear (400 * a + 100 * b + 4 * c + e + 1 + 1) =
      146097 * a + 36524 * b + 1461 * c + 365 * e - 719162 +
        (if e = 3 ∧ (c < 24 ∨ b = 3) then 366 else 365) := by
  unfold dayFromYear
  split <;> omega

/-- A day by cycles, with `f` days into the year. -/
theorem yearOfDay_cycles (day : ℤ) :
    ∃ a b c e f : ℤ, (0 ≤ b ∧ b ≤ 3) ∧ (0 ≤ c ∧ c ≤ 24) ∧ (0 ≤ e ∧ e ≤ 3) ∧ 0 ≤ f ∧
      (f < 365 ∨ f < 366 ∧ e = 3 ∧ (c < 24 ∨ b = 3)) ∧
      day = 146097 * a + 36524 * b + 1461 * c + 365 * e - 719162 + f ∧
      yearOfDay day = 400 * a + 100 * b + 4 * c + e + 1 := by
  -- the quotients get names, so that omega meets one division at a time
  obtain ⟨r400, hr400⟩ : ∃ r, r = (day + 719162) % 146097 := ⟨_, rfl⟩
  obtain ⟨b, hb⟩ : ∃ b, b = min (r400 / 36524) 3 := ⟨_, rfl⟩
  obtain ⟨c, hc⟩ : ∃ c, c = (r400 - 36524 * b) / 1461 := ⟨_, rfl⟩
  obtain ⟨e, he⟩ : ∃ e, e = min ((r400 - 36524 * b - 1461 * c) / 365) 3 := ⟨_, rfl⟩
  have hyear : yearOfDay day = 400 * ((day + 719162) / 146097) + 100 * b + 4 * c + e + 1 := by
    rw [he, hc, hb, hr400]
    rfl
  have hr : 0 ≤ r400 ∧ r400 < 146097 := by omega
  have hb' : 0 ≤ b ∧ b ≤ 3 := by omega
  have hc' : 0 ≤ c ∧ c ≤ 24 := by omega
  have he' : 0 ≤ e ∧ e ≤ 3 := by omega
  refine ⟨_, b, c, e, r400 - 36524 * b - 1461 * c - 365 * e, hb', hc', he', ?_, ?_, ?_, hyear⟩
  · omega
  · clear hyear
    omega
  · omega

theorem yearOfDay_spec (day : ℤ) :
    dayFromYear (yearOfDay day) ≤ day ∧ day < dayFromYear (yearOfDay day + 1) := by
  rcases yearOfDay_cycles day with ⟨a, b, c, e, f, hb, hc, he, hf, hlast, hday, hyear⟩
  rw [hyear, dayFromYear_cycles hb hc he, dayFromYear_next hb hc he]
  split <;> omega

theorem yearOfDay_mono {x y : ℤ} (h : x ≤ y) : yearOfDay x ≤ yearOfDay y := by
  by_contra hlt
  -- else the year of `x` would begin after `y`
  have hle := dayFromYear_mono (show yearOfDay y + 1 ≤ yearOfDay x by omega)
  have hx := (yearOfDay_spec x).1
  have hy := (yearOfDay_spec y).2
  omega

/-- From 1 January of a year on, the years are not before it. -/
theorem le_yearOfDay {day y : ℤ} (h : dayFromYear y ≤ day) : y ≤ yearOfDay day := by
  by_contra hlt
  -- else the year after that of `day` would have begun
  have hle := dayFromYear_mono (show yearOfDay day + 1 ≤ y by omega)
  have hday := (yearOfDay_spec day).2
  omega

/-! ## The fields of a time -/

def isLeap (y : ℤ) : Bool :=
  dayFromYear (y + 1) - dayFromYear y == 366

/-- The first day of a month in its year; months count from 0. -/
def monthStart (leap : Bool) (month : ℕ) : ℤ :=
  let starts : List ℤ := [0, 31, 59, 90, 120, 151, 181, 212, 243, 273, 304, 334]
  starts.getD month 365 + if leap && decide (2 ≤ month) then 1 else 0

/-- The day of a date; `date` may lie outside the month. -/
def makeDay (year : ℤ) (month : ℕ) (date : ℤ) : ℤ :=
  dayFromYear year + monthStart (isLeap year) month + date - 1

def day (t : ℤ) : ℤ :=
  t / msPerDay

def timeWithinDay (t : ℤ) : ℤ :=
  t % msPerDay

def year (t : ℤ) : ℤ :=
  yearOfDay (day t)

def month (t : ℤ) : ℕ :=
  let dayInYear := day t - dayFromYear (year t)
  ((List.range 11).filter fun m => monthStart (isLeap (year t)) (m + 1) ≤ dayInYear).length

def date (t : ℤ) : ℤ :=
  day t - dayFromYear (year t) - monthStart (isLeap (year t)) (month t) + 1

/-- 0 is Sunday. -/
def weekDay (t : ℤ) : ℤ :=
  (day t + 4) % 7

/-- `Date.UTC` at midnight: the years 0 to 99 stand for 1900 to 1999. -/
def utc (year : ℤ) (month : ℕ) (date : ℤ) : ℤ :=
  let fullYear := if 0 ≤ year ∧ year ≤ 99 then 1900 + year else year
  makeDay fullYear month date * msPerDay

def setDate (t date : ℤ) : ℤ :=
  makeDay (year t) (month t) date * msPerDay + timeWithinDay t

/-- Decimal digits, with zeros in front up to `width` of them. -/
def pad (width n : ℕ) : List Char :=
  let digits := Nat.toDigits 10 n
  List.replicate (width - digits.length) '0' ++ digits

def toISOString (t : ℤ) : List Char :=
  let y := year t
  let ms := (timeWithinDay t).toNat
  -- years outside 0 to 9999 have a sign and six digits
  let yearText :=
    if 0 ≤ y ∧ y ≤ 9999 then pad 4 y.toNat
    else (if 0 ≤ y then '+' else '-') :: pad 6 y.natAbs
  yearText ++ '-' :: pad 2 (month t + 1) ++ '-' :: pad 2 (date t).toNat ++
    'T' :: pad 2 (ms / 3600000) ++ ':' :: pad 2 (ms / 60000 % 60) ++
    ':' :: pad 2 (ms / 1000 % 60) ++ '.' :: pad 3 (ms % 1000) ++ ['Z']

example : toISOString 1709251199007 = "2024-02-29T23:59:59.007Z".toList := by decide +kernel

theorem day_mul (d : ℤ) : day (d * msPerDay) = d :=
  Int.mul_ediv_cancel d (by decide)

theorem day_le_iff {d t : ℤ} : d ≤ day t ↔ d * msPerDay ≤ t :=
  Int.le_ediv_iff_mul_le msPerDay_pos

theorem makeDay_fields (t n : ℤ) : makeDay (year t) (month t) (date t + n) = day t + n := by
  unfold makeDay date
  omega

theorem setDate_add (t n : ℤ) : setDate t (date t + n) = t + n * msPerDay := by
  have hsplit := Int.mul_ediv_add_emod t msPerDay
  rw [setDate, makeDay_fields, timeWithinDay, day]
  linarith

theorem setDate_sub (t n : ℤ) : setDate t (date t - n) = t - n * msPerDay := by
  have h := setDate_add t (-n)
  -- the date is shifted by a negative number of days
  rw [← sub_eq_add_neg] at h
  rw [h]
  ring

theorem utc_of_late {y : ℤ} {m : ℕ} {d : ℤ} (h : 100 ≤ y) : utc y m d = makeDay y m d * msPerDay := by
  rw [utc, if_neg (by omega)]

theorem utc_fields {t : ℤ} (h : 100 ≤ year t) : utc (year t) (month t) (date t) = day t * msPerDay := by
  have hday := makeDay_fields t 0
  rw [add_zero, add_zero] at hday
  rw [utc_of_late h, hday]

/-- The days of January. -/
theorem makeDay_january (y d : ℤ) : makeDay y 0 d = dayFromYear y + d - 1 := by
  simp [makeDay, monthStart]

example : utc 2024 11 30 = 1735516800000 := by decide

end Calendar
end Lib
end SignalKBackup
