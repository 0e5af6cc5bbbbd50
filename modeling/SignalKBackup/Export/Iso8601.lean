import Mathlib.Data.List.Chain
import Mathlib.Data.List.Nodup
import SignalKBackup.Export.Questdb

/-!
# Iso8601 — the week functions against ISO 8601

The source computes weeks in two ways: from the Thursday (`isoWeekOf`) and from 4 January
(`weekStartUtc`).  `Iso8601` states what the standard says, without either formula, and
`isoWeekOf_iff` says that `isoWeekOf` is the one week it allows.  The second part is about ranges of
weeks: they tile the time between their ends, one shard a week.
-/

namespace SignalKBackup
namespace Export

open Lib
open Calendar

/-! ## The standard -/

/-- A Monday at midnight. -/
def IsMonday (t : ℤ) : Prop :=
  weekDay t = 1 ∧ timeWithinDay t = 0

/-- The Monday begins the week that a time lies in. -/
def BeginsWeekOf (monday t : ℤ) : Prop :=
  IsMonday monday ∧ monday ≤ t ∧ t < monday + msPerWeek

/-- The week belongs to the year of its Thursday, and week 1 of that year is the one that contains
4 January. -/
def Iso8601 (t : ℤ) (w : IsoWeek) : Prop :=
  ∃ monday first, BeginsWeekOf monday t ∧ w.year = year (monday + 3 * msPerDay) ∧
    BeginsWeekOf first (utc w.year 0 4) ∧ monday = first + (w.week - 1) * msPerWeek

theorem isMonday_iff {t : ℤ} : IsMonday t ↔ ∃ k, t = mondayOf k := by
  constructor
  · rintro ⟨hday, htime⟩
    unfold weekDay day timeWithinDay at *
    refine ⟨(t / msPerDay + 3) / 7, ?_⟩
    unfold mondayOf
    have hsplit := Int.mul_ediv_add_emod t msPerDay
    have hweek : 7 * ((t / msPerDay + 3) / 7) - 3 = t / msPerDay := by omega
    rw [hweek]
    linarith
  · rintro ⟨k, rfl⟩
    unfold mondayOf
    constructor
    · rw [weekDay, day_mul]
      omega
    · exact Int.mul_emod_left _ _

theorem beginsWeekOf_iff {monday t : ℤ} : BeginsWeekOf monday t ↔ monday = mondayOf (weekIndex t) := by
  have hnext : ∀ k, mondayOf k + msPerWeek = mondayOf (k + 1) := by
    intro k
    rw [mondayOf_add, one_mul]
  constructor
  · rintro ⟨hmonday, hle, hlt⟩
    rcases isMonday_iff.1 hmonday with ⟨k, rfl⟩
    rw [hnext] at hlt
    have hlow := le_weekIndex_iff.2 hle
    have hhigh : ¬k + 1 ≤ weekIndex t := by
      rw [le_weekIndex_iff]
      omega
    rw [show k = weekIndex t by omega]
  · rintro rfl
    have hhigh : ¬weekIndex t + 1 ≤ weekIndex t := by omega
    rw [le_weekIndex_iff] at hhigh
    exact ⟨isMonday_iff.2 ⟨_, rfl⟩, le_weekIndex_iff.1 le_rfl, by rw [hnext]; omega⟩

/-- The Thursday of a week. -/
theorem year_thursday (k : ℤ) : year (mondayOf k + 3 * msPerDay) = yearOfDay (7 * k) := by
  have hday : mondayOf k + 3 * msPerDay = 7 * k * msPerDay := by
    unfold mondayOf
    ring
  rw [year, hday, day_mul]

/-- 4 January lies in the week whose Monday `weekStartUtc` counts from. -/
theorem weekIndex_jan4 {y : ℤ} (h : 100 ≤ y) : weekIndex (utc y 0 4) = (dayFromYear y + 6) / 7 := by
  rw [weekIndex, utc_of_late h, makeDay_january, day_mul]
  congr 1
  omega

/-- Both formulas meet here: weeks counted from 4 January, and the Thursday's place in its year. -/
theorem isoWeekOf_iff {t : ℤ} (h : Modern (weekIndex t)) {w : IsoWeek} :
    Iso8601 t w ↔ w = isoWeekOf t := by
  obtain ⟨k, hk⟩ : ∃ k, k = weekIndex t := ⟨_, rfl⟩
  rw [← hk] at h
  rw [isoWeekOf_eq (hk ▸ h), ← hk]
  have hyear := h.year
  have hfirst := weekIndex_jan4 (show 100 ≤ yearOfDay (7 * k) by omega)
  unfold Iso8601
  simp only [beginsWeekOf_iff, ← hk]
  constructor
  · rintro ⟨_, _, rfl, hwy, rfl, hweek⟩
    rw [year_thursday] at hwy
    rw [hwy, hfirst, ← mondayOf_add] at hweek
    have hindex := le_antisymm (mondayOf_le_iff.1 hweek.le) (mondayOf_le_iff.1 hweek.ge)
    rcases w with ⟨wyear, wweek⟩
    simp only at hwy hindex
    simp only [weekAt, IsoWeek.mk.injEq]
    exact ⟨hwy, by omega⟩
  · rintro rfl
    refine ⟨_, _, rfl, (year_thursday k).symm, rfl, ?_⟩
    simp only [weekAt]
    rw [hfirst, ← mondayOf_add]
    congr 1
    omega

/-- Every time from the year 1000 on lies in a week for which the functions are right. -/
theorem modern_of_year {t : ℤ} (h : 1000 ≤ year t) : Modern (weekIndex t) := by
  have hstart := dayFromYear_mono h
  have hbegun := (yearOfDay_spec (day t)).1
  have hlate : dayFromYear 101 + 365 ≤ dayFromYear 1000 := dayFromYear_lt (by decide)
  unfold Modern weekIndex
  unfold year at hstart
  omega

theorem sign_compareIsoWeek (j k : ℤ) :
    (compareIsoWeek (weekAt j) (weekAt k)).sign = (mondayOf j - mondayOf k).sign := by
  have hmonday : mondayOf j - mondayOf k = (j - k) * msPerWeek := by
    unfold mondayOf msPerWeek
    ring
  have hpos : msPerWeek.sign = 1 := rfl
  rw [hmonday, Int.sign_mul, hpos, mul_one]
  rcases lt_trichotomy j k with hlt | rfl | hgt
  · rw [Int.sign_eq_neg_one_of_neg (compareIsoWeek_neg_iff.2 hlt),
      Int.sign_eq_neg_one_of_neg (by omega)]
  · simp [compareIsoWeek]
  · rw [Int.sign_eq_one_of_pos (compareIsoWeek_pos_iff.2 hgt), Int.sign_eq_one_of_pos (by omega)]

/-- `isoWeekOf` is the week of the standard, the other functions invert it, and weeks compare as
their Mondays do. -/
theorem isoWeekOf_iso8601 {t u : ℤ} (ht : 1000 ≤ year t ∧ year t ≤ 9999)
    (hu : 1000 ≤ year u ∧ year u ≤ 9999) :
    (∀ w, Iso8601 t w ↔ w = isoWeekOf t) ∧
    (1 ≤ (isoWeekOf t).week ∧ (isoWeekOf t).week ≤ 53) ∧
    IsMonday (weekStartUtc (isoWeekOf t)) ∧
    (weekStartUtc (isoWeekOf t) ≤ t ∧ t < weekEndUtc (isoWeekOf t)) ∧
    isoWeekOf (weekStartUtc (isoWeekOf t)) = isoWeekOf t ∧
    (compareIsoWeek (isoWeekOf t) (isoWeekOf u)).sign =
      (weekStartUtc (isoWeekOf t) - weekStartUtc (isoWeekOf u)).sign := by
  have hk := modern_of_year ht.1
  have hj := modern_of_year hu.1
  have hlow := le_weekIndex_iff.1 (le_refl (weekIndex t))
  have hhigh : ¬weekIndex t + 1 ≤ weekIndex t := by omega
  rw [le_weekIndex_iff] at hhigh
  rw [isoWeekOf_eq hk, isoWeekOf_eq hj, weekStartUtc_weekAt hk, weekStartUtc_weekAt hj,
    weekEndUtc_weekAt hk, isoWeekOf_mondayOf hk]
  refine ⟨fun w => ?_, weekAt_week _, isMonday_iff.2 ⟨_, rfl⟩, ⟨hlow, by omega⟩, rfl,
    sign_compareIsoWeek _ _⟩
  rw [isoWeekOf_iff hk, isoWeekOf_eq hk]

/-- Friday 2021-01-01 lies in the last week of 2020, which has 53 of them. -/
theorem isoWeekOf_iso8601_newYear :
    Iso8601 1609459200000 { year := 2020, week := 53 } := by
  have hyear : 1000 ≤ year 1609459200000 ∧ year 1609459200000 ≤ 9999 := by decide
  exact ((isoWeekOf_iso8601 hyear hyear).1 _).2 (by decide)

/-! ## Ranges of weeks -/

theorem weeksBetween_pairwise {a b : ℤ} (ha : Modern a) (hb : Modern b) :
    (weeksBetween (weekAt a) (weekAt b)).Pairwise fun v w => compareIsoWeek v w < 0 := by
  rw [weeksBetween_eq ha hb, List.pairwise_map]
  refine List.pairwise_lt_range.imp fun hij => ?_
  rw [compareIsoWeek_neg_iff]
  omega

theorem weeksBetween_chain {a b : ℤ} (ha : Modern a) (hb : Modern b) :
    (weeksBetween (weekAt a) (weekAt b)).IsChain fun v w => weekStartUtc w = weekEndUtc v := by
  rw [weeksBetween_eq ha hb, List.isChain_iff_getElem]
  intro i hi
  simp only [List.getElem_map, List.getElem_range]
  have hi' : Modern (a + i) := ha.mono (by omega)
  have hnext : Modern (a + (i + 1 : ℕ)) := ha.mono (by omega)
  rw [weekStartUtc_weekAt hnext, weekEndUtc_weekAt hi']
  congr 1
  push_cast
  ring

theorem weeksBetween_ends {a b : ℤ} (ha : Modern a) (hab : a ≤ b) :
    (weeksBetween (weekAt a) (weekAt b)).head? = some (weekAt a) ∧
      (weeksBetween (weekAt a) (weekAt b)).getLast? = some (weekAt b) := by
  obtain ⟨n, hn⟩ : ∃ n : ℕ, b = a + n := ⟨(b - a).toNat, by omega⟩
  have hlength : (b + 1 - a).toNat = n + 1 := by omega
  rw [weeksBetween_eq ha (ha.mono hab), hlength]
  constructor
  · simp [List.range_succ_eq_map]
  · simp [List.range_succ, hn]

/-- The `[from, to)` range of the rows that are requested for a week. -/
def requestRange (week : IsoWeek) : ℤ × ℤ :=
  (weekStartUtc week, weekEndUtc week)

def InRange (t : ℤ) (range : ℤ × ℤ) : Prop :=
  range.1 ≤ t ∧ t < range.2

theorem inRange_weekAt {k t : ℤ} (hk : Modern k) :
    InRange t (requestRange (weekAt k)) ↔ k = weekIndex t := by
  have hlow := le_weekIndex_iff (k := k) (t := t)
  have hhigh := le_weekIndex_iff (k := k + 1) (t := t)
  rw [InRange, requestRange, weekStartUtc_weekAt hk, weekEndUtc_weekAt hk]
  omega

/-- The loop stops by itself: rounds beyond the last week are not taken. -/
theorem weeksUpTo_stops {a b : ℤ} (ha : Modern a) (hb : Modern b) {n : ℕ}
    (h : (weeksBetween (weekAt a) (weekAt b)).length < n) :
    weeksUpTo (weekStartUtc (weekAt b)) n (weekStartUtc (weekAt a)) =
      weeksBetween (weekAt a) (weekAt b) := by
  rw [weeksBetween_eq ha hb] at h ⊢
  rw [List.length_map, List.length_range] at h
  rw [weekStartUtc_weekAt ha, weekStartUtc_weekAt hb]
  exact weeksUpTo_eq ha (by omega)

theorem weeksBetween_eq_nil_iff {a b : ℤ} (ha : Modern a) (hb : Modern b) :
    weeksBetween (weekAt a) (weekAt b) = [] ↔ 0 < compareIsoWeek (weekAt a) (weekAt b) := by
  rw [weeksBetween_eq ha hb, List.map_eq_nil_iff, List.range_eq_nil, compareIsoWeek_pos_iff]
  omega

/-- Between its ends a range of weeks gives every time to one shard, that of the time's own week. -/
theorem weeksBetween_covers {a b t : ℤ} (ha : Modern a) (hb : Modern b)
    (hlow : weekStartUtc (weekAt a) ≤ t) (hhigh : t < weekEndUtc (weekAt b)) :
    isoWeekOf t ∈ weeksBetween (weekAt a) (weekAt b) ∧
      ∀ week ∈ weeksBetween (weekAt a) (weekAt b),
        InRange t (requestRange week) ↔ week = isoWeekOf t := by
  rw [weekStartUtc_weekAt ha] at hlow
  rw [weekEndUtc_weekAt hb] at hhigh
  have hfirst := le_weekIndex_iff.2 hlow
  have hlast : ¬b + 1 ≤ weekIndex t := by
    rw [le_weekIndex_iff]
    omega
  have hmodern : Modern (weekIndex t) := ha.mono hfirst
  rw [isoWeekOf_eq hmodern]
  constructor
  · exact (mem_weeksBetween ha hb).2 ⟨weekIndex t, hfirst, by omega, rfl⟩
  · intro week hweek
    rcases (mem_weeksBetween ha hb).1 hweek with ⟨k, hk, _, rfl⟩
    rw [inRange_weekAt (ha.mono hk)]
    constructor
    · rintro rfl
      rfl
    · exact fun heq => weekAt_injective heq

theorem shardFile_nodup {table : List Char} {a b : ℤ} (ha : Modern a) (hb : Modern b) :
    ((weeksBetween (weekAt a) (weekAt b)).map (shardFile table)).Nodup := by
  rw [weeksBetween_eq ha hb, List.map_map]
  refine List.nodup_range.map ?_
  intro i j hij
  have hindex : a + (i : ℤ) = a + j := shardFile_injective hij
  omega

/-- The weeks from that of one time to that of another: none if the other is earlier, else a run
without gaps or overlaps, whose shards have different names. -/
theorem weeksBetween_tiles {s t : ℤ} (hs : 1000 ≤ year s ∧ year s ≤ 9999)
    (ht : 1000 ≤ year t ∧ year t ≤ 9999) (table : List Char) :
    (∀ n, (weeksBetween (isoWeekOf s) (isoWeekOf t)).length < n →
      weeksUpTo (weekStartUtc (isoWeekOf t)) n (weekStartUtc (isoWeekOf s)) =
        weeksBetween (isoWeekOf s) (isoWeekOf t)) ∧
    (weeksBetween (isoWeekOf s) (isoWeekOf t) = [] ↔
      0 < compareIsoWeek (isoWeekOf s) (isoWeekOf t)) ∧
    (compareIsoWeek (isoWeekOf s) (isoWeekOf t) ≤ 0 →
      (weeksBetween (isoWeekOf s) (isoWeekOf t)).head? = some (isoWeekOf s) ∧
      (weeksBetween (isoWeekOf s) (isoWeekOf t)).getLast? = some (isoWeekOf t)) ∧
    (weeksBetween (isoWeekOf s) (isoWeekOf t)).Pairwise (fun v w => compareIsoWeek v w < 0) ∧
    (weeksBetween (isoWeekOf s) (isoWeekOf t)).IsChain (fun v w => weekStartUtc w = weekEndUtc v) ∧
    (∀ instant, weekStartUtc (isoWeekOf s) ≤ instant → instant < weekEndUtc (isoWeekOf t) →
      isoWeekOf instant ∈ weeksBetween (isoWeekOf s) (isoWeekOf t) ∧
      ∀ week ∈ weeksBetween (isoWeekOf s) (isoWeekOf t),
        InRange instant (requestRange week) ↔ week = isoWeekOf instant) ∧
    ((weeksBetween (isoWeekOf s) (isoWeekOf t)).map (shardFile table)).Nodup := by
  have ha := modern_of_year hs.1
  have hb := modern_of_year ht.1
  rw [isoWeekOf_eq ha, isoWeekOf_eq hb]
  refine ⟨fun n => weeksUpTo_stops ha hb, weeksBetween_eq_nil_iff ha hb, fun hle => ?_,
    weeksBetween_pairwise ha hb, weeksBetween_chain ha hb,
    fun instant => weeksBetween_covers ha hb, shardFile_nodup ha hb⟩
  rw [← not_lt, compareIsoWeek_pos_iff, not_lt] at hle
  exact weeksBetween_ends ha hle

/-- From December 2020 to January 2021. -/
theorem weeksBetween_tiles_newYear :
    ((weeksBetween (isoWeekOf 1609200000000) (isoWeekOf 1610000000000)).map
      (shardFile "signalk".toList)).Nodup := by
  have hs : 1000 ≤ year 1609200000000 ∧ year 1609200000000 ≤ 9999 := by decide
  have ht : 1000 ≤ year 1610000000000 ∧ year 1610000000000 ≤ 9999 := by decide
  exact (weeksBetween_tiles hs ht _).2.2.2.2.2.2

end Export
end SignalKBackup
