import SignalKBackup.Lib.Calendar

/-!
# IsoWeek — UTC ISO-week math

Weeks are counted here by an index: week `k` is the one whose Thursday is day `7 * k` since the
epoch, itself a Thursday.  `Modern k` leaves out the weeks up to the year 100, whose years
`Date.UTC` reads as 1900 to 1999.

* `isoWeekOf_eq`, `weekStartUtc_weekAt`: `isoWeekOf` and `weekStartUtc` by index;
* `compareIsoWeek_neg_iff`: weeks compare as their indices;
* `mem_weeksBetween`: the weeks between two others are those with an index in between;
* `formatIsoWeek_injective`: two weeks have different names.
-/

namespace SignalKBackup
namespace Export

open Lib
open Calendar

@[ext]
structure IsoWeek where
  year : ℤ
  week : ℤ
  deriving DecidableEq

def weekStartUtc (iw : IsoWeek) : ℤ :=
  -- 4 January always lies in week 1
  let jan4 := utc iw.year 0 4
  let mondayOffset := (weekDay jan4 + 6) % 7
  let week1Monday := setDate jan4 (date jan4 - mondayOffset)
  setDate week1Monday (date week1Monday + (iw.week - 1) * 7)

def weekEndUtc (iw : IsoWeek) : ℤ :=
  let start := weekStartUtc iw
  setDate start (date start + 7)

/-- `Math.ceil(x / n)`. -/
def ceilDiv (x n : ℤ) : ℤ :=
  -(-x / n)

def isoWeekOf (t : ℤ) : IsoWeek :=
  let d := utc (Calendar.year t) (month t) (date t)
  let isoDow := if weekDay d = 0 then 7 else weekDay d
  -- the week belongs to the year of its Thursday
  let thursday := setDate d (date d + (4 - isoDow))
  let year := Calendar.year thursday
  let yearStart := utc year 0 1
  { year, week := ceilDiv ((thursday - yearStart) / msPerDay + 1) 7 }

/-- Below 0, 0 or above 0. -/
def compareIsoWeek (a b : IsoWeek) : ℤ :=
  if a.year ≠ b.year then a.year - b.year else a.week - b.week

def msPerWeek : ℤ := 7 * msPerDay

/-- The loop of `weeksBetween`, for at most the given number of weeks. -/
def weeksUpTo (stop : ℤ) : ℕ → ℤ → List IsoWeek
  | 0, _ => []
  | n + 1, cursor =>
      if cursor ≤ stop then isoWeekOf cursor :: weeksUpTo stop n (cursor + msPerWeek) else []

def weeksBetween (a b : IsoWeek) : List IsoWeek :=
  if compareIsoWeek a b > 0 then []
  else
    let stop := weekStartUtc b
    weeksUpTo stop ((stop - weekStartUtc a) / msPerWeek + 2).toNat (weekStartUtc a)

/-- `String`, of an integer. -/
def intText : ℤ → List Char
  | .ofNat n => Nat.toDigits 10 n
  | .negSucc n => '-' :: Nat.toDigits 10 (n + 1)

def padStart (width : ℕ) (fill : Char) (s : List Char) : List Char :=
  List.replicate (width - s.length) fill ++ s

def formatIsoWeek (iw : IsoWeek) : List Char :=
  intText iw.year ++ '-' :: 'W' :: padStart 2 '0' (intText iw.week)

/-! ## Weeks by index -/

/-- The index of the week of a time. -/
def weekIndex (t : ℤ) : ℤ :=
  (day t + 3) / 7

/-- The Monday of a week, at midnight. -/
def mondayOf (k : ℤ) : ℤ :=
  (7 * k - 3) * msPerDay

def weekAt (k : ℤ) : IsoWeek :=
  { year := yearOfDay (7 * k), week := (7 * k - dayFromYear (yearOfDay (7 * k))) / 7 + 1 }

/-- The Thursday of the week lies in the year 101 or later. -/
def Modern (k : ℤ) : Prop :=
  dayFromYear 101 ≤ 7 * k

theorem Modern.mono {j k : ℤ} (h : Modern j) (hle : j ≤ k) : Modern k := by
  unfold Modern at *
  omega

theorem Modern.year {k : ℤ} (h : Modern k) : 101 ≤ yearOfDay (7 * k) :=
  le_yearOfDay h

/-- Every time from 1969 on lies in such a week. -/
theorem modern_of_epoch {k : ℤ} (h : -52 ≤ k) : Modern k := by
  have hday : dayFromYear 101 ≤ -364 := by decide
  unfold Modern
  omega

theorem weekIndex_mondayOf (k : ℤ) : weekIndex (mondayOf k) = k := by
  rw [weekIndex, mondayOf, day_mul]
  omega

theorem le_weekIndex_iff {k t : ℤ} : k ≤ weekIndex t ↔ mondayOf k ≤ t := by
  rw [weekIndex, mondayOf, ← day_le_iff]
  omega

theorem mondayOf_add (k n : ℤ) : mondayOf (k + n) = mondayOf k + n * msPerWeek := by
  unfold mondayOf msPerWeek
  ring

theorem mondayOf_le_iff {j k : ℤ} : mondayOf j ≤ mondayOf k ↔ j ≤ k := by
  rw [← le_weekIndex_iff, weekIndex_mondayOf]

theorem isoWeekOf_eq {t : ℤ} (h : Modern (weekIndex t)) : isoWeekOf t = weekAt (weekIndex t) := by
  -- the year may be the one before the Thursday is in
  have hlate : 100 ≤ Calendar.year t := by
    refine le_yearOfDay ?_
    have hstep := dayFromYear_lt (show (100 : ℤ) < 101 by decide)
    unfold Modern weekIndex at h
    omega
  -- the Thursday of the week is day `7 * weekIndex t`
  have hthursday : setDate (day t * msPerDay) (date (day t * msPerDay) +
      (4 - if weekDay (day t * msPerDay) = 0 then 7 else weekDay (day t * msPerDay))) =
        7 * weekIndex t * msPerDay := by
    rw [setDate_add, weekDay, day_mul, ← add_mul]
    congr 1
    unfold weekIndex
    split <;> omega
  have hyear : Calendar.year (7 * weekIndex t * msPerDay) = yearOfDay (7 * weekIndex t) := by
    rw [Calendar.year, day_mul]
  have hmodern := h.year
  unfold isoWeekOf
  simp only [utc_fields hlate, hthursday, hyear]
  rw [utc_of_late (by omega), makeDay_january, ← sub_mul, Int.mul_ediv_cancel _ (by decide), weekAt]
  have hstart := (yearOfDay_spec (7 * weekIndex t)).1
  congr 1
  unfold ceilDiv
  omega

theorem weekStartUtc_weekAt {k : ℤ} (h : Modern k) : weekStartUtc (weekAt k) = mondayOf k := by
  have hyear := h.year
  have hstart := (yearOfDay_spec (7 * k)).1
  unfold weekStartUtc
  simp only [weekAt]
  rw [utc_of_late (by omega), makeDay_january, setDate_sub, setDate_add, weekDay, day_mul, mondayOf,
    ← sub_mul, ← add_mul]
  congr 1
  omega

theorem weekEndUtc_weekAt {k : ℤ} (h : Modern k) : weekEndUtc (weekAt k) = mondayOf (k + 1) := by
  rw [weekEndUtc, setDate_add, weekStartUtc_weekAt h, mondayOf_add, one_mul, msPerWeek]

/-- A Monday's week is the week it starts. -/
theorem isoWeekOf_mondayOf {k : ℤ} (h : Modern k) : isoWeekOf (mondayOf k) = weekAt k := by
  have hindex := weekIndex_mondayOf k
  rw [isoWeekOf_eq (hindex.symm ▸ h), hindex]

/-! ## The order of weeks -/

theorem weekAt_week (k : ℤ) : 1 ≤ (weekAt k).week ∧ (weekAt k).week ≤ 53 := by
  rcases yearOfDay_spec (7 * k) with ⟨hlo, hhi⟩
  have hlength := (dayFromYear_succ (yearOfDay (7 * k))).2
  simp only [weekAt]
  omega

theorem compareIsoWeek_lt {j k : ℤ} (h : j < k) : compareIsoWeek (weekAt j) (weekAt k) < 0 := by
  -- a later Thursday lies in a later year, or later in the same year
  have hyear := yearOfDay_mono (show 7 * j ≤ 7 * k by omega)
  unfold compareIsoWeek weekAt
  split
  case isTrue hne =>
      simp only at hne ⊢
      omega
  case isFalse heq =>
      simp only [not_not] at heq ⊢
      rw [heq]
      omega

theorem compareIsoWeek_swap (a b : IsoWeek) : compareIsoWeek b a = -compareIsoWeek a b := by
  unfold compareIsoWeek
  split <;> split <;> omega

theorem compareIsoWeek_neg_iff {j k : ℤ} : compareIsoWeek (weekAt j) (weekAt k) < 0 ↔ j < k := by
  constructor
  · intro h
    rcases lt_trichotomy j k with hlt | rfl | hgt
    · exact hlt
    · simp [compareIsoWeek] at h
    · have hpos := compareIsoWeek_lt hgt
      rw [compareIsoWeek_swap] at hpos
      omega
  · exact compareIsoWeek_lt

theorem compareIsoWeek_pos_iff {j k : ℤ} : 0 < compareIsoWeek (weekAt j) (weekAt k) ↔ k < j := by
  rw [compareIsoWeek_swap, neg_pos, compareIsoWeek_neg_iff]

theorem compareIsoWeek_eq_zero_iff {j k : ℤ} :
    compareIsoWeek (weekAt j) (weekAt k) = 0 ↔ j = k := by
  have hneg := compareIsoWeek_neg_iff (j := j) (k := k)
  have hpos := compareIsoWeek_pos_iff (j := j) (k := k)
  omega

theorem weekAt_injective {j k : ℤ} (h : weekAt j = weekAt k) : j = k := by
  rw [← compareIsoWeek_eq_zero_iff, h]
  simp [compareIsoWeek]

/-! ## Ranges of weeks -/

/-- The loop visits the weeks from `a` to `b`, provided it may take that many steps. -/
theorem weeksUpTo_eq {a b : ℤ} (h : Modern a) {n : ℕ} (hn : b < a + n) :
    weeksUpTo (mondayOf b) n (mondayOf a) =
      (List.range (b + 1 - a).toNat).map fun i : ℕ => weekAt (a + i) := by
  -- on the number of steps left, one Monday after the other
  induction n generalizing a with
  | zero =>
      have hempty : (b + 1 - a).toNat = 0 := by omega
      rw [hempty]
      rfl
  | succ n ih =>
      rw [weeksUpTo]
      split
      case isTrue hmonday =>
          have hle := mondayOf_le_iff.1 hmonday
          have hlength : (b + 1 - a).toNat = (b + 1 - (a + 1)).toNat + 1 := by omega
          have hnext : mondayOf a + msPerWeek = mondayOf (a + 1) := by
            rw [mondayOf_add, one_mul]
          rw [hnext, ih (h.mono (by omega)) (by push_cast at hn; omega), isoWeekOf_mondayOf h, hlength,
            List.range_succ_eq_map, List.map_cons, List.map_map]
          congr 1
          · simp
          · refine List.map_congr_left fun i _ => ?_
            simp only [Function.comp_apply, Nat.succ_eq_add_one]
            congr 1
            push_cast
            omega
      case isFalse hmonday =>
          rw [mondayOf_le_iff] at hmonday
          have hempty : (b + 1 - a).toNat = 0 := by omega
          rw [hempty]
          rfl

theorem weeksBetween_eq {a b : ℤ} (ha : Modern a) (hb : Modern b) :
    weeksBetween (weekAt a) (weekAt b) =
      (List.range (b + 1 - a).toNat).map fun i : ℕ => weekAt (a + i) := by
  unfold weeksBetween
  split
  case isTrue hafter =>
      have hlt := compareIsoWeek_pos_iff.1 hafter
      have hempty : (b + 1 - a).toNat = 0 := by omega
      rw [hempty]
      rfl
  case isFalse hbefore =>
      have hle : a ≤ b := by
        by_contra hlt
        exact hbefore (compareIsoWeek_pos_iff.2 (by omega))
      have hgap : mondayOf b - mondayOf a = (b - a) * msPerWeek := by
        unfold mondayOf msPerWeek
        ring
      simp only [weekStartUtc_weekAt ha, weekStartUtc_weekAt hb]
      rw [hgap, Int.mul_ediv_cancel _ (by decide)]
      exact weeksUpTo_eq ha (by omega)

theorem mem_weeksBetween {a b : ℤ} (ha : Modern a) (hb : Modern b) {w : IsoWeek} :
    w ∈ weeksBetween (weekAt a) (weekAt b) ↔ ∃ k, a ≤ k ∧ k ≤ b ∧ w = weekAt k := by
  rw [weeksBetween_eq ha hb]
  simp only [List.mem_map, List.mem_range]
  constructor
  · rintro ⟨i, hi, rfl⟩
    exact ⟨a + i, by omega, by omega, rfl⟩
  · rintro ⟨k, hak, hkb, rfl⟩
    exact ⟨(k - a).toNat, by omega, by congr 1; omega⟩

/-! ## Names of weeks -/

theorem intText_injective {m n : ℤ} (h : intText m = intText n) : m = n := by
  have hdigits : ∀ i j : ℕ, Nat.toDigits 10 i = Nat.toDigits 10 j → i = j := by
    intro i j hij
    rw [← Nat.ofDigitChars_toDigits (b := 10) (n := i) (by decide) (by decide), hij,
      Nat.ofDigitChars_toDigits (by decide) (by decide)]
  -- digits never begin with a sign
  have hsign : ∀ i j : ℕ, Nat.toDigits 10 i ≠ '-' :: Nat.toDigits 10 (j + 1) := by
    intro i j hij
    have hmem : '-' ∈ Nat.toDigits 10 i := by simp [hij]
    exact absurd (Nat.isDigit_of_mem_toDigits (by decide) (by decide) hmem) (by decide)
  cases m with
  | ofNat i =>
      cases n with
      | ofNat j =>
          rw [hdigits i j h]
      | negSucc j =>
          exact absurd h (hsign i j)
  | negSucc i =>
      cases n with
      | ofNat j =>
          exact absurd h.symm (hsign j i)
      | negSucc j =>
          have hij := hdigits _ _ (List.cons.inj h).2
          rw [Nat.succ.inj hij]

theorem intText_noW (n : ℤ) : 'W' ∉ intText n := by
  have hdigits : ∀ i : ℕ, 'W' ∉ Nat.toDigits 10 i := by
    intro i hmem
    exact absurd (Nat.isDigit_of_mem_toDigits (by decide) (by decide) hmem) (by decide)
  cases n with
  | ofNat i =>
      exact hdigits i
  | negSucc i =>
      simpa [intText] using hdigits (i + 1)

/-- The padded numbers of a year's weeks read back as themselves. -/
theorem padStart_week : ∀ n ∈ List.range 54, Nat.ofDigitChars 10 (padStart 2 '0' (intText n)) 0 = n := by
  decide

theorem padStart_injective {m n : ℤ} (hm : 1 ≤ m ∧ m ≤ 53) (hn : 1 ≤ n ∧ n ≤ 53)
    (h : padStart 2 '0' (intText m) = padStart 2 '0' (intText n)) : m = n := by
  have hread : ∀ k : ℤ, 1 ≤ k ∧ k ≤ 53 →
      (Nat.ofDigitChars 10 (padStart 2 '0' (intText k)) 0 : ℤ) = k := by
    intro k hk
    have hweek := padStart_week k.toNat (by simp; omega)
    rw [Int.toNat_of_nonneg (by omega)] at hweek
    omega
  rw [← hread m hm, h, hread n hn]

theorem formatIsoWeek_injective {j k : ℤ} (h : formatIsoWeek (weekAt j) = formatIsoWeek (weekAt k)) :
    j = k := by
  obtain ⟨yj, hyj⟩ : ∃ x, x = intText (weekAt j).year ++ ['-'] := ⟨_, rfl⟩
  obtain ⟨yk, hyk⟩ : ∃ x, x = intText (weekAt k).year ++ ['-'] := ⟨_, rfl⟩
  have hnoW : ∀ y : ℤ, ∀ c ∈ intText y ++ ['-'], (c != 'W') = true := by
    intro y c hc
    simp only [bne_iff_ne]
    rintro rfl
    simp [intText_noW] at hc
  -- the year ends at the only `W`
  have hsplit : yj ++ 'W' :: padStart 2 '0' (intText (weekAt j).week) =
      yk ++ 'W' :: padStart 2 '0' (intText (weekAt k).week) := by
    simpa [formatIsoWeek, hyj, hyk] using h
  have htake : ∀ x rest : List Char, (∀ c ∈ x, (c != 'W') = true) →
      (x ++ 'W' :: rest).takeWhile (fun c => c != 'W') = x := by
    intro x rest hx
    rw [List.takeWhile_append_of_pos hx]
    simp
  -- what stands before it is the year, what stands behind it the week
  have hyears : yj = yk := by
    have hboth := congrArg (List.takeWhile fun c => c != 'W') hsplit
    rwa [htake _ _ (hyj ▸ hnoW _), htake _ _ (hyk ▸ hnoW _)] at hboth
  have hweeks : padStart 2 '0' (intText (weekAt j).week) = padStart 2 '0' (intText (weekAt k).week) := by
    rw [hyears] at hsplit
    exact (List.cons.inj (List.append_cancel_left hsplit)).2
  have hyear : (weekAt j).year = (weekAt k).year := by
    rw [hyj, hyk] at hyears
    exact intText_injective (List.append_cancel_right hyears)
  have hweek := padStart_injective (weekAt_week j) (weekAt_week k) hweeks
  exact weekAt_injective (IsoWeek.ext hyear hweek)

example : formatIsoWeek (isoWeekOf 1735516800000) = "2025-W01".toList := by decide

end Export
end SignalKBackup
