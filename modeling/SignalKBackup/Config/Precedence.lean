import Mathlib.Data.Char
import Mathlib.Data.List.Lex
import Mathlib.Data.Prod.Lex
import Mathlib.Data.Sum.Order
import Mathlib.Order.WithBot
import SignalKBackup.Config.Semver

/-!
# Precedence — the version order is a linear order

`Parts.precedence` reads the parts of a concrete tag into a lexicographic order: the three numbers,
then the prerelease identifiers, with no prerelease at the top, numbers below words, and a longer
list above its own beginning.  `compareSemver` decides that order on concrete tags, so it is
transitive and total there.
-/

namespace SignalKBackup
namespace Config

open Lib

/-! ## The order -/

/-- An identifier of digits only is a number. -/
def Numeric (x : List Char) : Bool :=
  !x.isEmpty && x.all isDigit

abbrev IdentRank := ℕ ⊕ₗ List Char

def identRank (x : List Char) : IdentRank :=
  if Numeric x then toLex (Sum.inl (Number x)) else toLex (Sum.inr x)

abbrev Precedence := (ℕ ×ₗ ℕ ×ₗ ℕ) ×ₗ WithTop (List IdentRank)

def preRank (ids : List (List Char)) : WithTop (List IdentRank) :=
  if ids = [] then ⊤ else ((ids.map identRank : List IdentRank) : WithTop (List IdentRank))

def Parts.precedence (p : Parts) : Precedence :=
  toLex (toLex (Number p.major, toLex (Number p.minor, Number p.patch)), preRank p.pre)

/-! ## The comparison decides it -/

theorem numeric_num {x : List Char} (h : PRE_ID.Matches x) (hnum : Numeric x = true) :
    NUM.Matches x := by
  simp only [Numeric, Bool.and_eq_true, List.all_eq_true] at hnum
  exact num_of_preId h hnum.2

theorem identRank_injective {x y : List Char} (hx : PRE_ID.Matches x) (hy : PRE_ID.Matches y)
    (h : identRank x = identRank y) : x = y := by
  unfold identRank at h
  split at h
  case isTrue hxnum =>
      split at h
      case isTrue hynum =>
          have hnumber : Number x = Number y := Sum.inl.inj (toLex.injective h)
          exact number_injective (numeric_num hx hxnum) (numeric_num hy hynum) hnumber
      case isFalse =>
          cases toLex.injective h
  case isFalse =>
      split at h
      case isTrue =>
          cases toLex.injective h
      case isFalse =>
          exact Sum.inr.inj (toLex.injective h)

/-- At the first difference, numbers compare as numbers and stay below words. -/
theorem compareParts_head {x y : List Char} {xs ys : List (List Char)} (hxy : x ≠ y) :
    compareParts (x :: xs) (y :: ys) < 0 ↔ identRank x < identRank y := by
  have hcompare : compareParts (x :: xs) (y :: ys) =
      if Numeric x && Numeric y then (Number x : ℤ) - Number y
      else if Numeric x then -1 else if Numeric y then 1 else if x < y then -1 else 1 := by
    simp only [compareParts, hxy, if_false, Numeric]
    congr
  rw [hcompare]
  unfold identRank
  cases hx : Numeric x with
  | true =>
      cases hy : Numeric y with
      | true =>
          simp
      | false =>
          simp
  | false =>
      cases hy : Numeric y with
      | true =>
          simp
      | false =>
          simp only [Bool.and_self, Bool.false_eq_true, if_false, Sum.Lex.inr_lt_inr_iff]
          split
          case isTrue hlt =>
              simpa using hlt
          case isFalse hlt =>
              simpa using hlt

theorem compareParts_neg_iff {xs ys : List (List Char)} (hxs : ∀ x ∈ xs, PRE_ID.Matches x)
    (hys : ∀ y ∈ ys, PRE_ID.Matches y) :
    compareParts xs ys < 0 ↔ xs.map identRank < ys.map identRank := by
  induction xs generalizing ys with
  | nil =>
      cases ys with
      | nil =>
          simp [compareParts]
      | cons y ys =>
          simp [compareParts]
  | cons x xs ih =>
      cases ys with
      | nil =>
          simp [compareParts]
      | cons y ys =>
          have hx := hxs x (by simp)
          have hy := hys y (by simp)
          by_cases hxy : x = y
          · subst hxy
            have hys' : ∀ y ∈ ys, PRE_ID.Matches y := fun z hz => hys z (by simp [hz])
            have hrest := ih (fun z hz => hxs z (by simp [hz])) hys'
            have hirrefl : ¬identRank x < identRank x := lt_irrefl _
            simpa [compareParts, List.cons_lt_cons_iff, hirrefl] using hrest
          · have hne : identRank x ≠ identRank y := fun heq => hxy (identRank_injective hx hy heq)
            rw [compareParts_head hxy, List.map_cons, List.map_cons, List.cons_lt_cons_iff]
            simp [hne]

theorem compareCore_neg_iff (a b c a' b' c' : ℕ) :
    compareCore 3 [a, b, c] [a', b', c'] < 0 ↔ a < a' ∨ a = a' ∧ (b < b' ∨ b = b' ∧ c < c') := by
  simp only [compareCore, List.headD_cons, List.tail_cons, bne_iff_ne]
  split
  · omega
  · split
    · omega
    · split
      · omega
      · omega

/-- What `compareSemver` does where the numbers agree. -/
def comparePre (a b : Option (List Char)) : ℤ :=
  if a = b then 0
  else
    match a, b with
    | none, _ => 1
    | _, none => -1
    | some a, some b => comparePrerelease a b

def Parts.prerelease (p : Parts) : Option (List Char) :=
  if p.pre = [] then none else some (['.'].intercalate p.pre)

theorem comparePre_neg_iff (p q : Parts) :
    comparePre p.prerelease q.prerelease < 0 ↔ preRank p.pre < preRank q.pre := by
  unfold Parts.prerelease
  by_cases hp : p.pre = []
  · by_cases hq : q.pre = []
    · simp [hp, hq, comparePre]
    · simp [hp, hq, comparePre, preRank]
  · by_cases hq : q.pre = []
    · simp [hp, hq, comparePre, preRank]
    · have hdecides := compareParts_neg_iff p.pre_ids q.pre_ids
      by_cases heq : ['.'].intercalate p.pre = ['.'].intercalate q.pre
      · have hpre : p.pre = q.pre := by
          rw [← p.splitOn_pre hp, heq, q.splitOn_pre hq]
        simp [hpre, comparePre]
      · simpa [hp, hq, heq, preRank, comparePre, comparePrerelease, p.splitOn_pre hp,
          q.splitOn_pre hq] using hdecides

theorem compareSemver_neg_iff {a b : String} {p q : Parts} (hp : a.toList = p.render)
    (hq : b.toList = q.render) : compareSemver a b < 0 ↔ p.precedence < q.precedence := by
  have hless := compareCore_neg_iff (Number p.major) (Number p.minor) (Number p.patch)
    (Number q.major) (Number q.minor) (Number q.patch)
  have hequal := compareCore_three (Number p.major) (Number p.minor) (Number p.patch)
    (Number q.major) (Number q.minor) (Number q.patch)
  have hcompare : compareSemver a b =
      if compareCore 3 [Number p.major, Number p.minor, Number p.patch]
          [Number q.major, Number q.minor, Number q.patch] != 0 then
        compareCore 3 [Number p.major, Number p.minor, Number p.patch]
          [Number q.major, Number q.minor, Number q.patch]
      else comparePre p.prerelease q.prerelease := by
    rw [compareSemver, splitPrerelease_render hp, splitPrerelease_render hq]
    rfl
  simp only [hcompare, Parts.precedence, Prod.Lex.toLex_lt_toLex, toLex_inj, Prod.mk.injEq]
  by_cases hcore : compareCore 3 [Number p.major, Number p.minor, Number p.patch]
      [Number q.major, Number q.minor, Number q.patch] = 0
  · rcases hequal.1 hcore with ⟨hmajor, hminor, hpatch⟩
    rw [hcore]
    simp [hmajor, hminor, hpatch, comparePre_neg_iff]
  · have hne := mt hequal.2 hcore
    simp only [bne_iff_ne, ne_eq, hcore, not_false_eq_true, if_true, hless]
    constructor
    · exact Or.inl
    · rintro (hlt | ⟨heq, _⟩)
      · exact hlt
      · exact absurd heq hne

/-! ## Laws of the comparison -/

variable {a b c : String}

theorem compareSemver_nonneg_iff {p q : Parts} (hp : a.toList = p.render)
    (hq : b.toList = q.render) : 0 ≤ compareSemver a b ↔ q.precedence ≤ p.precedence := by
  rw [← not_lt, ← not_lt]
  exact not_congr (compareSemver_neg_iff hp hq)

theorem compareSemver_trans (ha : isConcreteSemver a = true) (hb : isConcreteSemver b = true)
    (hc : isConcreteSemver c = true) (hab : 0 ≤ compareSemver a b) (hbc : 0 ≤ compareSemver b c) :
    0 ≤ compareSemver a c := by
  rcases isConcreteSemver_iff.1 ha with ⟨p, hp⟩
  rcases isConcreteSemver_iff.1 hb with ⟨q, hq⟩
  rcases isConcreteSemver_iff.1 hc with ⟨r, hr⟩
  have hqp := (compareSemver_nonneg_iff hp hq).1 hab
  have hrq := (compareSemver_nonneg_iff hq hr).1 hbc
  exact (compareSemver_nonneg_iff hp hr).2 (hrq.trans hqp)

theorem compareSemver_total (ha : isConcreteSemver a = true) (hb : isConcreteSemver b = true) :
    0 ≤ compareSemver a b ∨ 0 ≤ compareSemver b a := by
  rcases isConcreteSemver_iff.1 ha with ⟨p, hp⟩
  rcases isConcreteSemver_iff.1 hb with ⟨q, hq⟩
  rw [compareSemver_nonneg_iff hp hq, compareSemver_nonneg_iff hq hp]
  exact le_total _ _

end Config
end SignalKBackup
