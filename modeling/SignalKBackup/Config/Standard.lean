import Mathlib.Data.List.TakeWhile
import SignalKBackup.Config.Precedence

/-!
# Standard — SemVer 2.0.0, and that the comparison follows it

The grammar and the precedence rules of SemVer 2.0.0 (without build metadata), stated on versions
made of numbers and words.  The concrete tags are the texts of these versions
(`isConcreteSemver_iff_text`), and `compareSemver` has the sign of their precedence.
-/

namespace SignalKBackup
namespace Config

open Lib

/-! ## The grammar -/

/-- Letters, digits and dashes, not all of them digits. -/
def Alphanumeric (x : List Char) : Prop :=
  (∀ c ∈ x, (isLetter c || isDigit c || c == '-') = true) ∧ ∃ c ∈ x, isDigit c = false

inductive Identifier
  | numeric (n : ℕ)
  | alphanumeric (x : List Char) (h : Alphanumeric x)

structure Version where
  major : ℕ
  minor : ℕ
  patch : ℕ
  pre : List Identifier

def Identifier.text : Identifier → List Char
  | .numeric n => Nat.toDigits 10 n
  | .alphanumeric x _ => x

namespace Version

def coreText (v : Version) : List Char :=
  ['.'].intercalate [Nat.toDigits 10 v.major, Nat.toDigits 10 v.minor, Nat.toDigits 10 v.patch]

def preText (v : Version) : List Char :=
  ['.'].intercalate (v.pre.map Identifier.text)

def text (v : Version) : List Char :=
  v.coreText ++ if v.pre = [] then [] else '-' :: v.preText

end Version

/-! ## Precedence -/

def Identifier.Lower : Identifier → Identifier → Prop
  | .numeric m, .numeric n => m < n
  | .numeric _, .alphanumeric _ _ => True
  | .alphanumeric _ _, .numeric _ => False
  | .alphanumeric x _, .alphanumeric y _ => x < y

/-- From left to right; with all of them equal, the shorter list is lower. -/
inductive IdentifiersLower : List Identifier → List Identifier → Prop
  | shorter {y : Identifier} {ys : List Identifier} : IdentifiersLower [] (y :: ys)
  | first {x y : Identifier} {xs ys : List Identifier} :
      x.Lower y → IdentifiersLower (x :: xs) (y :: ys)
  | rest {x : Identifier} {xs ys : List Identifier} :
      IdentifiersLower xs ys → IdentifiersLower (x :: xs) (x :: ys)

def Version.SameCore (v w : Version) : Prop :=
  v.major = w.major ∧ v.minor = w.minor ∧ v.patch = w.patch

/-- The version `v` has a lower precedence than `w`. -/
inductive Version.Lower (v w : Version) : Prop
  | major : v.major < w.major → v.Lower w
  | minor : v.major = w.major → v.minor < w.minor → v.Lower w
  | patch : v.major = w.major → v.minor = w.minor → v.patch < w.patch → v.Lower w
  | release : v.SameCore w → v.pre ≠ [] → w.pre = [] → v.Lower w
  | prerelease :
      v.SameCore w → v.pre ≠ [] → w.pre ≠ [] → IdentifiersLower v.pre w.pre → v.Lower w

/-! ## Numbers and words as the pattern matches them -/

theorem number_eq (x : List Char) : Number x = Nat.ofDigitChars 10 x 0 := by
  -- from the last digit on, as `Number` reads them
  induction x using List.reverseRecOn with
  | nil =>
      rfl
  | append_singleton x c ih =>
      have hlast : Number (x ++ [c]) = (c.toNat - '0'.toNat) + 10 * Number x := by
        simp [Number, Nat.ofDigits_cons]
      rw [hlast, ih, Nat.ofDigitChars_append, Nat.ofDigitChars_cons, Nat.ofDigitChars_nil,
        Nat.add_comm]

theorem number_toDigits (n : ℕ) : Number (Nat.toDigits 10 n) = n := by
  rw [number_eq, Nat.ofDigitChars_ten_toDigits]

theorem digit_range {n : ℕ} (h : n < 10) :
    isDigit n.digitChar = true ∧ (n ≠ 0 → '1' ≤ n.digitChar ∧ n.digitChar ≤ '9') := by
  have hcode := Nat.toNat_digitChar_of_lt_ten h
  constructor
  · rw [isDigit_iff]
    omega
  · intro hpos
    simp only [Char.le_def, UInt32.le_iff_toNat_le]
    have hnine : n.digitChar.val.toNat = 48 + n := hcode
    rw [hnine]
    constructor
    · show 49 ≤ 48 + n
      omega
    · show 48 + n ≤ 57
      omega

/-- Decimal notation has no leading zeros. -/
theorem num_toDigits (n : ℕ) : NUM.Matches (Nat.toDigits 10 n) := by
  rw [matches_num]
  -- the last digit is taken off until one is left
  induction n using Nat.strongRecOn with
  | ind n ih =>
      by_cases hsmall : n < 10
      · rw [Nat.toDigits_of_lt_base hsmall]
        by_cases hzero : n = 0
        · exact Or.inl (by rw [hzero]; rfl)
        · exact Or.inr ⟨n.digitChar, [], rfl, (digit_range hsmall).2 hzero, by simp⟩
      · have hlast := (digit_range (Nat.mod_lt n (by decide : 0 < 10))).1
        rw [Nat.toDigits_of_base_le (by decide) (by omega)]
        rcases ih (n / 10) (by omega) with hzero | ⟨c, y, hdigits, hc, hy⟩
        · -- a quotient of 0 would leave one digit
          have hvalue := congrArg Number hzero
          rw [number_toDigits] at hvalue
          have hnil : Number ['0'] = 0 := rfl
          omega
        · refine Or.inr ⟨c, y ++ [(n % 10).digitChar], by rw [hdigits]; rfl, hc, ?_⟩
          intro d hd
          rcases List.mem_append.1 hd with hd | hd
          · exact hy d hd
          · rw [List.mem_singleton.1 hd]
            exact hlast

/-- A number of the pattern is the notation of its value. -/
theorem toDigits_number {x : List Char} (h : NUM.Matches x) : Nat.toDigits 10 (Number x) = x :=
  number_injective (num_toDigits _) h (number_toDigits _)

/-- The first character that is no digit splits a word in the way of the pattern. -/
theorem preId_of_alphanumeric {x : List Char} (h : Alphanumeric x) : PRE_ID.Matches x := by
  rcases h with ⟨hall, d, hd, hnot⟩
  have hrest : x.dropWhile isDigit ≠ [] := by
    intro hnil
    have hdigits := List.dropWhile_eq_nil_iff.1 hnil d hd
    rw [hnot] at hdigits
    cases hdigits
  obtain ⟨c, z, hcz⟩ := List.exists_cons_of_ne_nil hrest
  have hx : x = x.takeWhile isDigit ++ c :: z := by
    rw [← hcz, List.takeWhile_append_dropWhile]
  have hc : isDigit c = false := by
    have hhead := List.head_dropWhile_not isDigit hrest
    simpa [hcz] using hhead
  have hchar : ∀ e ∈ c :: z, (isLetter e || isDigit e || e == '-') = true := by
    intro e he
    refine hall e ?_
    rw [hx]
    exact List.mem_append_right _ he
  refine matches_preId.2 (Or.inr ⟨x.takeWhile isDigit, c, z, hx, ?_, ?_, ?_⟩)
  · intro e he
    exact List.mem_takeWhile_imp he
  · simpa [hc] using hchar c (by simp)
  · intro e he
    exact hchar e (by simp [he])

/-- The identifiers that are not numbers are the alphanumeric ones. -/
theorem alphanumeric_iff {x : List Char} :
    Alphanumeric x ↔ PRE_ID.Matches x ∧ Numeric x = false := by
  constructor
  · intro h
    refine ⟨preId_of_alphanumeric h, ?_⟩
    rcases h.2 with ⟨d, hd, hnot⟩
    simp only [Numeric, Bool.and_eq_false_iff, List.all_eq_false]
    exact Or.inr ⟨d, hd, by simp [hnot]⟩
  · rintro ⟨hmatch, hnot⟩
    rcases matches_preId.1 hmatch with hnum | ⟨y, c, z, rfl, hy, hc, hz⟩
    · have hdigits := num_digits hnum
      have hne : x ≠ [] := by
        rcases matches_num.1 hnum with rfl | ⟨c, y, rfl, _, _⟩
        · simp
        · simp
      have hyes : Numeric x = true := by
        simp only [Numeric, Bool.and_eq_true, List.all_eq_true]
        exact ⟨by simpa using hne, hdigits⟩
      rw [hyes] at hnot
      cases hnot
    · refine ⟨fun d hd => ?_, c, by simp, isDigit_eq_false hc⟩
      rcases List.mem_append.1 hd with hd | hd
      · simp [hy d hd]
      · rcases List.mem_cons.1 hd with rfl | hd
        · rcases Bool.or_eq_true_iff.1 hc with hletter | hdash
          · simp [hletter]
          · simp [hdash]
        · exact hz d hd

theorem preId_text (i : Identifier) : PRE_ID.Matches i.text := by
  cases i with
  | numeric n =>
      exact matches_preId.2 (Or.inl (num_toDigits n))
  | alphanumeric x h =>
      exact (alphanumeric_iff.1 h).1

/-! ## Versions and the parts of a tag -/

def Version.parts (v : Version) : Parts where
  major := Nat.toDigits 10 v.major
  minor := Nat.toDigits 10 v.minor
  patch := Nat.toDigits 10 v.patch
  pre := v.pre.map Identifier.text
  major_num := num_toDigits _
  minor_num := num_toDigits _
  patch_num := num_toDigits _
  pre_ids := by
    intro x hx
    rcases List.mem_map.1 hx with ⟨i, _, rfl⟩
    exact preId_text i

theorem Version.render_parts (v : Version) : v.parts.render = v.text := by
  simp only [Parts.render, Parts.core, Version.parts, Version.text, Version.coreText,
    Version.preText, List.map_eq_nil_iff]

/-- Every identifier of the pattern is one of the grammar. -/
theorem exists_identifier {x : List Char} (h : PRE_ID.Matches x) :
    ∃ i : Identifier, i.text = x := by
  cases hnum : Numeric x with
  | true =>
      exact ⟨.numeric (Number x), toDigits_number (numeric_num h hnum)⟩
  | false =>
      exact ⟨.alphanumeric x (alphanumeric_iff.2 ⟨h, hnum⟩), rfl⟩

theorem exists_identifiers {xs : List (List Char)} (h : ∀ x ∈ xs, PRE_ID.Matches x) :
    ∃ ids : List Identifier, ids.map Identifier.text = xs := by
  induction xs with
  | nil =>
      exact ⟨[], rfl⟩
  | cons x xs ih =>
      rcases exists_identifier (h x (by simp)) with ⟨i, hi⟩
      rcases ih fun y hy => h y (by simp [hy]) with ⟨ids, hids⟩
      exact ⟨i :: ids, by rw [List.map_cons, hi, hids]⟩

theorem isConcreteSemver_iff_text {tag : String} :
    isConcreteSemver tag = true ↔ ∃ v : Version, tag.toList = v.text := by
  rw [isConcreteSemver_iff]
  constructor
  · rintro ⟨p, hp⟩
    rcases exists_identifiers p.pre_ids with ⟨ids, hids⟩
    refine ⟨⟨Number p.major, Number p.minor, Number p.patch, ids⟩, ?_⟩
    rw [hp, ← Version.render_parts, Parts.render, Parts.render, Parts.core, Parts.core]
    simp only [Version.parts, toDigits_number p.major_num, toDigits_number p.minor_num,
      toDigits_number p.patch_num, hids]
  · rintro ⟨v, hv⟩
    exact ⟨v.parts, by rw [hv, v.render_parts]⟩

/-! ## The order of the comparison is the precedence -/

theorem identRank_text (i : Identifier) :
    identRank i.text =
      match i with
      | .numeric n => toLex (Sum.inl n)
      | .alphanumeric x _ => toLex (Sum.inr x) := by
  cases i with
  | numeric n =>
      have hyes : Numeric (Nat.toDigits 10 n) = true := by
        simp only [Numeric, Bool.and_eq_true, List.all_eq_true]
        exact ⟨by simp, num_digits (num_toDigits n)⟩
      simp [identRank, Identifier.text, hyes, number_toDigits]
  | alphanumeric x h =>
      simp [identRank, Identifier.text, (alphanumeric_iff.1 h).2]

theorem identRank_lt_iff (i j : Identifier) : identRank i.text < identRank j.text ↔ i.Lower j := by
  rw [identRank_text, identRank_text]
  cases i with
  | numeric m =>
      cases j with
      | numeric n =>
          simp [Identifier.Lower]
      | alphanumeric y hy =>
          simp [Identifier.Lower]
  | alphanumeric x hx =>
      cases j with
      | numeric n =>
          simp [Identifier.Lower]
      | alphanumeric y hy =>
          simp [Identifier.Lower]

theorem text_injective {i j : Identifier} (h : i.text = j.text) : i = j := by
  have hrank := identRank_text i
  rw [h, identRank_text j] at hrank
  cases i with
  | numeric m =>
      cases j with
      | numeric n =>
          simpa using hrank.symm
      | alphanumeric y hy =>
          simp at hrank
  | alphanumeric x hx =>
      cases j with
      | numeric n =>
          simp at hrank
      | alphanumeric y hy =>
          simpa using hrank.symm

theorem identifiersLower_iff (xs ys : List Identifier) :
    IdentifiersLower xs ys ↔
      (xs.map Identifier.text).map identRank < (ys.map Identifier.text).map identRank := by
  -- both go from left to right
  induction xs generalizing ys with
  | nil =>
      cases ys with
      | nil =>
          simp only [List.map_nil, lt_self_iff_false, iff_false]
          intro h
          cases h
      | cons y ys =>
          simp only [List.map_nil, List.map_cons, List.nil_lt_cons, iff_true]
          exact .shorter
  | cons x xs ih =>
      cases ys with
      | nil =>
          simp only [List.map_cons, List.map_nil, List.not_lt_nil, iff_false]
          intro h
          cases h
      | cons y ys =>
          simp only [List.map_cons, List.cons_lt_cons_iff, identRank_lt_iff]
          rw [← ih]
          constructor
          · intro h
            cases h with
            | first hlow =>
                exact Or.inl hlow
            | rest hrest =>
                exact Or.inr ⟨rfl, hrest⟩
          · rintro (hlow | ⟨hsame, hrest⟩)
            · exact .first hlow
            · cases text_injective (identRank_injective (preId_text x) (preId_text y) hsame)
              exact .rest hrest

theorem preRank_lt_iff (xs ys : List Identifier) :
    preRank (xs.map Identifier.text) < preRank (ys.map Identifier.text) ↔
      xs ≠ [] ∧ (ys = [] ∨ ys ≠ [] ∧ IdentifiersLower xs ys) := by
  have hlower := identifiersLower_iff xs ys
  unfold preRank
  by_cases hx : xs = []
  · simp [hx]
  · by_cases hy : ys = []
    · simp [hx, hy]
    · simpa [hx, hy] using hlower.symm

theorem precedence_lt_iff (v w : Version) :
    v.parts.precedence < w.parts.precedence ↔ v.Lower w := by
  have hpre : preRank v.parts.pre < preRank w.parts.pre ↔ _ := preRank_lt_iff v.pre w.pre
  simp only [Parts.precedence, Prod.Lex.toLex_lt_toLex, toLex_inj, Prod.mk.injEq, hpre]
  simp only [Version.parts, number_toDigits]
  constructor
  · rintro ((hmajor | ⟨hmajor, hminor | ⟨hminor, hpatch⟩⟩) | ⟨hcore, hne, hrelease | ⟨hne', hids⟩⟩)
    · exact .major hmajor
    · exact .minor hmajor hminor
    · exact .patch hmajor hminor hpatch
    · exact .release hcore hne hrelease
    · exact .prerelease hcore hne hne' hids
  · intro h
    cases h with
    | major hmajor =>
        exact Or.inl (Or.inl hmajor)
    | minor hmajor hminor =>
        exact Or.inl (Or.inr ⟨hmajor, Or.inl hminor⟩)
    | patch hmajor hminor hpatch =>
        exact Or.inl (Or.inr ⟨hmajor, Or.inr ⟨hminor, hpatch⟩⟩)
    | release hcore hne hrelease =>
        exact Or.inr ⟨hcore, hne, Or.inl hrelease⟩
    | prerelease hcore hne hne' hids =>
        exact Or.inr ⟨hcore, hne, Or.inr ⟨hne', hids⟩⟩

/-! ## The laws of the comparison, against the standard -/

theorem compareParts_swap (xs ys : List (List Char)) : compareParts ys xs = -compareParts xs ys := by
  induction xs generalizing ys with
  | nil =>
      cases ys with
      | nil =>
          rfl
      | cons y ys =>
          rfl
  | cons x xs ih =>
      cases ys with
      | nil =>
          rfl
      | cons y ys =>
          by_cases hxy : x = y
          · simp [compareParts, hxy, ih]
          · have hyx : ¬y = x := fun h => hxy h.symm
            simp only [compareParts, hxy, hyx, if_false]
            -- the four cases of numbers and words, the other way round
            by_cases hx : (!x.isEmpty && x.all isDigit) = true
            · by_cases hy : (!y.isEmpty && y.all isDigit) = true
              · simp [hx, hy]
              · simp [hx, hy]
            · by_cases hy : (!y.isEmpty && y.all isDigit) = true
              · simp [hx, hy]
              · rcases lt_or_gt_of_ne hxy with hlt | hlt
                · simp [hx, hy, hlt, hlt.not_gt]
                · simp [hx, hy, hlt, hlt.not_gt]

theorem compareCore_swap (n : ℕ) (xs ys : List ℕ) : compareCore n ys xs = -compareCore n xs ys := by
  induction n generalizing xs ys with
  | zero =>
      rfl
  | succ n ih =>
      simp only [compareCore, bne_iff_ne, ne_eq, ih xs.tail ys.tail]
      split <;> split <;> omega

theorem comparePre_swap (x y : Option (List Char)) : comparePre y x = -comparePre x y := by
  by_cases hxy : x = y
  · simp [comparePre, hxy]
  · have hyx : ¬y = x := fun h => hxy h.symm
    cases x with
    | none =>
        cases y with
        | none =>
            exact absurd rfl hxy
        | some y =>
            simp [comparePre]
    | some x =>
        cases y with
        | none =>
            simp [comparePre]
        | some y =>
            simp only [comparePre, hxy, hyx, if_false]
            exact compareParts_swap _ _

theorem compareSemver_swap (a b : String) : compareSemver b a = -compareSemver a b := by
  have hcompare : ∀ a b : String, compareSemver a b =
      if compareCore 3 (splitPrerelease a).1 (splitPrerelease b).1 != 0 then
        compareCore 3 (splitPrerelease a).1 (splitPrerelease b).1
      else comparePre (splitPrerelease a).2 (splitPrerelease b).2 := by
    intro a b
    rfl
  rw [hcompare, hcompare, compareCore_swap 3 (splitPrerelease a).1,
    comparePre_swap (splitPrerelease a).2]
  simp only [bne_iff_ne, ne_eq, neg_eq_zero]
  split <;> rfl

section Laws

variable {a b c : String}

theorem compareSemver_neg_iff_lower {v w : Version} (hv : a.toList = v.text)
    (hw : b.toList = w.text) : compareSemver a b < 0 ↔ v.Lower w := by
  rw [← v.render_parts] at hv
  rw [← w.render_parts] at hw
  rw [compareSemver_neg_iff hv hw, precedence_lt_iff]

theorem splitPrerelease_text {v : Version} (hv : a.toList = v.text) :
    splitPrerelease a =
        ([v.major, v.minor, v.patch], if v.pre = [] then none else some v.preText) ∧
      (v.pre ≠ [] → v.preText.splitOn '.' = v.pre.map Identifier.text) := by
  have hparts := hv
  rw [← v.render_parts] at hparts
  constructor
  · rw [splitPrerelease_render hparts]
    simp [Version.parts, number_toDigits, Version.preText]
  · intro hne
    exact v.parts.splitOn_pre (by simpa [Version.parts] using hne)

theorem text_ne_nil (i : Identifier) : i.text ≠ [] := by
  cases i with
  | numeric n =>
      simp [Identifier.text]
  | alphanumeric x h =>
      rintro rfl
      rcases h.2 with ⟨c, hc, _⟩
      cases hc

/-- On concrete tags the comparison is the precedence of SemVer 2.0.0, and a total order in which
only equal tags compare as equal; the concrete tags are the versions without build metadata. -/
theorem compareSemver_semver (ha : isConcreteSemver a = true) (hb : isConcreteSemver b = true)
    (hc : isConcreteSemver c = true) :
    (∀ v w : Version, a.toList = v.text → b.toList = w.text →
      (compareSemver a b < 0 ↔ v.Lower w) ∧ (0 < compareSemver a b ↔ w.Lower v)) ∧
    (compareSemver a b = 0 ↔ a = b) ∧
    (compareSemver b a).sign = -(compareSemver a b).sign ∧
    (compareSemver a b ≤ 0 → compareSemver b c ≤ 0 → compareSemver a c ≤ 0) ∧
    (∀ tag : String, isConcreteSemver tag = true ↔ ∃ v : Version, tag.toList = v.text) ∧
    (∀ v : Version, a.toList = v.text →
      splitPrerelease a =
        ([v.major, v.minor, v.patch], if v.pre = [] then none else some v.preText) ∧
      (v.pre ≠ [] → v.preText.splitOn '.' = v.pre.map Identifier.text) ∧
      ∀ x ∈ v.pre.map Identifier.text, x ≠ []) := by
  refine ⟨?_, ?_, ?_, ?_, fun tag => isConcreteSemver_iff_text, ?_⟩
  · intro v w hv hw
    refine ⟨compareSemver_neg_iff_lower hv hw, ?_⟩
    rw [← compareSemver_neg_iff_lower hw hv, compareSemver_swap a b, neg_lt_zero]
  · constructor
    · exact compareSemver_eq_zero ha hb
    · rintro rfl
      exact compareSemver_self a
  · rw [compareSemver_swap a b, Int.sign_neg]
  · intro hab hbc
    have hba : 0 ≤ compareSemver b a := by
      rw [compareSemver_swap a b]
      omega
    have hcb : 0 ≤ compareSemver c b := by
      rw [compareSemver_swap b c]
      omega
    have hca := compareSemver_trans hc hb ha hcb hba
    rw [compareSemver_swap a c] at hca
    omega
  · intro v hv
    rcases splitPrerelease_text hv with ⟨hsplit, hids⟩
    refine ⟨hsplit, hids, fun x hx => ?_⟩
    rcases List.mem_map.1 hx with ⟨i, _, rfl⟩
    exact text_ne_nil i

/-- Two prereleases whose numbers have one and two digits, and their release. -/
theorem compareSemver_semver_beta : compareSemver "1.2.0-beta.2" "1.2.0" ≤ 0 :=
  (compareSemver_semver (a := "1.2.0-beta.2") (b := "1.2.0-beta.11") (c := "1.2.0")
    (by decide) (by decide) (by decide)).2.2.2.1 (by decide) (by decide)

end Laws

end Config
end SignalKBackup
