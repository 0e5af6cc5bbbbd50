import SignalKBackup.Config.ImageTag

/-!
# Semver — what a concrete tag is made of

`Parts` holds the identifiers of a concrete tag together with the matches that make it one, and
`isConcreteSemver_iff` says that the concrete tags are the renderings of `Parts`.  Numeric
identifiers have no leading zeros, so reading a number loses nothing (`number_injective`), and
`compareSemver` is 0 on equal tags only (`compareSemver_eq_zero`).
-/

namespace SignalKBackup
namespace Config

open Lib

/-! ## Characters and numbers -/

theorem isDigit_iff {c : Char} : isDigit c = true ↔ 48 ≤ c.toNat ∧ c.toNat ≤ 57 := by
  simp [isDigit, Char.le_def, UInt32.le_iff_toNat_le]

theorem matches_num {x : List Char} :
    NUM.Matches x ↔
      x = ['0'] ∨ ∃ c y, x = c :: y ∧ ('1' ≤ c ∧ c ≤ '9') ∧ ∀ d ∈ y, isDigit d = true := by
  simp only [NUM, Regex.matches_alt, Regex.matches_letter, Regex.matches_seq, Regex.matches_cls,
    Regex.matches_star_cls, Bool.and_eq_true, decide_eq_true_eq]
  constructor
  · rintro (h | ⟨y, z, rfl, ⟨c, hc, rfl⟩, hz⟩)
    · exact Or.inl h
    · exact Or.inr ⟨c, z, rfl, hc, hz⟩
  · rintro (h | ⟨c, y, rfl, hc, hy⟩)
    · exact Or.inl h
    · exact Or.inr ⟨[c], y, rfl, ⟨c, hc, rfl⟩, hy⟩

theorem nonzero_digit {c : Char} (h : '1' ≤ c ∧ c ≤ '9') : 49 ≤ c.toNat ∧ c.toNat ≤ 57 := by
  simpa [Char.le_def, UInt32.le_iff_toNat_le] using h

theorem num_digits {x : List Char} (h : NUM.Matches x) : ∀ c ∈ x, isDigit c = true := by
  rcases matches_num.1 h with rfl | ⟨c, y, rfl, hc, hy⟩
  · simp [isDigit]
  · intro d hd
    rcases List.mem_cons.1 hd with rfl | hmem
    · have hrange := nonzero_digit hc
      exact isDigit_iff.2 ⟨by omega, hrange.2⟩
    · exact hy d hmem

/-- The digits of a number that does not begin with 0, the last digit first. -/
theorem digits_number {c : Char} {y : List Char} (hc : '1' ≤ c ∧ c ≤ '9')
    (hy : ∀ d ∈ y, isDigit d = true) :
    Nat.digits 10 (Number (c :: y)) = (c :: y).reverse.map fun d => d.toNat - '0'.toNat := by
  have hrange := nonzero_digit hc
  refine Nat.digits_ofDigits 10 (by decide) _ ?_ ?_
  · intro n hn
    rcases List.mem_map.1 hn with ⟨d, hd, rfl⟩
    have hdigit : isDigit d = true := by
      exact num_digits (matches_num.2 (Or.inr ⟨c, y, rfl, hc, hy⟩)) d (List.mem_reverse.1 hd)
    have hle := (isDigit_iff.1 hdigit).2
    show d.toNat - 48 < 10
    omega
  · intro _
    have hlast : c.toNat - 48 ≠ 0 := by omega
    simpa using hlast

/-- Equal digit values come from equal digits. -/
theorem digits_injective {x y : List Char} (hx : ∀ c ∈ x, isDigit c = true)
    (hy : ∀ c ∈ y, isDigit c = true)
    (h : (x.map fun d => d.toNat - '0'.toNat) = y.map fun d => d.toNat - '0'.toNat) : x = y := by
  induction x generalizing y with
  | nil =>
      simpa using h
  | cons c x ih =>
      cases y with
      | nil =>
          simp at h
      | cons d y =>
          simp only [List.map_cons, List.cons.injEq] at h
          have hc := (isDigit_iff.1 (hx c (by simp))).1
          have hd := (isDigit_iff.1 (hy d (by simp))).1
          have hval : c.toNat - 48 = d.toNat - 48 := h.1
          have hcd : c = d := Char.toNat_inj.1 (by omega)
          have hrest := ih (fun e he => hx e (by simp [he])) (fun e he => hy e (by simp [he])) h.2
          rw [hcd, hrest]

theorem number_injective {x y : List Char} (hx : NUM.Matches x) (hy : NUM.Matches y)
    (h : Number x = Number y) : x = y := by
  -- `0` is the one number without a digit above 0; the others are read back from their value
  rcases matches_num.1 hx with rfl | ⟨c, x', rfl, hc, hx'⟩
  · rcases matches_num.1 hy with rfl | ⟨d, y', rfl, hd, hy'⟩
    · rfl
    · have hdigits := digits_number hd hy'
      rw [← h] at hdigits
      simp [Number] at hdigits
  · rcases matches_num.1 hy with rfl | ⟨d, y', rfl, hd, hy'⟩
    · have hdigits := digits_number hc hx'
      rw [h] at hdigits
      simp [Number] at hdigits
    · have hdigits : ((c :: x').reverse.map fun d => d.toNat - '0'.toNat) =
          (d :: y').reverse.map fun d => d.toNat - '0'.toNat := by
        rw [← digits_number hc hx', ← digits_number hd hy', h]
      rw [List.map_reverse, List.map_reverse, List.reverse_inj] at hdigits
      exact digits_injective (num_digits hx) (num_digits hy) hdigits

/-! ## Prerelease identifiers -/

theorem matches_preId {x : List Char} :
    PRE_ID.Matches x ↔
      NUM.Matches x ∨ ∃ y c z, x = y ++ c :: z ∧ (∀ d ∈ y, isDigit d = true) ∧
        (isLetter c || c == '-') = true ∧
          ∀ d ∈ z, (isLetter d || isDigit d || d == '-') = true := by
  simp only [PRE_ID, Regex.matches_alt, Regex.matches_seq, Regex.matches_cls,
    Regex.matches_star_cls]
  constructor
  · rintro (h | ⟨y, _, rfl, hy, _, z, rfl, ⟨c, hc, rfl⟩, hz⟩)
    · exact Or.inl h
    · exact Or.inr ⟨y, c, z, rfl, hy, hc, hz⟩
  · rintro (h | ⟨y, c, z, rfl, hy, hc, hz⟩)
    · exact Or.inl h
    · exact Or.inr ⟨y, c :: z, rfl, hy, [c], z, rfl, ⟨c, hc, rfl⟩, hz⟩

theorem dot_notMem_num {x : List Char} (h : NUM.Matches x) : '.' ∉ x := by
  intro hmem
  exact absurd (num_digits h '.' hmem) (by decide)

theorem dash_notMem_num {x : List Char} (h : NUM.Matches x) : '-' ∉ x := by
  intro hmem
  exact absurd (num_digits h '-' hmem) (by decide)

theorem dot_notMem_preId {x : List Char} (h : PRE_ID.Matches x) : '.' ∉ x := by
  rcases matches_preId.1 h with hnum | ⟨y, c, z, rfl, hy, hc, hz⟩
  · exact dot_notMem_num hnum
  · intro hmem
    rcases List.mem_append.1 hmem with hin | hin
    · exact absurd (hy '.' hin) (by decide)
    · rcases List.mem_cons.1 hin with rfl | hin
      · exact absurd hc (by decide)
      · exact absurd (hz '.' hin) (by decide)

theorem isDigit_eq_false {c : Char} (h : (isLetter c || c == '-') = true) : isDigit c = false := by
  cases hd : isDigit c with
  | false =>
      rfl
  | true =>
      -- the ranges of digits and letters do not meet
      have hrange := isDigit_iff.1 hd
      have hclass : ((97 ≤ c.toNat ∧ c.toNat ≤ 122) ∨ (65 ≤ c.toNat ∧ c.toNat ≤ 90)) ∨ c = '-' := by
        simpa [isLetter, Char.le_def, UInt32.le_iff_toNat_le] using h
      rcases hclass with hletter | rfl
      · omega
      · exact absurd hd (by decide)

/-- An identifier of digits only has no leading zeros. -/
theorem num_of_preId {x : List Char} (h : PRE_ID.Matches x) (hd : ∀ c ∈ x, isDigit c = true) :
    NUM.Matches x := by
  rcases matches_preId.1 h with hnum | ⟨y, c, z, rfl, _, hc, _⟩
  · exact hnum
  · have hdigit := hd c (by simp)
    rw [isDigit_eq_false hc] at hdigit
    cases hdigit

/-! ## The parts of a concrete tag -/

/-- The identifiers of a concrete tag; a final release has no prerelease identifiers. -/
structure Parts where
  major : List Char
  minor : List Char
  patch : List Char
  pre : List (List Char)
  major_num : NUM.Matches major
  minor_num : NUM.Matches minor
  patch_num : NUM.Matches patch
  pre_ids : ∀ x ∈ pre, PRE_ID.Matches x

namespace Parts

def core (p : Parts) : List Char :=
  ['.'].intercalate [p.major, p.minor, p.patch]

def render (p : Parts) : List Char :=
  p.core ++ if p.pre = [] then [] else '-' :: ['.'].intercalate p.pre

theorem core_eq (p : Parts) : p.core = p.major ++ '.' :: (p.minor ++ '.' :: p.patch) := by
  simp [core, List.intercalate]

theorem dash_notMem_core (p : Parts) : '-' ∉ p.core := by
  have hmajor := dash_notMem_num p.major_num
  have hminor := dash_notMem_num p.minor_num
  have hpatch := dash_notMem_num p.patch_num
  simp [core_eq, hmajor, hminor, hpatch]

theorem splitOn_core (p : Parts) : p.core.splitOn '.' = [p.major, p.minor, p.patch] := by
  refine List.splitOn_intercalate '.' ?_ (by simp)
  intro x hx
  rcases (by simpa using hx : x = p.major ∨ x = p.minor ∨ x = p.patch) with rfl | rfl | rfl
  · exact dot_notMem_num p.major_num
  · exact dot_notMem_num p.minor_num
  · exact dot_notMem_num p.patch_num

theorem splitOn_pre (p : Parts) (h : p.pre ≠ []) :
    (['.'].intercalate p.pre).splitOn '.' = p.pre :=
  List.splitOn_intercalate '.' (fun x hx => dot_notMem_preId (p.pre_ids x hx)) h

end Parts

/-- Identifiers separated by dots, as the pattern writes them. -/
theorem matches_dotted {x : List Char} :
    (Regex.star (.seq (.letter '.') PRE_ID)).Matches x ↔
      ∃ ids : List (List Char), x = (ids.map fun y => '.' :: y).flatten ∧
        ∀ y ∈ ids, PRE_ID.Matches y := by
  rw [Regex.matches_star]
  constructor
  · rintro ⟨ys, rfl, hys⟩
    induction ys with
    | nil =>
        exact ⟨[], rfl, by simp⟩
    | cons y ys ih =>
        rcases Regex.matches_seq.1 (hys y (by simp)) with ⟨dot, z, rfl, hdot, hz⟩
        rcases ih fun w hw => hys w (by simp [hw]) with ⟨ids, hids, hall⟩
        refine ⟨z :: ids, ?_, ?_⟩
        · rw [Regex.matches_letter.1 hdot]
          simp [hids]
        · simpa using ⟨hz, hall⟩
  · rintro ⟨ids, rfl, hids⟩
    refine ⟨_, rfl, ?_⟩
    intro y hy
    rcases List.mem_map.1 hy with ⟨z, hz, rfl⟩
    exact Regex.matches_seq.2 ⟨['.'], z, rfl, Regex.matches_letter.2 rfl, hids z hz⟩

theorem intercalate_cons_dotted (x : List Char) (ids : List (List Char)) :
    ['.'].intercalate (x :: ids) = x ++ (ids.map fun y => '.' :: y).flatten := by
  induction ids generalizing x with
  | nil =>
      simp [List.intercalate]
  | cons y ids ih =>
      rw [List.intercalate_cons_cons, ih y]
      simp

theorem isConcreteSemver_iff {tag : String} :
    isConcreteSemver tag = true ↔ ∃ p : Parts, tag.toList = p.render := by
  rw [isConcreteSemver, Regex.test_iff]
  constructor
  · intro h
    -- the match is taken apart along the pattern
    simp only [SEMVER_PATTERN, Regex.matches_seq, Regex.matches_letter, Regex.matches_opt] at h
    rcases h with ⟨x, _, htag, hx, _, _, rfl, rfl, y, _, rfl, hy, _, _, rfl, rfl, z, s, rfl, hz, hs⟩
    rcases hs with ⟨_, _, rfl, rfl, w, t, rfl, hw, ht⟩ | rfl
    · rcases matches_dotted.1 ht with ⟨ids, rfl, hids⟩
      refine ⟨⟨x, y, z, w :: ids, hx, hy, hz, by simpa using ⟨hw, hids⟩⟩, ?_⟩
      rw [htag]
      simp [Parts.render, Parts.core_eq, intercalate_cons_dotted]
    · refine ⟨⟨x, y, z, [], hx, hy, hz, by simp⟩, ?_⟩
      rw [htag]
      simp [Parts.render, Parts.core_eq]
  · rintro ⟨p, hp⟩
    rw [hp]
    -- and put together in the same order
    have hpre : (Regex.opt (.seq (.letter '-')
        (.seq PRE_ID (.star (.seq (.letter '.') PRE_ID))))).Matches
          (if p.pre = [] then [] else '-' :: ['.'].intercalate p.pre) := by
      rw [Regex.matches_opt]
      cases hids : p.pre with
      | nil =>
          exact Or.inr rfl
      | cons w ids =>
          have hw : ∀ v ∈ w :: ids, PRE_ID.Matches v := hids ▸ p.pre_ids
          have hrest := matches_dotted.2 ⟨ids, rfl, fun v hv => hw v (by simp [hv])⟩
          have hseq := Regex.Matches.seq (hw w (by simp)) hrest
          rw [← intercalate_cons_dotted] at hseq
          exact Or.inl (by simpa using Regex.Matches.seq (Regex.matches_letter.2 rfl) hseq)
    have hdot : (Regex.letter '.').Matches ['.'] := Regex.matches_letter.2 rfl
    have hall := Regex.Matches.seq p.major_num (.seq hdot
      (.seq p.minor_num (.seq hdot (.seq p.patch_num hpre))))
    simpa [SEMVER_PATTERN, Parts.render, Parts.core_eq] using hall

/-! ## Splitting and comparing concrete tags -/

theorem splitPrerelease_render {tag : String} {p : Parts} (h : tag.toList = p.render) :
    splitPrerelease tag =
      ([Number p.major, Number p.minor, Number p.patch],
        if p.pre = [] then none else some (['.'].intercalate p.pre)) := by
  have hcore : ∀ c ∈ p.core, (c != '-') = true := by
    intro c hc
    have hne : c ≠ '-' := by
      rintro rfl
      exact p.dash_notMem_core hc
    simpa using hne
  have htake : (tag.toList.takeWhile fun c => c != '-') = p.core := by
    rw [h, Parts.render, List.takeWhile_append_of_pos hcore]
    split <;> simp
  have hdrop : (tag.toList.dropWhile fun c => c != '-') =
      if p.pre = [] then [] else '-' :: ['.'].intercalate p.pre := by
    rw [h, Parts.render, List.dropWhile_append_of_pos hcore]
    split <;> simp
  rw [splitPrerelease, htake, hdrop, p.splitOn_core]
  by_cases hp : p.pre = []
  · simp [hp]
  · simp [hp]

/-- The prerelease loop stops with 0 on equal identifiers only. -/
theorem compareParts_eq_zero {xs ys : List (List Char)} (hxs : ∀ x ∈ xs, PRE_ID.Matches x)
    (hys : ∀ y ∈ ys, PRE_ID.Matches y) (h : compareParts xs ys = 0) : xs = ys := by
  -- along the loop, which goes on only past equal identifiers
  induction xs generalizing ys with
  | nil =>
      cases ys with
      | nil =>
          rfl
      | cons y ys =>
          simp [compareParts] at h
  | cons x xs ih =>
      cases ys with
      | nil =>
          simp [compareParts] at h
      | cons y ys =>
          by_cases hxy : x = y
          · have hrest : compareParts xs ys = 0 := by simpa [compareParts, hxy] using h
            rw [hxy, ih (fun z hz => hxs z (by simp [hz])) (fun z hz => hys z (by simp [hz])) hrest]
          · exfalso
            have hx := hxs x (by simp)
            have hy := hys y (by simp)
            simp only [compareParts, hxy, if_false] at h
            split at h
            · rename_i hnum
              simp only [Bool.and_eq_true, List.all_eq_true] at hnum
              -- both are numbers, which differ when their digits do
              have heq : Number x = Number y := by omega
              exact hxy (number_injective (num_of_preId hx hnum.1.2) (num_of_preId hy hnum.2.2) heq)
            · split at h
              · cases h
              · split at h
                · cases h
                · split at h <;> cases h

theorem compareCore_three (a b c a' b' c' : Nat) :
    compareCore 3 [a, b, c] [a', b', c'] = 0 ↔ a = a' ∧ b = b' ∧ c = c' := by
  simp only [compareCore, List.headD_cons, List.tail_cons, bne_iff_ne]
  constructor
  · intro h
    split at h
    · omega
    · split at h
      · omega
      · split at h
        · omega
        · omega
  · rintro ⟨rfl, rfl, rfl⟩
    simp

/-- Concrete tags that compare as equal are equal. -/
theorem compareSemver_eq_zero {a b : String} (ha : isConcreteSemver a = true)
    (hb : isConcreteSemver b = true) (h : compareSemver a b = 0) : a = b := by
  rcases isConcreteSemver_iff.1 ha with ⟨p, hp⟩
  rcases isConcreteSemver_iff.1 hb with ⟨q, hq⟩
  rw [compareSemver, splitPrerelease_render hp, splitPrerelease_render hq] at h
  dsimp only at h
  -- a difference in the numbers would have been returned
  have hcore : compareCore 3 [Number p.major, Number p.minor, Number p.patch]
      [Number q.major, Number q.minor, Number q.patch] = 0 := by
    by_contra hne
    simp [hne] at h
  rw [hcore] at h
  rcases (compareCore_three _ _ _ _ _ _).1 hcore with ⟨hmajor, hminor, hpatch⟩
  -- with equal numbers the prerelease parts decide
  have hpre : p.pre = q.pre := by
    by_cases hpnil : p.pre = []
    · by_cases hqnil : q.pre = []
      · rw [hpnil, hqnil]
      · simp [hpnil, hqnil] at h
    · by_cases hqnil : q.pre = []
      · simp [hpnil, hqnil] at h
      · by_cases heq : ['.'].intercalate p.pre = ['.'].intercalate q.pre
        · rw [← p.splitOn_pre hpnil, heq, q.splitOn_pre hqnil]
        · have hcmp : comparePrerelease (['.'].intercalate p.pre) (['.'].intercalate q.pre) = 0 := by
            simpa [hpnil, hqnil, heq] using h
          rw [comparePrerelease, p.splitOn_pre hpnil, q.splitOn_pre hqnil] at hcmp
          exact compareParts_eq_zero p.pre_ids q.pre_ids hcmp
  have hrender : p.render = q.render := by
    rw [Parts.render, Parts.render, Parts.core_eq, Parts.core_eq, hpre,
      number_injective p.major_num q.major_num hmajor,
      number_injective p.minor_num q.minor_num hminor,
      number_injective p.patch_num q.patch_num hpatch]
  exact String.ext (hp.trans (hrender.trans hq.symm))

theorem compareSemver_self (a : String) : compareSemver a a = 0 := by
  have hcore : ∀ (n : Nat) (l : List Nat), compareCore n l l = 0 := by
    intro n
    induction n with
    | zero =>
        intro l
        rfl
    | succ n ih =>
        intro l
        simp [compareCore, ih]
  simp [compareSemver, hcore]

end Config
end SignalKBackup
