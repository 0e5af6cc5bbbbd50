import Mathlib.Data.List.Basic

/-!
# Regex — regular expressions with character classes

The anchored regular expressions a program tests its inputs with, over any alphabet.

* `Regex.Matches` says which words an expression matches;
* `Regex.test` decides it letter by letter, by derivatives;
* `Regex.test_iff` connects the two, and the `matches_*` lemmas take a match apart along the
  expression.
-/

namespace SignalKBackup
namespace Lib

universe u

/-- Regular expressions over `α`; a letter is given by a class of letters. -/
inductive Regex (α : Type u) where
  | empty
  | cls (p : α → Bool)
  | seq (r s : Regex α)
  | alt (r s : Regex α)
  | star (r : Regex α)

namespace Regex

variable {α : Type u}

/-! ## Derived forms -/

/-- The letter `a`. -/
def letter [DecidableEq α] (a : α) : Regex α :=
  cls fun b => b == a

/-- `r?` -/
def opt (r : Regex α) : Regex α :=
  alt r empty

/-! ## What an expression matches -/

/-- The words an expression matches. -/
inductive Matches : Regex α → List α → Prop where
  | empty : Matches empty []
  | cls {p : α → Bool} {a : α} : p a = true → Matches (cls p) [a]
  | seq {r s : Regex α} {x y : List α} : Matches r x → Matches s y → Matches (seq r s) (x ++ y)
  | altLeft {r s : Regex α} {x : List α} : Matches r x → Matches (alt r s) x
  | altRight {r s : Regex α} {x : List α} : Matches s x → Matches (alt r s) x
  | starNil {r : Regex α} : Matches (star r) []
  | starCons {r : Regex α} {x y : List α} :
      Matches r x → Matches (star r) y → Matches (star r) (x ++ y)

@[simp] theorem matches_empty {x : List α} : Matches empty x ↔ x = [] := by
  constructor
  · intro h
    cases h
    rfl
  · rintro rfl
    exact .empty

@[simp] theorem matches_cls {p : α → Bool} {x : List α} :
    Matches (cls p) x ↔ ∃ a, p a = true ∧ x = [a] := by
  constructor
  · intro h
    cases h with
    | cls ha =>
        exact ⟨_, ha, rfl⟩
  · rintro ⟨a, ha, rfl⟩
    exact .cls ha

@[simp] theorem matches_letter [DecidableEq α] {a : α} {x : List α} :
    Matches (letter a) x ↔ x = [a] := by
  simp [letter]

theorem matches_seq {r s : Regex α} {x : List α} :
    Matches (seq r s) x ↔ ∃ y z, x = y ++ z ∧ Matches r y ∧ Matches s z := by
  constructor
  · intro h
    cases h with
    | seq hr hs =>
        exact ⟨_, _, rfl, hr, hs⟩
  · rintro ⟨y, z, rfl, hr, hs⟩
    exact .seq hr hs

theorem matches_alt {r s : Regex α} {x : List α} :
    Matches (alt r s) x ↔ Matches r x ∨ Matches s x := by
  constructor
  · intro h
    cases h with
    | altLeft hr =>
        exact Or.inl hr
    | altRight hs =>
        exact Or.inr hs
  · rintro (hr | hs)
    · exact .altLeft hr
    · exact .altRight hs

theorem matches_opt {r : Regex α} {x : List α} : Matches (opt r) x ↔ Matches r x ∨ x = [] := by
  simp [opt, matches_alt]

/-- A match of `r*` is a concatenation of matches of `r`. -/
theorem matches_star {r : Regex α} {x : List α} :
    Matches (star r) x ↔ ∃ ys : List (List α), x = ys.flatten ∧ ∀ y ∈ ys, Matches r y := by
  constructor
  · intro h
    -- the expression is held fixed while the match is taken apart
    generalize hstar : star r = t at h
    induction h with
    | starNil =>
        exact ⟨[], rfl, by simp⟩
    | @starCons r' y z hy _ _ ih =>
        cases hstar
        rcases ih rfl with ⟨ys, rfl, hys⟩
        refine ⟨y :: ys, rfl, ?_⟩
        simpa using ⟨hy, hys⟩
    | empty => cases hstar
    | cls _ => cases hstar
    | seq _ _ => cases hstar
    | altLeft _ => cases hstar
    | altRight _ => cases hstar
  · rintro ⟨ys, rfl, hys⟩
    induction ys with
    | nil =>
        exact .starNil
    | cons y ys ih =>
        have hrest := ih fun z hz => hys z (by simp [hz])
        exact .starCons (hys y (by simp)) hrest

/-- A match of `r*`, for a class, is a word over that class. -/
theorem matches_star_cls {p : α → Bool} {x : List α} :
    Matches (star (cls p)) x ↔ ∀ a ∈ x, p a = true := by
  constructor
  · intro h
    rcases matches_star.1 h with ⟨ys, rfl, hys⟩
    intro a ha
    rcases List.mem_flatten.1 ha with ⟨y, hy, hay⟩
    rcases matches_cls.1 (hys y hy) with ⟨b, hb, rfl⟩
    simpa [List.mem_singleton.1 hay] using hb
  · intro h
    refine matches_star.2 ⟨x.map fun a => [a], ?_, ?_⟩
    · induction x with
      | nil =>
          rfl
      | cons a x ih =>
          simpa using ih fun b hb => h b (by simp [hb])
    · intro y hy
      rcases List.mem_map.1 hy with ⟨a, ha, rfl⟩
      exact .cls (h a ha)

/-! ## Deciding a match -/

/-- Whether the empty word is matched. -/
def nullable : Regex α → Bool
  | .empty => true
  | .cls _ => false
  | .seq r s => r.nullable && s.nullable
  | .alt r s => r.nullable || s.nullable
  | .star _ => true

/-- What is left to match after the letter `a`; `none` when nothing can match any more. -/
def deriv (a : α) : Regex α → Option (Regex α)
  | .empty => none
  | .cls p => if p a then some .empty else none
  | .seq r s =>
      let left := (deriv a r).map fun r' => .seq r' s
      if r.nullable then
        match left, deriv a s with
        | some x, some y => some (.alt x y)
        | some x, none => some x
        | none, y => y
      else
        left
  | .alt r s =>
      match deriv a r, deriv a s with
      | some x, some y => some (.alt x y)
      | some x, none => some x
      | none, y => y
  | .star r => (deriv a r).map fun r' => .seq r' (.star r)

/-- Whether the expression matches the whole word. -/
def test (r : Regex α) : List α → Bool
  | [] => r.nullable
  | a :: x =>
      match deriv a r with
      | some r' => r'.test x
      | none => false

theorem nullable_iff {r : Regex α} : r.nullable = true ↔ Matches r [] := by
  induction r with
  | empty =>
      simp [nullable]
  | cls p =>
      simp [nullable]
  | seq r s ihr ihs =>
      simp only [nullable, Bool.and_eq_true, ihr, ihs, matches_seq]
      constructor
      · rintro ⟨hr, hs⟩
        exact ⟨[], [], rfl, hr, hs⟩
      · rintro ⟨y, z, hyz, hr, hs⟩
        rcases List.append_eq_nil_iff.1 hyz.symm with ⟨rfl, rfl⟩
        exact ⟨hr, hs⟩
  | alt r s ihr ihs =>
      simp [nullable, ihr, ihs, matches_alt]
  | star r _ =>
      simpa [nullable] using Matches.starNil

/-- The letter `a` in front of a sequence belongs to its first part, unless that part is empty. -/
theorem matches_seq_cons {r s : Regex α} {a : α} {x : List α} :
    Matches (seq r s) (a :: x) ↔
      (∃ y z, x = y ++ z ∧ Matches r (a :: y) ∧ Matches s z) ∨
        (Matches r [] ∧ Matches s (a :: x)) := by
  rw [matches_seq]
  constructor
  · rintro ⟨y, z, hyz, hr, hs⟩
    cases y with
    | nil =>
        rw [List.nil_append] at hyz
        exact Or.inr ⟨hr, hyz ▸ hs⟩
    | cons b y =>
        rcases List.cons_eq_cons.1 hyz with ⟨rfl, rfl⟩
        exact Or.inl ⟨y, z, rfl, hr, hs⟩
  · rintro (⟨y, z, rfl, hr, hs⟩ | ⟨hr, hs⟩)
    · exact ⟨a :: y, z, rfl, hr, hs⟩
    · exact ⟨[], a :: x, rfl, hr, hs⟩

theorem matches_star_cons {r : Regex α} {a : α} {x : List α} :
    Matches (star r) (a :: x) ↔ ∃ y z, x = y ++ z ∧ Matches r (a :: y) ∧ Matches (star r) z := by
  constructor
  · intro h
    rcases matches_star.1 h with ⟨ys, hys, hall⟩
    -- empty matches in front of the letter are skipped
    induction ys with
    | nil =>
        cases hys
    | cons y ys ih =>
        cases y with
        | nil =>
            exact ih hys fun z hz => hall z (by simp [hz])
        | cons b y =>
            rcases List.cons_eq_cons.1 hys with ⟨rfl, rfl⟩
            have hrest : ∀ z ∈ ys, Matches r z := fun z hz => hall z (by simp [hz])
            exact ⟨y, ys.flatten, rfl, hall _ (by simp), matches_star.2 ⟨ys, rfl, hrest⟩⟩
  · rintro ⟨y, z, rfl, hr, hs⟩
    exact .starCons hr hs

/-- The derivative of an expression, when there is one, matches what may follow the letter. -/
theorem deriv_iff {r : Regex α} {a : α} {x : List α} :
    (∃ r', deriv a r = some r' ∧ Matches r' x) ↔ Matches r (a :: x) := by
  induction r generalizing x with
  | empty =>
      simp [deriv]
  | cls p =>
      by_cases hp : p a = true
      · simp [deriv, hp]
      · simp [deriv, hp]
  | seq r s ihr ihs =>
      -- the letter goes into the first part
      have hleft : (∃ r', deriv a r = some r' ∧ Matches (seq r' s) x) ↔
          ∃ y z, x = y ++ z ∧ Matches r (a :: y) ∧ Matches s z := by
        constructor
        · rintro ⟨r', hr', hm⟩
          rcases matches_seq.1 hm with ⟨y, z, rfl, hy, hz⟩
          exact ⟨y, z, rfl, ihr.1 ⟨r', hr', hy⟩, hz⟩
        · rintro ⟨y, z, rfl, hy, hz⟩
          rcases ihr.2 hy with ⟨r', hr', hm⟩
          exact ⟨r', hr', .seq hm hz⟩
      rw [matches_seq_cons, ← hleft, ← ihs, ← nullable_iff]
      -- an empty first part lets the letter go into the second
      by_cases hn : r.nullable = true
      · cases hr : deriv a r <;> cases hs : deriv a s <;> simp [deriv, hn, hr, hs, matches_alt]
      · cases hr : deriv a r <;> simp [deriv, hn, hr]
  | alt r s ihr ihs =>
      rw [matches_alt, ← ihr, ← ihs]
      cases hr : deriv a r <;> cases hs : deriv a s <;> simp [deriv, hr, hs, matches_alt]
  | star r ihr =>
      rw [matches_star_cons]
      constructor
      · rintro ⟨t, ht, hm⟩
        rcases Option.map_eq_some_iff.1 ht with ⟨r', hr', rfl⟩
        rcases matches_seq.1 hm with ⟨y, z, rfl, hy, hz⟩
        exact ⟨y, z, rfl, ihr.1 ⟨r', hr', hy⟩, hz⟩
      · rintro ⟨y, z, rfl, hy, hz⟩
        rcases ihr.2 hy with ⟨r', hr', hm⟩
        exact ⟨.seq r' (.star r), by simp [deriv, hr'], .seq hm hz⟩

theorem test_iff {r : Regex α} {x : List α} : r.test x = true ↔ Matches r x := by
  induction x generalizing r with
  | nil =>
      exact nullable_iff
  | cons a x ih =>
      rw [← deriv_iff]
      cases hr : deriv a r with
      | none =>
          simp [test, hr]
      | some r' =>
          simp [test, hr, ih]

end Regex

end Lib
end SignalKBackup
