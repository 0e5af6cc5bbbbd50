import Mathlib.Algebra.GroupWithZero.Nat
import Mathlib.Data.List.Basic

/-!
# Machine — labelled transition functions and their runs

A `Machine` is a partial step function: `step s a` is the state after action `a`, or `none` when
`a` is not enabled in `s`.  Everything nondeterministic (which task runs next, how an awaited
operation settles) is part of the action, so a run is a list of actions and can be evaluated.

* `Machine.run` executes a list of actions;
* `Machine.ReachableUnder C I s` says that `s` is reached from a state of `I` by steps that all
  meet the step condition `C`; `Machine.Reachable` puts no condition on the steps.

The invariant rules below are stated once for `ReachableUnder`; a property of every run is the
special case of the condition that always holds.
-/

namespace SignalKBackup
namespace Lib

universe u v

/-- A transition function on states `σ` labelled by actions `α`. -/
structure Machine (σ : Type u) (α : Type v) where
  step : σ → α → Option σ

namespace Machine

variable {σ : Type u} {α : Type v} (M : Machine σ α)

/-! ## Executing a list of actions -/

/-- The state after a list of actions, if each of them is enabled where it is taken. -/
def run : σ → List α → Option σ
  | s, [] => some s
  | s, a :: as => (M.step s a).bind fun s' => run s' as

@[simp] theorem run_nil (s : σ) : M.run s [] = some s := rfl

theorem run_cons (s : σ) (a : α) (as : List α) :
    M.run s (a :: as) = (M.step s a).bind fun s' => M.run s' as := rfl

theorem run_cons_eq_some {s s' : σ} {a : α} {as : List α} :
    M.run s (a :: as) = some s' ↔ ∃ t, M.step s a = some t ∧ M.run t as = some s' := by
  simp [run_cons, Option.bind_eq_some_iff]

theorem run_append (s : σ) (as bs : List α) :
    M.run s (as ++ bs) = (M.run s as).bind fun s' => M.run s' bs := by
  induction as generalizing s with
  | nil =>
      rfl
  | cons a as ih =>
      cases hstep : M.step s a with
      | none =>
          simp [run_cons, hstep]
      | some s' =>
          simp [run_cons, hstep, ih]

theorem run_concat_eq_some {s s' : σ} {as : List α} {a : α} :
    M.run s (as ++ [a]) = some s' ↔ ∃ t, M.run s as = some t ∧ M.step t a = some s' := by
  simp [run_append, run_cons, Option.bind_eq_some_iff]

/-! ## Reachability by steps that meet a condition -/

/-- States reached from `I` by steps that all meet `C`. -/
inductive ReachableUnder (C : σ → α → Prop) (I : σ → Prop) : σ → Prop where
  | init {s : σ} : I s → ReachableUnder C I s
  | step {s s' : σ} {a : α} :
      ReachableUnder C I s → C s a → M.step s a = some s' → ReachableUnder C I s'

/-- States reached from `I` by any steps. -/
abbrev Reachable (I : σ → Prop) : σ → Prop :=
  M.ReachableUnder (fun _ _ => True) I

/-- Each of the actions meets the condition in the state it is taken in. -/
def Meets (C : σ → α → Prop) : σ → List α → Prop
  | _, [] => True
  | s, a :: as => C s a ∧ ∀ s', M.step s a = some s' → Meets C s' as

variable {M}

/-- Own steps use up a rank: a run with more of them than the rank allows has a step out of `P`. -/
theorem run_leaves {P : σ → Prop} {rank : σ → ℕ} {own credit : α → ℕ} {s s' : σ} {as : List α}
    (hstep : ∀ s a s', P s → M.step s a = some s' → P s' → rank s' + own a ≤ rank s + credit a)
    (hrun : M.run s as = some s') (hP : P s)
    (hmany : rank s + (as.map credit).sum < (as.map own).sum) :
    ∃ before a after t t', as = before ++ a :: after ∧ M.run s before = some t ∧ P t ∧
      M.step t a = some t' ∧ ¬P t' := by
  induction as generalizing s with
  | nil =>
      simp at hmany
  | cons a as ih =>
      rcases (run_cons_eq_some M).1 hrun with ⟨t, ht, hrest⟩
      by_cases hPt : P t
      · have hrank := hstep s a t hP ht hPt
        simp only [List.map_cons, List.sum_cons] at hmany
        rcases ih hrest hPt (by omega) with ⟨before, b, after, u, u', rfl, hu, hPu, hb, hnot⟩
        exact ⟨a :: before, b, after, u, u', rfl, (run_cons_eq_some M).2 ⟨t, ht, hu⟩, hPu, hb, hnot⟩
      · exact ⟨[], a, as, s, t, rfl, rfl, hP, ht, hPt⟩

theorem Meets.of_forall {C : σ → α → Prop} {as : List α} (h : ∀ a ∈ as, ∀ s, C s a) (s : σ) :
    M.Meets C s as := by
  induction as generalizing s with
  | nil =>
      trivial
  | cons a as ih =>
      exact ⟨h a (by simp) s, fun s' _ => ih (fun a' hmem => h a' (by simp [hmem])) s'⟩

instance Meets.decidable (C : σ → α → Prop) [∀ s a, Decidable (C s a)] :
    ∀ s as, Decidable (M.Meets C s as)
  | _, [] => inferInstanceAs (Decidable True)
  | s, a :: as =>
      have (s' : σ) : Decidable (M.Meets C s' as) := Meets.decidable C s' as
      inferInstanceAs (Decidable (C s a ∧ ∀ s' ∈ M.step s a, M.Meets C s' as))

namespace ReachableUnder

variable {C C' : σ → α → Prop} {I : σ → Prop}

/-- The invariant rule: what holds initially and is kept by every step that meets the condition
holds of every state reached. -/
theorem invariant {P : σ → Prop} {s : σ} (h : M.ReachableUnder C I s)
    (hinit : ∀ s, I s → P s)
    (hstep : ∀ s a s', P s → C s a → M.step s a = some s' → P s') : P s := by
  induction h with
  | init hI =>
      exact hinit _ hI
  | step _ hC hs ih =>
      exact hstep _ _ _ ih hC hs

/-- Executing actions that meet the condition in the states they are taken in. -/
theorem run {s s' : σ} {as : List α} (h : M.ReachableUnder C I s) (hC : M.Meets C s as)
    (hrun : M.run s as = some s') : M.ReachableUnder C I s' := by
  induction as generalizing s with
  | nil =>
      cases hrun
      exact h
  | cons a as ih =>
      rcases (run_cons_eq_some M).1 hrun with ⟨t, ht, hrest⟩
      exact ih (h.step hC.1 ht) (hC.2 t ht) hrest

end ReachableUnder

theorem Reachable.step {I : σ → Prop} {s s' : σ} {a : α} (h : M.Reachable I s)
    (hs : M.step s a = some s') : M.Reachable I s' :=
  ReachableUnder.step h trivial hs

/-- Executing actions from a reachable state ends in a reachable state. -/
theorem Reachable.run {I : σ → Prop} {s s' : σ} {as : List α} (h : M.Reachable I s)
    (hrun : M.run s as = some s') : M.Reachable I s' :=
  ReachableUnder.run h (Meets.of_forall (fun _ _ _ => trivial) s) hrun

/-! ## History variables -/

/-- A state with a record of what has happened, which no step reads. -/
structure Watched (σ : Type u) (γ : Type v) where
  state : σ
  record : γ

/-- `M` with a record, which `upd` brings up to date behind every step. -/
def watch {γ : Type v} (M : Machine σ α) (upd : γ → σ → α → σ → γ) : Machine (Watched σ γ) α where
  step w a := (M.step w.state a).map fun s => { state := s, record := upd w.record w.state a s }

theorem watch_step_eq_some {γ : Type v} {upd : γ → σ → α → σ → γ} {w w' : Watched σ γ} {a : α} :
    (M.watch upd).step w a = some w' ↔
      M.step w.state a = some w'.state ∧ w'.record = upd w.record w.state a w'.state := by
  simp only [watch, Option.map_eq_some_iff]
  constructor
  · rintro ⟨s, hs, rfl⟩
    exact ⟨hs, rfl⟩
  · rintro ⟨hs, hrecord⟩
    rcases w' with ⟨s, record⟩
    have hrecord' : record = upd w.record w.state a s := hrecord
    exact ⟨s, hs, by rw [hrecord']⟩

end Machine

end Lib
end SignalKBackup
