import SignalKBackup.Lib.Machine

/-!
# Timed — machines with a clock

A `Timed` machine acts at instants: `step` is told the time, and `due` lists the instants the clock
does not pass while the machine is in a state (a timer that has to fire, a promise that settles at
once).  `Timed.machine` is the machine with its clock, on which time passes only as far as nothing
is due.

* `invariant`: a property of the state and the time holds of every run if actions keep it, and the
  passing of time up to what is due.
* `run_length`: a machine whose actions use up a rank, and whose clock is stopped by something due
  until it has ended, takes a bounded number of steps.
-/

namespace SignalKBackup
namespace Lib

universe u v

structure Timed (σ : Type u) (α : Type v) where
  step : ℕ → σ → α → Option σ
  due : σ → List ℕ

/-- A state, and the time. -/
structure Clocked (σ : Type u) where
  now : ℕ
  state : σ

namespace Timed

variable {σ : Type u} {α : Type v}

inductive Move (α : Type v)
  /-- Time passes, by at least a millisecond. -/
  | passes (ms : ℕ)
  | acts (a : α)

/-- Nothing is due before the time. -/
def InTime (T : Timed σ α) (now : ℕ) (s : σ) : Prop :=
  ∀ t ∈ T.due s, now ≤ t

instance (T : Timed σ α) (now : ℕ) (s : σ) : Decidable (T.InTime now s) :=
  inferInstanceAs (Decidable (∀ t ∈ T.due s, now ≤ t))

def machine (T : Timed σ α) : Machine (Clocked σ) (Move α) where
  step c
    | .passes ms =>
        if 0 < ms ∧ T.InTime (c.now + ms) c.state then some { c with now := c.now + ms } else none
    | .acts a => (T.step c.now c.state a).map fun s => { c with state := s }

variable {T : Timed σ α} {C : Clocked σ → Move α → Prop} {I : Clocked σ → Prop} {c c' : Clocked σ}

/-- The ways a clocked machine goes on. -/
theorem machine_step {m : Move α} (h : T.machine.step c m = some c') :
    (∃ ms, m = .passes ms ∧ 0 < ms ∧ T.InTime (c.now + ms) c.state ∧
        c' = { c with now := c.now + ms }) ∨
      ∃ a s, m = .acts a ∧ T.step c.now c.state a = some s ∧ c' = { c with state := s } := by
  cases m with
  | passes ms =>
      simp only [machine] at h
      split at h
      case isTrue hok =>
          cases h
          exact Or.inl ⟨ms, rfl, hok.1, hok.2, rfl⟩
      case isFalse =>
          cases h
  | acts a =>
      rcases Option.map_eq_some_iff.1 h with ⟨s, hs, rfl⟩
      exact Or.inr ⟨a, s, rfl, hs, rfl⟩

/-- The invariant rule. -/
theorem invariant {P : ℕ → σ → Prop} (h : T.machine.ReachableUnder C I c)
    (hinit : ∀ c, I c → P c.now c.state)
    (hpasses : ∀ now ms s, P now s → T.InTime (now + ms) s → P (now + ms) s)
    (hacts : ∀ now s a s', P now s → C ⟨now, s⟩ (.acts a) → T.step now s a = some s' → P now s') :
    P c.now c.state := by
  refine h.invariant (P := fun c => P c.now c.state) hinit fun c m c' hP hC hs => ?_
  rcases machine_step hs with ⟨ms, rfl, _, hdue, rfl⟩ | ⟨a, s, rfl, hact, rfl⟩
  · exact hpasses _ _ _ hP hdue
  · exact hacts _ _ _ _ hP hC hact

/-- Actions use up a rank, time uses up what is left of it until a horizon: a run that never leaves
`P` is no longer than both together. -/
theorem run_length {P : ℕ → σ → Prop} {rank : σ → ℕ} {horizon : ℕ} {ms : List (Move α)}
    (hacts : ∀ now s a s', P now s → T.step now s a = some s' → rank s' < rank s)
    (hpasses : ∀ now s, P now s → now ≤ horizon)
    (hP : ∀ before c', before <+: ms → T.machine.run c before = some c' → P c'.now c'.state)
    (hrun : T.machine.run c ms = some c') :
    ms.length + rank c'.state + (horizon - c'.now) ≤ rank c.state + (horizon - c.now) := by
  induction ms generalizing c with
  | nil =>
      cases hrun
      simp
  | cons m ms ih =>
      rcases (Machine.run_cons_eq_some _).1 hrun with ⟨c₁, hs, hrest⟩
      have hbefore : P c.now c.state := hP [] c List.nil_prefix rfl
      have hafter : P c₁.now c₁.state :=
        hP [m] c₁ (List.cons_prefix_cons.2 ⟨rfl, List.nil_prefix⟩)
          ((Machine.run_cons_eq_some _).2 ⟨c₁, hs, rfl⟩)
      have htail := ih (fun before c₂ hpre hc₂ => hP (m :: before) c₂
        (List.cons_prefix_cons.2 ⟨rfl, hpre⟩) ((Machine.run_cons_eq_some _).2 ⟨c₁, hs, hc₂⟩)) hrest
      rw [List.length_cons]
      rcases machine_step hs with ⟨ms', rfl, hpos, _, rfl⟩ | ⟨a, s, rfl, hact, rfl⟩
      · have hhorizon := hpasses _ _ hafter
        dsimp only at htail hhorizon
        omega
      · have hrank := hacts _ _ _ _ hbefore hact
        dsimp only at htail
        omega

end Timed

end Lib
end SignalKBackup
