import SignalKBackup.Lib.Machine
import SignalKBackup.Lib.Triple

/-!
# Calling — programs called one after another, and crashes

A `Caller` has a state and what is left of the program it called last.  It calls the next one when the
last one has ended, waits for call after call of it to settle, and can stop at any moment: the program
is gone then, and the state is as it is.

* `Calling` is what such a caller consists of, `Calling.machine` the machine of its runs, and
  `Calling.usual` a condition on how calls settle.
* `Calling.recovers` is the rule for these runs.  Where each program, called in a state of `I`, ensures
  an end in `I`, and where each call can settle without a change, `I` holds at every moment.
-/

namespace SignalKBackup
namespace Lib

structure Caller (σ Op : Type) (Res : Op → Type) (α : Type) where
  state : σ
  program : Option (Program Op Res α)

inductive CallerAction (ι Out : Type)
  | begins (i : ι)
  /-- The call that is waited for goes on, or settles. -/
  | settles (o : Out)
  | crash

structure Calling (σ ι Out Op : Type) (Res : Op → Type) (α : Type) where
  program : ι → Program Op Res α
  /-- What is noted in the state when a program is called. -/
  enter : ι → σ → σ
  settle : σ → (op : Op) → Out → Option (σ × Option (Res op))

namespace Calling

variable {σ ι Out Op : Type} {Res : Op → Type} {α : Type} (K : Calling σ ι Out Op Res α)

def step (s : Caller σ Op Res α) : CallerAction ι Out → Option (Caller σ Op Res α)
  | .begins i =>
      -- one program at a time
      if s.program.any Program.waits then none
      else some { state := K.enter i s.state, program := some (K.program i) }
  | .settles o =>
      match s.program with
      | some (.call op k) =>
          (K.settle s.state op o).map fun (state, r) =>
            { state, program := some (Program.next (.call op k) k r) }
      | _ => none
  | .crash => some { s with program := none }

def machine : Machine (Caller σ Op Res α) (CallerAction ι Out) where
  step := K.step

/-- No program has been called yet. -/
def Idle (I : σ → Prop) (s : Caller σ Op Res α) : Prop :=
  s.program = none ∧ I s.state

variable (ok : σ → Op → Out → Bool)

/-- The calls settle as `ok` says. -/
def usual (s : Caller σ Op Res α) : CallerAction ι Out → Bool
  | .settles o =>
      match s.program with
      | some (.call op _) => ok s.state op o
      | _ => true
  | _ => true

def steps : Steps Op Res σ :=
  fun s op t r => ∃ o, K.settle s op o = some (t, r) ∧ ok s op o = true

variable {K ok} {I : σ → Prop} {Q : α → σ → Prop}

/-- At any moment the state is one that `I` describes, and what is left of the program ensures its end. -/
def Recovers (K : Calling σ ι Out Op Res α) (ok : σ → Op → Out → Bool) (I : σ → Prop) (Q : α → σ → Prop)
    (s : Caller σ Op Res α) : Prop :=
  I s.state ∧ ∀ m, s.program = some m → Program.Ensures (K.steps ok) Q m s.state

theorem Recovers.step (hprogram : ∀ i s, I s → Program.Ensures (K.steps ok) Q (K.program i) (K.enter i s))
    (hend : ∀ a s, Q a s → I s) (hstill : ∀ s op, ∃ x, K.steps ok s op s (some x))
    {s s' : Caller σ Op Res α} {a : CallerAction ι Out} (h : Recovers K ok I Q s)
    (husual : usual ok s a = true) (hstep : K.step s a = some s') : Recovers K ok I Q s' := by
  -- what is left of a program holds `I` together: let the rest of its calls settle without a change
  have hnow : ∀ {m t}, Program.Ensures (K.steps ok) Q m t → I t := by
    intro m t hensures
    rcases hensures.at_once hstill with ⟨a, ha⟩
    exact hend a t ha
  cases a with
  | begins i =>
      simp only [Calling.step] at hstep
      split at hstep
      case isTrue =>
          cases hstep
      case isFalse =>
          cases hstep
          have hensures := hprogram i s.state h.1
          refine ⟨hnow hensures, fun m hm => ?_⟩
          cases hm
          exact hensures
  | settles o =>
      simp only [Calling.step] at hstep
      split at hstep
      case h_1 op k hcall =>
          rcases Option.map_eq_some_iff.1 hstep with ⟨⟨state, r⟩, hsettle, rfl⟩
          have hok : ok s.state op o = true := by simpa only [usual, hcall] using husual
          have hensures := (h.2 _ hcall).goes_on (t := state) ⟨o, hsettle, hok⟩
          refine ⟨hnow hensures, fun m hm => ?_⟩
          cases hm
          exact hensures
      case h_2 =>
          cases hstep
  | crash =>
      cases hstep
      exact ⟨h.1, fun m hm => by cases hm⟩

theorem usual_always (s : Caller σ Op Res α) (a : CallerAction ι Out) :
    usual (fun _ _ _ => true) s a = true := by
  cases a with
  | settles o =>
      simp only [usual]
      split <;> rfl
  | _ =>
      rfl

theorem recovers {C : Caller σ Op Res α → CallerAction ι Out → Prop} {I₀ : σ → Prop}
    (husual : ∀ s a, C s a → usual ok s a = true) (hinit : ∀ s, I₀ s → I s)
    (hprogram : ∀ i s, I s → Program.Ensures (K.steps ok) Q (K.program i) (K.enter i s))
    (hend : ∀ a s, Q a s → I s) (hstill : ∀ s op, ∃ x, K.steps ok s op s (some x))
    {s : Caller σ Op Res α} (h : K.machine.ReachableUnder C (Idle I₀) s) : Recovers K ok I Q s := by
  refine h.invariant (fun s hs => ⟨hinit _ hs.2, fun m hm => ?_⟩)
    fun s a s' hs hC hstep => hs.step hprogram hend hstill (husual s a hC) hstep
  rw [hs.1] at hm
  cases hm

/-- A program that has ended, has ended as it should. -/
theorem Recovers.ended {s : Caller σ Op Res α} (h : Recovers K ok I Q s) {a : α}
    (ha : s.program = some (.pure a)) : Q a s.state :=
  h.2 _ ha

end Calling

end Lib
end SignalKBackup
