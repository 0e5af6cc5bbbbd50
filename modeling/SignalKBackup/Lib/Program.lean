/-!
# Program — programs of awaited calls

A `Program` is a value that is there, or a call with what to do for each of its results: the state an
asynchronous function is in while it waits.  Programs are a monad; with `ExceptT` over it they throw
and catch.

A `Protocol` says which calls are allowed, in a state of its own that the results change.  A program
is `Allowed` when each of its calls is, whatever the results and whatever the state it begins in; the
rules below follow the ways programs are composed.
-/

namespace SignalKBackup
namespace Lib

/-- Programs over the calls `Op`; a call of `op` results in a value of `Res op`. -/
inductive Program (Op : Type) (Res : Op → Type) (α : Type) where
  | pure (a : α)
  | call (op : Op) (k : Res op → Program Op Res α)

namespace Program

variable {Op : Type} {Res : Op → Type} {α γ : Type}

def bind (m : Program Op Res α) (f : α → Program Op Res γ) : Program Op Res γ :=
  match m with
  | .pure a => f a
  | .call op k => .call op fun r => (k r).bind f

instance : Monad (Program Op Res) where
  pure := Program.pure
  bind := Program.bind

theorem bind_pure (m : Program Op Res α) : m.bind .pure = m := by
  induction m with
  | pure a =>
      rfl
  | call op k ih =>
      exact congrArg (Program.call op) (funext ih)

theorem bind_assoc {δ : Type} (m : Program Op Res α) (f : α → Program Op Res γ)
    (g : γ → Program Op Res δ) : (m.bind f).bind g = m.bind fun a => (f a).bind g := by
  induction m with
  | pure a =>
      rfl
  | call op k ih =>
      exact congrArg (Program.call op) (funext ih)

instance : LawfulMonad (Program Op Res) :=
  .mk' (Program Op Res) bind_pure (fun _ _ => rfl) bind_assoc

/-- A single call. -/
def perform (op : Op) : Program Op Res (Res op) :=
  .call op .pure

/-- What is left of a program once its call has gone on. -/
def next (m : Program Op Res α) {op : Op} (k : Res op → Program Op Res α) :
    Option (Res op) → Program Op Res α
  | some x => k x
  | none => m

/-- The program waits for a call. -/
def waits : Program Op Res α → Bool
  | .pure _ => false
  | .call _ _ => true

end Program

/-! ## Protocols -/

/-- Which calls are allowed in a state, and the state a result leads to. -/
structure Protocol (Op : Type) (Res : Op → Type) (σ : Type) where
  allowed : σ → Op → Prop
  after : σ → (op : Op) → Res op → σ

namespace Protocol

variable {Op : Type} {Res : Op → Type} {σ α γ ε : Type} (P : Protocol Op Res σ)

/-- From this state on, every call of the program is allowed. -/
def Obeys : σ → Program Op Res α → Prop
  | _, .pure _ => True
  | s, .call op k => P.allowed s op ∧ ∀ r, Obeys (P.after s op r) (k r)

/-- Every call of the program is allowed, from any state. -/
def Allowed (m : Program Op Res α) : Prop :=
  ∀ s, P.Obeys s m

variable {P}

theorem Obeys.bind {m : Program Op Res α} {f : α → Program Op Res γ} {s : σ} (hm : P.Obeys s m)
    (hf : ∀ a, P.Allowed (f a)) : P.Obeys s (m >>= f) := by
  -- along the calls of `m`
  induction m generalizing s with
  | pure a =>
      exact hf a s
  | call op k ih =>
      exact ⟨hm.1, fun r => ih r (hm.2 r)⟩

theorem Allowed.pure (a : α) : P.Allowed (Pure.pure a : Program Op Res α) :=
  fun _ => trivial

theorem Allowed.bind {m : Program Op Res α} {f : α → Program Op Res γ} (hm : P.Allowed m)
    (hf : ∀ a, P.Allowed (f a)) : P.Allowed (m >>= f) :=
  fun s => (hm s).bind hf

theorem Allowed.perform {op : Op} (h : ∀ s, P.allowed s op) :
    P.Allowed (Program.perform op : Program Op Res (Res op)) :=
  fun s => ⟨h s, fun _ => trivial⟩

/-! ## Programs that throw -/

variable {x : ExceptT ε (Program Op Res) α}

theorem Allowed.returns (a : α) :
    P.Allowed (Pure.pure a : ExceptT ε (Program Op Res) α).run :=
  Allowed.pure (Except.ok a)

theorem Allowed.throws (e : ε) : P.Allowed (throw e : ExceptT ε (Program Op Res) α).run :=
  Allowed.pure (Except.error e)

theorem Allowed.andThen {f : α → ExceptT ε (Program Op Res) γ} (hx : P.Allowed x.run)
    (hf : ∀ a, P.Allowed (f a).run) : P.Allowed (x >>= f).run := by
  refine Allowed.bind hx fun r => ?_
  cases r with
  | ok a =>
      exact hf a
  | error e =>
      exact Allowed.pure (Except.error e)

theorem Allowed.catches {handler : ε → ExceptT ε (Program Op Res) α} (hx : P.Allowed x.run)
    (hhandler : ∀ e, P.Allowed (handler e).run) : P.Allowed (tryCatch x handler).run := by
  refine Allowed.bind hx fun r => ?_
  cases r with
  | ok a =>
      exact Allowed.pure (Except.ok a)
  | error e =>
      exact hhandler e

/-- A loop over a list, with what it has collected so far. -/
theorem Allowed.foldlM {δ : Type} {f : γ → δ → ExceptT ε (Program Op Res) γ} {l : List δ}
    (hf : ∀ c, ∀ d ∈ l, P.Allowed (f c d).run) (c : γ) : P.Allowed (l.foldlM f c).run := by
  induction l generalizing c with
  | nil =>
      exact Allowed.returns c
  | cons d l ih =>
      refine Allowed.andThen (hf c d (List.mem_cons_self ..)) fun c' => ?_
      exact ih (fun c d' hmem => hf c d' (List.mem_cons_of_mem _ hmem)) c'

end Protocol

end Lib
end SignalKBackup
