import SignalKBackup.Lib.Program

/-!
# Triple — pre- and postconditions of programs whose calls take time

A call goes on step by step before it settles, and each step can change the state.  `Steps` says how;
`Ensures Q m s` says that the program `m`, begun in the state `s`, ends in a state that meets `Q`,
however its calls go on.  While a call is pending an invariant of its own holds.

* `Ensures.goes_on`: it still ensures the same after every step.
* `Ensures.of_obeys`: what every call of a protocol keeps, a program that obeys it ensures.
* `Ensures.at_once`: where every call can settle without a change, what a program ensures at its end
  it ensures at any moment, as if it was stopped there.
* `Triple P x Q E` is the triple of a program that may throw: from `P` it returns with `Q`, or throws
  with `E`.  The rules follow the ways programs are composed.
-/

namespace SignalKBackup
namespace Lib

/-- How a call goes on: the state it leads to, and its result once it has settled. -/
abbrev Steps (Op : Type) (Res : Op → Type) (σ : Type) :=
  σ → (op : Op) → σ → Option (Res op) → Prop

variable {Op : Type} {Res : Op → Type} {σ α γ ε : Type} {R : Steps Op Res σ}

namespace Program

def Ensures (R : Steps Op Res σ) (Q : α → σ → Prop) : Program Op Res α → σ → Prop
  | .pure a, s => Q a s
  | .call op k, s =>
      -- `J` is the invariant of the call while it is pending
      ∃ J : σ → Prop, J s ∧ ∀ t, J t →
        (∀ t', R t op t' none → J t') ∧ ∀ t' x, R t op t' (some x) → Ensures R Q (k x) t'

variable {Q Q' : α → σ → Prop} {m : Program Op Res α} {s t : σ}

theorem Ensures.goes_on {op : Op} {k : Res op → Program Op Res α} {r : Option (Res op)}
    (h : Ensures R Q (.call op k) s) (hstep : R s op t r) :
    Ensures R Q (next (.call op k) k r) t := by
  rcases h with ⟨J, hJ, hcall⟩
  cases r with
  | none =>
      exact ⟨J, (hcall s hJ).1 t hstep, hcall⟩
  | some x =>
      exact (hcall s hJ).2 t x hstep

theorem Ensures.mono (h : Ensures R Q m s) (himp : ∀ a t, Q a t → Q' a t) : Ensures R Q' m s := by
  -- over the program; the invariant of a call stays, its continuations are weakened
  induction m generalizing s with
  | pure a =>
      exact himp a s h
  | call op k ih =>
      rcases h with ⟨J, hJ, hcall⟩
      refine ⟨J, hJ, fun t ht => ⟨(hcall t ht).1, fun t' x hstep => ?_⟩⟩
      exact ih x ((hcall t ht).2 t' x hstep)

theorem Ensures.bind {f : α → Program Op Res γ} {Q : γ → σ → Prop}
    (h : Ensures R (fun a t => Ensures R Q (f a) t) m s) : Ensures R Q (m >>= f) s := by
  induction m generalizing s with
  | pure a =>
      exact h
  | call op k ih =>
      rcases h with ⟨J, hJ, hcall⟩
      refine ⟨J, hJ, fun t ht => ⟨(hcall t ht).1, fun t' x hstep => ?_⟩⟩
      exact ih x ((hcall t ht).2 t' x hstep)

/-- A single call, with the invariant that holds while it is pending. -/
theorem Ensures.perform {op : Op} {Q : Res op → σ → Prop} (J : σ → Prop) (hJ : J s)
    (hpending : ∀ t t', J t → R t op t' none → J t')
    (hsettled : ∀ t t' x, J t → R t op t' (some x) → Q x t') :
    Ensures R Q (Program.perform op) s :=
  ⟨J, hJ, fun t ht => ⟨fun t' hstep => hpending t t' ht hstep, fun t' x hstep => hsettled t t' x ht hstep⟩⟩

theorem Ensures.and (h : Ensures R Q m s) (h' : Ensures R Q' m s) :
    Ensures R (fun a t => Q a t ∧ Q' a t) m s := by
  induction m generalizing s with
  | pure a =>
      exact ⟨h, h'⟩
  | call op k ih =>
      rcases h with ⟨J, hJ, hcall⟩
      rcases h' with ⟨J', hJ', hcall'⟩
      -- while the call is pending both invariants hold
      refine ⟨fun t => J t ∧ J' t, ⟨hJ, hJ'⟩, fun t ht => ⟨fun t' hstep => ?_, fun t' x hstep => ?_⟩⟩
      · exact ⟨(hcall t ht.1).1 t' hstep, (hcall' t ht.2).1 t' hstep⟩
      · exact ih x ((hcall t ht.1).2 t' x hstep) ((hcall' t ht.2).2 t' x hstep)

theorem Ensures.of_obeys {ς : Type} {P : Protocol Op Res ς} {I : σ → Prop} {p : ς}
    (hkeeps : ∀ p op, P.allowed p op → ∀ s t r, I s → R s op t r → I t) (h : P.Obeys p m)
    (hs : I s) : Ensures R (fun _ => I) m s := by
  induction m generalizing s p with
  | pure a =>
      exact hs
  | call op k ih =>
      refine ⟨I, hs, fun t ht => ⟨fun t' hstep => ?_, fun t' x hstep => ?_⟩⟩
      · exact hkeeps p op h.1 t t' none ht hstep
      · exact ih x (h.2 x) (hkeeps p op h.1 t t' (some x) ht hstep)

/-- What every step keeps. -/
theorem Ensures.always {I : σ → Prop} (hkeeps : ∀ s op t r, I s → R s op t r → I t) (hs : I s) :
    Ensures R (fun _ => I) m s := by
  induction m generalizing s with
  | pure a =>
      exact hs
  | call op k ih =>
      refine ⟨I, hs, fun t ht => ⟨fun t' hstep => ?_, fun t' x hstep => ?_⟩⟩
      · exact hkeeps t op t' none ht hstep
      · exact ih x (hkeeps t op t' (some x) ht hstep)

/-- Let every call that is left settle without a change: the postcondition holds of the same state. -/
theorem Ensures.at_once (hstill : ∀ s op, ∃ x, R s op s (some x)) (h : Ensures R Q m s) :
    ∃ a, Q a s := by
  induction m with
  | pure a =>
      exact ⟨a, h⟩
  | call op k ih =>
      rcases hstill s op with ⟨x, hstep⟩
      exact ih x (h.goes_on hstep)

end Program

open Program (Ensures)

/-! ## Programs that throw -/

/-- The postcondition of a program that returns with `Q`, or throws with `E`. -/
def EndsWith (Q : α → σ → Prop) (E : σ → Prop) : Except ε α → σ → Prop
  | .ok a => Q a
  | .error _ => E

def Triple (R : Steps Op Res σ) (P : σ → Prop) (x : ExceptT ε (Program Op Res) α)
    (Q : α → σ → Prop) (E : σ → Prop) : Prop :=
  ∀ s, P s → Ensures R (EndsWith Q E) x.run s

theorem EndsWith.same {P : σ → Prop} {r : Except ε α} {s : σ} (h : P s) :
    EndsWith (fun _ => P) P r s := by
  cases r with
  | ok a =>
      exact h
  | error e =>
      exact h

namespace Triple

variable {P P' E E' : σ → Prop} {Q Q' : α → σ → Prop} {x : ExceptT ε (Program Op Res) α}

theorem consequence (h : Triple R P x Q E) (hpre : ∀ s, P' s → P s) (hpost : ∀ a s, Q a s → Q' a s)
    (herror : ∀ s, E s → E' s) : Triple R P' x Q' E' := by
  intro s hs
  refine (h s (hpre s hs)).mono fun r t hr => ?_
  cases r with
  | ok a =>
      exact hpost a t hr
  | error e =>
      exact herror t hr

/-- The same holds whether the program returns or throws. -/
theorem of_ensures {M : σ → Prop} (h : ∀ s, P s → Ensures R (fun _ t => M t) x.run s) :
    Triple R P x (fun _ => M) M :=
  fun s hs => (h s hs).mono fun _ _ ht => .same ht

/-- What every step keeps is carried along. -/
theorem frame {I : σ → Prop} (hkeeps : ∀ s op t r, I s → R s op t r → I t) (h : Triple R P x Q E) :
    Triple R (fun s => I s ∧ P s) x (fun a s => I s ∧ Q a s) E := by
  rintro s ⟨hI, hs⟩
  refine ((Program.Ensures.always hkeeps hI).and (h s hs)).mono fun r t hr => ?_
  cases r with
  | ok a =>
      exact hr
  | error e =>
      exact hr.2

theorem returns {a : α} (h : ∀ s, P s → Q a s) :
    Triple R P (pure a : ExceptT ε (Program Op Res) α) Q E :=
  h

theorem throws {e : ε} (h : ∀ s, P s → E s) :
    Triple R P (throw e : ExceptT ε (Program Op Res) α) Q E :=
  h

theorem andThen {M : α → σ → Prop} {f : α → ExceptT ε (Program Op Res) γ} {Q : γ → σ → Prop}
    (hx : Triple R P x M E) (hf : ∀ a, Triple R (M a) (f a) Q E) : Triple R P (x >>= f) Q E := by
  intro s hs
  -- behind a throw the rest is skipped
  refine Program.Ensures.bind ((hx s hs).mono fun r t hr => ?_)
  cases r with
  | ok a =>
      exact hf a t hr
  | error e =>
      exact hr

theorem catches {H : σ → Prop} {handler : ε → ExceptT ε (Program Op Res) α}
    (hx : Triple R P x Q H) (hhandler : ∀ e, Triple R H (handler e) Q E) :
    Triple R P (tryCatch x handler) Q E := by
  intro s hs
  refine Program.Ensures.bind ((hx s hs).mono fun r t hr => ?_)
  cases r with
  | ok a =>
      exact hr
  | error e =>
      exact hhandler e t hr

/-- A precondition that speaks of some value. -/
theorem of_exists {ι : Type} {P : ι → σ → Prop} (h : ∀ i, Triple R (P i) x Q E) :
    Triple R (fun s => ∃ i, P i s) x Q E := by
  rintro s ⟨i, hs⟩
  exact h i s hs

/-- A precondition with a part that no call changes. -/
theorem of_fact {p : Prop} (h : p → Triple R P x Q E) : Triple R (fun s => p ∧ P s) x Q E := by
  rintro s ⟨hp, hs⟩
  exact h hp s hs

/-- A loop whose invariant speaks of the rounds that are done. -/
theorem foldlM_done {δ : Type} {I : List δ → γ → σ → Prop}
    {f : γ → δ → ExceptT ε (Program Op Res) γ} {l : List δ}
    (hf : ∀ before d after c, l = before ++ d :: after →
      Triple R (I before c) (f c d) (I (before ++ [d])) E) (c : γ) :
    Triple R (I [] c) (l.foldlM f c) (I l) E := by
  -- from a loop that has come some way
  suffices hrest : ∀ rest before c, l = before ++ rest →
      Triple R (I before c) (rest.foldlM f c) (I l) E from hrest l [] c rfl
  intro rest
  induction rest with
  | nil =>
      rintro before c rfl
      exact returns fun s hs => by rwa [List.append_nil]
  | cons d rest ih =>
      intro before c hl
      refine andThen (hf before d rest c hl) fun c' => ih (before ++ [d]) c' ?_
      rw [hl, List.append_assoc, List.singleton_append]

/-- A loop keeps its invariant, which speaks of what has been collected so far. -/
theorem foldlM {δ : Type} {I : γ → σ → Prop} {f : γ → δ → ExceptT ε (Program Op Res) γ} {l : List δ}
    (hf : ∀ c, ∀ d ∈ l, Triple R (I c) (f c d) I E) (c : γ) : Triple R (I c) (l.foldlM f c) I E := by
  induction l generalizing c with
  | nil =>
      exact returns fun _ hs => hs
  | cons d l ih =>
      refine andThen (hf c d (List.mem_cons_self ..)) fun c' => ?_
      exact ih (fun c d' hmem => hf c d' (List.mem_cons_of_mem _ hmem)) c'

end Triple

end Lib
end SignalKBackup
