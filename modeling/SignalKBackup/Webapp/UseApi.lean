import Mathlib.Data.List.Basic
import Mathlib.Data.Nat.Basic
import SignalKBackup.Lib.Machine

/-!
# UseApi — an endpoint that is polled

The hook `useApi`: its effect fetches at once and then at every interval, and `refresh` runs the
effect again.  Each run of the effect has an object of its own that says whether it is cancelled;
here the runs are numbered, and a call of the fetcher carries the number of its run.

`Shows` is the invariant of the hook: what has been heard since the last refresh are results of
calls made since, the data is the last value that was heard, and the error that of the last result.
Within one run of the effect the results count in the order in which they come.
-/

namespace SignalKBackup
namespace Webapp

universe u

structure UseApi (α : Type u) where
  data : Option α := none
  loading : Bool := true
  error : Option String := none
  /-- An interval is set. -/
  polls : Bool
  /-- The number of the last run of the effect. -/
  effect : ℕ := 0
  mounted : Bool := true
  /-- The calls of the fetcher under way, by the run that made them. -/
  calls : List ℕ := [0]
  /-- The results that were heard, with their runs; nothing reads it. -/
  heard : List (ℕ × Except String α) := []
  /-- How many of them had been heard when the last run began; nothing reads it. -/
  before : ℕ := 0

inductive ApiEvent (α : Type u)
  | refresh
  /-- The interval fires. -/
  | fires
  /-- The call at this position comes out. -/
  | settles (k : ℕ) (res : Except String α)
  | unmounts

namespace UseApi

variable {α : Type u}

/-- The result of a call of the present run. -/
def hear (s : UseApi α) (res : Except String α) : UseApi α :=
  let s := { s with loading := false, heard := s.heard ++ [(s.effect, res)] }
  match res with
  | .ok data => { s with data := some data, error := none }
  | .error message => { s with error := some message }

def step (s : UseApi α) : ApiEvent α → Option (UseApi α)
  | .refresh =>
      if s.mounted then
        some
          { s with
            effect := s.effect + 1
            loading := true
            calls := s.calls ++ [s.effect + 1]
            before := s.heard.length }
      else none
  | .fires => if s.mounted && s.polls then some { s with calls := s.calls ++ [s.effect] } else none
  | .settles k res =>
      s.calls[k]?.map fun run =>
        let s := { s with calls := s.calls.eraseIdx k }
        if s.mounted && run = s.effect then s.hear res else s
  | .unmounts => if s.mounted then some { s with mounted := false } else none

/-- The value that an event sets. -/
def sets (s : UseApi α) : ApiEvent α → Option α
  | .settles k (.ok data) =>
      if s.mounted && s.calls[k]? = some s.effect then some data else none
  | _ => none

/-- The message of a result, if it is an error. -/
def messageOf : Except String α → Option String
  | .error message => some message
  | .ok _ => none

/-- What the state shows of what was heard. -/
structure Shows (s : UseApi α) : Prop where
  data : s.data = s.heard.reverse.findSome? fun h => h.2.toOption
  error : s.error = s.heard.getLast?.bind fun h => messageOf h.2
  /-- Nothing has been heard since the effect last ran. -/
  loading : s.loading = true ↔ s.heard.length = s.before
  before : s.before ≤ s.heard.length
  present : ∀ h ∈ s.heard.drop s.before, h.1 = s.effect
  calls : ∀ run ∈ s.calls, run ≤ s.effect

theorem shows_initial (polls : Bool) : Shows ({ polls } : UseApi α) :=
  ⟨rfl, rfl, by simp, le_rfl, nofun, by simp⟩

theorem shows_hear {s : UseApi α} (h : s.Shows) (res : Except String α) : (s.hear res).Shows := by
  have hlength : (s.heard ++ [(s.effect, res)]).length = s.heard.length + 1 := by
    rw [List.length_append, List.length_singleton]
  have hbefore : s.before ≤ (s.heard ++ [(s.effect, res)]).length := by
    rw [hlength]
    exact Nat.le_succ_of_le h.before
  have hloading : false = true ↔ (s.heard ++ [(s.effect, res)]).length = s.before := by
    rw [hlength]
    exact ⟨nofun, fun heq => absurd h.before (heq ▸ Nat.not_succ_le_self _)⟩
  have hpresent : ∀ a ∈ (s.heard ++ [(s.effect, res)]).drop s.before, a.1 = s.effect := by
    intro a ha
    rw [List.drop_append_of_le_length h.before] at ha
    rcases List.mem_append.1 ha with hold | hnew
    · exact h.present a hold
    · cases List.mem_singleton.1 hnew
      rfl
  cases res with
  | ok data =>
      refine ⟨?_, ?_, hloading, hbefore, hpresent, h.calls⟩
      · simp [hear, Except.toOption]
      · simp [hear, messageOf]
  | error message =>
      refine ⟨?_, ?_, hloading, hbefore, hpresent, h.calls⟩
      · simp [hear, Except.toOption, h.data]
      · simp [hear, messageOf]

theorem shows_step {s s' : UseApi α} {e : ApiEvent α} (h : s.Shows) (hs : s.step e = some s') :
    s'.Shows := by
  cases e with
  | refresh =>
      simp only [step] at hs
      split at hs <;> cases hs
      refine ⟨h.data, h.error, by simp, le_rfl, ?_, fun run hrun => ?_⟩
      · simp
      rcases List.mem_append.1 hrun with hold | hnew
      · exact Nat.le_succ_of_le (h.calls run hold)
      · exact Nat.le_of_eq (List.mem_singleton.1 hnew)
  | fires =>
      simp only [step] at hs
      split at hs <;> cases hs
      refine ⟨h.data, h.error, h.loading, h.before, h.present, fun run hrun => ?_⟩
      rcases List.mem_append.1 hrun with hold | hnew
      · exact h.calls run hold
      · exact Nat.le_of_eq (List.mem_singleton.1 hnew)
  | settles k res =>
      rcases Option.map_eq_some_iff.1 hs with ⟨run, _, rfl⟩
      have hsame : Shows { s with calls := s.calls.eraseIdx k } :=
        ⟨h.data, h.error, h.loading, h.before, h.present,
          fun run hrun => h.calls run (List.mem_of_mem_eraseIdx hrun)⟩
      dsimp only
      split
      case isTrue =>
          exact shows_hear hsame res
      case isFalse =>
          exact hsame
  | unmounts =>
      simp only [step] at hs
      split at hs <;> cases hs
      exact ⟨h.data, h.error, h.loading, h.before, h.present, h.calls⟩

/-- The data changes only by a value that is set. -/
theorem step_data {s s' : UseApi α} {e : ApiEvent α} (hs : s.step e = some s') :
    s'.data = (s.sets e).or s.data := by
  cases e with
  | refresh =>
      simp only [step] at hs
      split at hs <;> cases hs
      rfl
  | fires =>
      simp only [step] at hs
      split at hs <;> cases hs
      rfl
  | settles k res =>
      rcases Option.map_eq_some_iff.1 hs with ⟨run, hrun, rfl⟩
      cases res with
      | ok data =>
          simp only [sets, hrun, Option.some.injEq]
          split <;> rfl
      | error message =>
          dsimp only
          split <;> rfl
  | unmounts =>
      simp only [step] at hs
      split at hs <;> cases hs
      rfl

theorem step_heard {s s' : UseApi α} {e : ApiEvent α} (hs : s.step e = some s') :
    s.heard ⊆ s'.heard := by
  cases e with
  | refresh =>
      simp only [step] at hs
      split at hs <;> cases hs
      exact fun _ => id
  | fires =>
      simp only [step] at hs
      split at hs <;> cases hs
      exact fun _ => id
  | settles k res =>
      rcases Option.map_eq_some_iff.1 hs with ⟨run, _, rfl⟩
      dsimp only
      split
      case isTrue =>
          cases res <;> exact List.subset_append_left _ _
      case isFalse =>
          exact fun _ => id
  | unmounts =>
      simp only [step] at hs
      split at hs <;> cases hs
      exact fun _ => id

/-! ## After an instant -/

/-- What is heard behind the first `count` results are results of calls of later runs. -/
structure After (s : UseApi α) (run count : ℕ) : Prop where
  length : count ≤ s.heard.length
  later : ∀ r ∈ s.heard.drop count, run < r.1
  next : s.mounted = true → run < s.effect

theorem after_step {s s' : UseApi α} {e : ApiEvent α} {run count : ℕ} (h : s.After run count)
    (hs : s.step e = some s') : s'.After run count := by
  cases e with
  | refresh =>
      rcases Option.ite_some_none_eq_some.1 hs with ⟨hmounted, rfl⟩
      exact ⟨h.length, h.later, fun _ => Nat.lt_succ_of_lt (h.next hmounted)⟩
  | fires =>
      rcases Option.ite_some_none_eq_some.1 hs with ⟨_, rfl⟩
      exact ⟨h.length, h.later, h.next⟩
  | settles k res =>
      rcases Option.map_eq_some_iff.1 hs with ⟨r, _, rfl⟩
      dsimp only
      split
      case isFalse =>
          exact ⟨h.length, h.later, h.next⟩
      case isTrue hpresent =>
          -- what is heard is of the present run
          have hmounted := (Bool.and_eq_true_iff.1 hpresent).1
          have hlater : ∀ a ∈ (s.heard ++ [(s.effect, res)]).drop count, run < a.1 := by
            intro a ha
            rw [List.drop_append_of_le_length h.length] at ha
            rcases List.mem_append.1 ha with hold | hnew
            · exact h.later a hold
            · cases List.mem_singleton.1 hnew
              exact h.next hmounted
          have hcount : count ≤ (s.heard ++ [(s.effect, res)]).length :=
            Nat.le_trans h.length (by simp)
          cases res with
          | ok data =>
              exact ⟨hcount, hlater, h.next⟩
          | error message =>
              exact ⟨hcount, hlater, h.next⟩
  | unmounts =>
      rcases Option.ite_some_none_eq_some.1 hs with ⟨_, rfl⟩
      exact ⟨h.length, h.later, nofun⟩

/-- A refresh begins another run; a hook that is gone hears nothing more. -/
theorem after_refresh (s : UseApi α) :
    ((s.step .refresh).getD s).After s.effect s.heard.length := by
  simp only [step]
  split
  case isTrue =>
      exact ⟨le_rfl, by simp, fun _ => Nat.lt_succ_self _⟩
  case isFalse hgone =>
      exact ⟨le_rfl, by simp, fun hmounted => absurd hmounted hgone⟩

/-- The data has been heard. -/
theorem Shows.data_heard {s : UseApi α} (h : s.Shows) {data : α} (hdata : s.data = some data) :
    ∃ r ∈ s.heard, r.2 = .ok data := by
  rw [h.data, List.findSome?_eq_some_iff] at hdata
  rcases hdata with ⟨newer, ⟨run, res⟩, older, hheard, hres, _⟩
  refine ⟨(run, res), List.mem_reverse.1 ?_, ?_⟩
  · rw [hheard]
    exact List.mem_append_right _ List.mem_cons_self
  · cases res with
    | ok value =>
        cases hres
        rfl
    | error message =>
        cases hres

end UseApi

end Webapp
end SignalKBackup
