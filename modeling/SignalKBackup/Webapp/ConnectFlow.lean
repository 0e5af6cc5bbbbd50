import Mathlib.Data.List.Basic
import Mathlib.Data.List.Range
import SignalKBackup.Lib.Letters
import SignalKBackup.Lib.Machine

/-!
# ConnectFlow — signing in to Google Drive

`ConnectFlow` of the cloud page asks the server to begin an authorization, and then asks for its
state at an interval until it is completed, has failed or is cancelled.  Each use of the button is
an attempt; the attempts are numbered, and an interval carries the number of its attempt.

* `pollRef` is the interval that the component clears, `intervals` are those that still run;
* `Prompt` says that an answer ends only the interval that asked, and that the component is not
  removed while it waits for the server to begin;
* `reachable_single`: then one attempt runs at a time, it has one end, and its timer ends with it.

Without that the guard `connectingRef` is reset under an attempt that has begun since, and two
intervals run of which one is never cleared (`stale_leaks`).
-/

namespace SignalKBackup
namespace Webapp

open Lib

inductive GDriveAuthState
  | idle
  | pending
  | completed
  | failed
  deriving DecidableEq

structure GDriveAuthInfo where
  state : GDriveAuthState
  error : Option String := none

/-- How an attempt ends; the component tells its parent of the first two. -/
inductive Ending
  | done
  | failed (message : String)
  | stopped
  deriving DecidableEq

structure ConnectFlow where
  mounted : Bool := true
  polling : Bool := false
  showFallback : Bool := false
  callbackUrl : List Char := []
  forwarding : Bool := false
  connectingRef : Bool := false
  pollRef : Option ℕ := none
  /-- The intervals that have not been cleared. -/
  intervals : List ℕ := []
  /-- The calls of `gdriveConnect` under way. -/
  connects : List ℕ := []
  /-- The calls of `gdriveAuthState` under way, by their interval. -/
  asked : List ℕ := []
  /-- How many times the button was used. -/
  attempts : ℕ := 0
  /-- The attempts that have ended; nothing reads it. -/
  ends : List (ℕ × Ending) := []

inductive ConnectEvent
  /-- The button, while nothing is polled. -/
  | connect
  /-- A call of `gdriveConnect` comes out; the window that was opened for it may be blocked. -/
  | connects (k : ℕ) (res : Except String Unit) (blocked : Bool)
  | fires (interval : ℕ)
  /-- The state of the authorization, more than fifteen seconds after the last attempt began or
  not. -/
  | answers (k : ℕ) (res : Except String GDriveAuthInfo) (late : Bool)
  | cancel
  | types (callbackUrl : List Char)
  | forward
  | forwards (res : Except String Unit)
  | unmounts

namespace ConnectFlow

/-- `stopPolling`, and the end of `onCancel` that follows it everywhere. -/
def stopPolling (s : ConnectFlow) : ConnectFlow :=
  { s with
    intervals := s.intervals.filter fun interval => s.pollRef ≠ some interval
    pollRef := none
    polling := false
    connectingRef := false }

/-- What a state does that was asked for by this interval. -/
def hear (s : ConnectFlow) (interval : ℕ) (info : GDriveAuthInfo) (late : Bool) : ConnectFlow :=
  match info.state with
  | .completed =>
      { s.stopPolling with
        showFallback := false
        callbackUrl := []
        ends := s.ends ++ [(interval, .done)] }
  | .failed =>
      { s.stopPolling with
        showFallback := false
        ends := s.ends ++ [(interval, .failed (info.error.getD "Authorization failed"))] }
  | _ => if late then { s with showFallback := true } else s

/-- The ghost record of an interval that is cleared on request. -/
def stoppedEnds (s : ConnectFlow) : List (ℕ × Ending) :=
  s.ends ++ s.pollRef.toList.map fun interval => (interval, .stopped)

def step (s : ConnectFlow) : ConnectEvent → Option ConnectFlow
  | .connect =>
      if s.mounted && !s.polling then
        if s.connectingRef then some s
        else
          some
            { s with
              connectingRef := true
              connects := s.connects ++ [s.attempts]
              attempts := s.attempts + 1 }
      else none
  | .connects k res blocked =>
      s.connects[k]?.map fun attempt =>
        let s := { s with connects := s.connects.eraseIdx k }
        match res with
        | .ok _ =>
            { s with
              showFallback := s.showFallback || blocked
              polling := true
              pollRef := some attempt
              intervals := s.intervals ++ [attempt] }
        | .error message =>
            { s with connectingRef := false, ends := s.ends ++ [(attempt, .failed message)] }
  | .fires interval =>
      if s.intervals.contains interval then some { s with asked := s.asked ++ [interval] } else none
  | .answers k res late =>
      s.asked[k]?.map fun interval =>
        let s := { s with asked := s.asked.eraseIdx k }
        match res with
        | .ok info => s.hear interval info late
        | .error _ => s
  | .cancel =>
      if s.mounted && s.polling then
        some
          { s.stopPolling with
            showFallback := false
            callbackUrl := []
            ends := s.stoppedEnds }
      else none
  | .types callbackUrl =>
      if s.mounted && s.polling && s.showFallback && !s.forwarding then some { s with callbackUrl }
      else none
  | .forward =>
      if s.mounted && s.polling && s.showFallback && !s.forwarding &&
          !(trim s.callbackUrl).isEmpty then
        some { s with forwarding := true }
      else none
  | .forwards res =>
      if s.forwarding then
        match res with
        | .ok _ => some { s with forwarding := false, callbackUrl := [] }
        | .error _ => some { s with forwarding := false }
      else none
  | .unmounts =>
      if s.mounted then some { s.stopPolling with mounted := false, ends := s.stoppedEnds }
      else none

/-- The state ends the attempt. -/
def isFinal (info : GDriveAuthInfo) : Bool :=
  info.state = .completed || info.state = .failed

end ConnectFlow

def connectFlow : Machine ConnectFlow ConnectEvent where
  step := ConnectFlow.step

/-- An end is heard from the interval that runs, and the component stays until its attempt has
begun. -/
def Prompt (s : ConnectFlow) : ConnectEvent → Prop
  | .answers k (.ok info) _ => ConnectFlow.isFinal info = true → s.asked[k]? = s.pollRef
  | .unmounts => s.connects = []
  | _ => True

instance (s : ConnectFlow) : ∀ e, Decidable (Prompt s e)
  | .answers k (.ok info) _ =>
      inferInstanceAs (Decidable (ConnectFlow.isFinal info = true → s.asked[k]? = s.pollRef))
  | .unmounts => inferInstanceAs (Decidable (s.connects = []))
  | .answers _ (.error _) _ | .connect | .connects _ _ _ | .fires _ | .cancel | .types _ | .forward
  | .forwards _ => inferInstanceAs (Decidable True)

/-- One attempt at a time. -/
structure Single (s : ConnectFlow) : Prop where
  timers : s.intervals = s.pollRef.toList
  polling : s.polling = s.pollRef.isSome
  guard : s.connectingRef = (!s.connects.isEmpty || s.pollRef.isSome)
  one : s.connects.length + s.intervals.length ≤ 1
  /-- The attempts end one after the other, each once. -/
  order : s.ends.map Prod.fst ++ s.connects ++ s.intervals = List.range s.attempts
  unmounted : s.mounted = false → s.connects = [] ∧ s.intervals = []

namespace ConnectFlow

/-! ## Every run -/

theorem single_initial : Single {} :=
  ⟨rfl, rfl, rfl, Nat.zero_le _, rfl, nofun⟩

/-- No call for an attempt is under way while an interval runs. -/
theorem connects_eq_nil {s : ConnectFlow} (h : Single s) {interval : ℕ}
    (hpoll : s.pollRef = some interval) : s.connects = [] := by
  have hone := h.one
  rw [h.timers, hpoll] at hone
  exact List.eq_nil_of_length_eq_zero (Nat.le_zero.1 (Nat.le_of_succ_le_succ hone))

theorem intervals_stopPolling {s : ConnectFlow} (h : Single s) : s.stopPolling.intervals = [] := by
  simp only [stopPolling, h.timers]
  cases s.pollRef with
  | none =>
      rfl
  | some interval =>
      simp

/-- The attempt whose interval is cleared has ended. -/
theorem single_stop {s : ConnectFlow} {ends : List (ℕ × Ending)} (h : Single s)
    (hconnects : s.connects = [])
    (hends : ends.map Prod.fst = s.ends.map Prod.fst ++ s.pollRef.toList) :
    Single { s.stopPolling with ends } := by
  have hintervals := intervals_stopPolling h
  have horder : ends.map Prod.fst = List.range s.attempts := by
    rw [hends, ← h.order, hconnects, List.append_nil, h.timers]
  exact
    { timers := hintervals
      polling := rfl
      guard := by
        change false = (!s.connects.isEmpty || false)
        rw [hconnects]
        rfl
      one := by
        change s.connects.length + s.stopPolling.intervals.length ≤ 1
        rw [hconnects, hintervals]
        exact Nat.zero_le 1
      order := by
        change ends.map Prod.fst ++ s.connects ++ s.stopPolling.intervals = List.range s.attempts
        rw [hconnects, hintervals, List.append_nil, List.append_nil, horder]
      unmounted := fun _ => ⟨hconnects, hintervals⟩ }

theorem map_stoppedEnds (s : ConnectFlow) :
    s.stoppedEnds.map Prod.fst = s.ends.map Prod.fst ++ s.pollRef.toList := by
  simp [stoppedEnds, Function.comp_def]

/-- The fields that no timer depends on. -/
theorem single_same {s s' : ConnectFlow} (h : Single s) (hmounted : s'.mounted = s.mounted)
    (hpolling : s'.polling = s.polling) (hguard : s'.connectingRef = s.connectingRef)
    (hpoll : s'.pollRef = s.pollRef) (hintervals : s'.intervals = s.intervals)
    (hconnects : s'.connects = s.connects) (hattempts : s'.attempts = s.attempts)
    (hends : s'.ends = s.ends) : Single s' := by
  constructor
  · rw [hintervals, hpoll, h.timers]
  · rw [hpolling, hpoll, h.polling]
  · rw [hguard, hconnects, hpoll, h.guard]
  · rw [hconnects, hintervals]
    exact h.one
  · rw [hends, hconnects, hintervals, hattempts, h.order]
  · rw [hmounted, hconnects, hintervals]
    exact h.unmounted

/-- The button is used, with nothing under way. -/
theorem single_connect {s : ConnectFlow} (h : Single s) (hmounted : s.mounted = true)
    (hfree : s.connectingRef = false) :
    Single
      { s with
        connectingRef := true
        connects := s.connects ++ [s.attempts]
        attempts := s.attempts + 1 } := by
  have hidle : s.connects = [] ∧ s.pollRef = none := by
    have hguard := h.guard
    rw [hfree, eq_comm, Bool.or_eq_false_iff] at hguard
    exact ⟨by simpa using hguard.1, by simpa using hguard.2⟩
  have hintervals : s.intervals = [] := by
    rw [h.timers, hidle.2]
    rfl
  have horder := h.order
  rw [hidle.1, hintervals, List.append_nil, List.append_nil] at horder
  exact
    { timers := h.timers
      polling := h.polling
      guard := by simp
      one := by simp [hidle.1, hintervals]
      order := by simp [hidle.1, hintervals, horder, List.range_succ]
      unmounted := fun hgone => absurd hgone (by rw [hmounted]; decide) }

theorem single_connects {s s' : ConnectFlow} {k : ℕ} {res : Except String Unit} {blocked : Bool}
    (h : Single s) (hs : s.step (.connects k res blocked) = some s') : Single s' := by
  rcases Option.map_eq_some_iff.1 hs with ⟨attempt, hattempt, rfl⟩
  have hmem := List.mem_of_getElem? hattempt
  have hpoll : s.pollRef = none := by
    cases hpoll : s.pollRef with
    | none =>
        rfl
    | some interval =>
        rw [connects_eq_nil h hpoll] at hmem
        cases hmem
  have hintervals : s.intervals = [] := by
    rw [h.timers, hpoll]
    rfl
  -- The call is the only one.
  have hconnects : s.connects = [attempt] := by
    have hone := h.one
    rw [hintervals] at hone
    rcases List.length_eq_one_iff.1 (Nat.le_antisymm hone (List.length_pos_of_mem hmem)) with
      ⟨only, honly⟩
    rw [honly] at hmem ⊢
    rw [List.mem_singleton.1 hmem]
  have hmounted : s.mounted ≠ false := fun hgone => by
    have hnil := (h.unmounted hgone).1
    rw [hconnects] at hnil
    cases hnil
  have hk : k = 0 := by
    have hlt := (List.getElem?_eq_some_iff.1 hattempt).1
    rw [hconnects] at hlt
    simpa using hlt
  have horder := h.order
  rw [hconnects, hintervals, List.append_nil] at horder
  subst hk
  cases res with
  | ok _ =>
      exact
        { timers := by simp [hintervals]
          polling := rfl
          guard := by
            have hguard := h.guard
            simpa [hconnects] using hguard
          one := by simp [hconnects, hintervals]
          order := by simp [hconnects, hintervals, horder]
          unmounted := fun hgone => absurd hgone hmounted }
  | error message =>
      exact
        { timers := h.timers
          polling := h.polling
          guard := by simp [hconnects, hpoll]
          one := by simp [hconnects, hintervals]
          order := by simp [hconnects, hintervals, horder]
          unmounted := fun hgone => absurd hgone hmounted }

theorem single_hear {s : ConnectFlow} {interval : ℕ} {info : GDriveAuthInfo} {late : Bool}
    (h : Single s) (hfinal : isFinal info = true → s.pollRef = some interval) :
    Single (s.hear interval info late) := by
  have hstop : ∀ ending, s.pollRef = some interval →
      Single { s.stopPolling with ends := s.ends ++ [(interval, ending)] } := by
    intro ending hpoll
    refine single_stop h (connects_eq_nil h hpoll) ?_
    rw [hpoll, List.map_append]
    rfl
  have hlate : Single (if late then { s with showFallback := true } else s) := by
    split
    case isTrue =>
        exact single_same h rfl rfl rfl rfl rfl rfl rfl rfl
    case isFalse =>
        exact h
  simp only [hear]
  cases hstate : info.state with
  | idle =>
      exact hlate
  | pending =>
      exact hlate
  | completed =>
      have hpoll := hfinal (by rw [isFinal, hstate]; rfl)
      exact single_same (hstop .done hpoll) rfl rfl rfl rfl rfl rfl rfl rfl
  | failed =>
      have hpoll := hfinal (by rw [isFinal, hstate]; rfl)
      exact single_same (hstop _ hpoll) rfl rfl rfl rfl rfl rfl rfl rfl

theorem single_step {s s' : ConnectFlow} {e : ConnectEvent} (h : Single s) (hprompt : Prompt s e)
    (hs : s.step e = some s') : Single s' := by
  cases e with
  | connect =>
      simp only [step] at hs
      split at hs
      case isFalse =>
          cases hs
      case isTrue hshown =>
          split at hs
          case isTrue =>
              cases hs
              exact h
          case isFalse hfree =>
              cases hs
              exact single_connect h (Bool.and_eq_true_iff.1 hshown).1
                (Bool.not_eq_true _ ▸ hfree)
  | connects k res blocked =>
      exact single_connects h hs
  | fires interval =>
      rcases Option.ite_some_none_eq_some.1 hs with ⟨_, rfl⟩
      exact single_same h rfl rfl rfl rfl rfl rfl rfl rfl
  | answers k res late =>
      rcases Option.map_eq_some_iff.1 hs with ⟨interval, hasked, rfl⟩
      have hsame : Single { s with asked := s.asked.eraseIdx k } :=
        single_same h rfl rfl rfl rfl rfl rfl rfl rfl
      cases res with
      | ok info =>
          exact single_hear hsame fun hfinal => (hprompt hfinal).symm.trans hasked
      | error message =>
          exact hsame
  | cancel =>
      rcases Option.ite_some_none_eq_some.1 hs with ⟨hshown, rfl⟩
      rw [Bool.and_eq_true, h.polling] at hshown
      rcases Option.isSome_iff_exists.1 hshown.2 with ⟨interval, hpoll⟩
      have hstop := single_stop h (connects_eq_nil h hpoll) (map_stoppedEnds s)
      exact single_same hstop rfl rfl rfl rfl rfl rfl rfl rfl
  | types callbackUrl =>
      rcases Option.ite_some_none_eq_some.1 hs with ⟨_, rfl⟩
      exact single_same h rfl rfl rfl rfl rfl rfl rfl rfl
  | forward =>
      rcases Option.ite_some_none_eq_some.1 hs with ⟨_, rfl⟩
      exact single_same h rfl rfl rfl rfl rfl rfl rfl rfl
  | forwards res =>
      simp only [step] at hs
      split at hs
      case isTrue =>
          cases res <;> cases hs <;> exact single_same h rfl rfl rfl rfl rfl rfl rfl rfl
      case isFalse =>
          cases hs
  | unmounts =>
      rcases Option.ite_some_none_eq_some.1 hs with ⟨_, rfl⟩
      have hstop := single_stop h hprompt (map_stoppedEnds s)
      exact { hstop with unmounted := fun _ => ⟨hprompt, hstop.timers⟩ }

end ConnectFlow

theorem reachable_single {s : ConnectFlow}
    (h : connectFlow.ReachableUnder Prompt (fun s => s = {}) s) : Single s := by
  refine h.invariant ?_ fun _ _ _ hsingle hprompt hstep =>
    ConnectFlow.single_step hsingle hprompt hstep
  rintro _ rfl
  exact ConnectFlow.single_initial

/-! ## An answer that comes too late -/

/-- The first attempt is cancelled, and the second one is completed. -/
def promptRun : List ConnectEvent :=
  [.connect, .connects 0 (.ok ()) true, .fires 0, .cancel, .connect, .connects 0 (.ok ()) false,
    .fires 1, .answers 1 (.ok { state := .completed }) false]

theorem reachable_single_completed : ∃ s,
    connectFlow.run {} promptRun = some s ∧ s.ends = [(0, .stopped), (1, .done)] ∧ Single s := by
  obtain ⟨s, hs, hends⟩ : ∃ s, connectFlow.run {} promptRun = some s ∧
      s.ends = [(0, .stopped), (1, .done)] :=
    ⟨_, rfl, rfl⟩
  have hmeets : connectFlow.Meets Prompt {} promptRun := by
    decide
  exact ⟨s, hs, hends, reachable_single (.run (.init rfl) hmeets hs)⟩

/-- The answer to the first attempt comes while the second one begins. -/
def staleRun : List ConnectEvent :=
  [.connect, .connects 0 (.ok ()) false, .fires 0, .cancel, .connect,
    .answers 0 (.ok { state := .completed }) false, .connect, .connects 0 (.ok ()) false,
    .connects 0 (.ok ()) false, .cancel]

/-- The button is shown again, and an interval is left that nothing clears. -/
theorem stale_leaks : ∃ s,
    connectFlow.run {} staleRun = some s ∧ s.polling = false ∧ s.pollRef = none ∧
      s.intervals = [1] := by
  refine ⟨_, rfl, ?_⟩
  decide

end Webapp
end SignalKBackup
