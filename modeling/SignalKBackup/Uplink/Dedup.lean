import SignalKBackup.Uplink.Ledger

/-!
# Dedup — a skipped send and the state the target really has

A send is skipped when `last` names the target and the state.  `Truthful` says what that skip
relies on: outside a put, the state `last` names is the one the target has stored.

`send` leaves `last` alone when `putUplinkState` rejects, and a rejected request may have been
applied.  So `last` can go on naming the state from before a change the target has taken, and the
change back is then skipped (`reachable_not_truthful`).  `Confirmed` is the step condition under
which this does not happen.
-/

namespace SignalKBackup
namespace Uplink

open Lib

variable {T : Type}

/-- With no put in flight, the target `last` names has the state `last` names. -/
def Truthful (s : World T) : Prop :=
  (∀ f ∈ s.flights, f.isPutting = false) → ∀ t st, s.last = some (t, st) → s.stored t = some st

/-- No request that was applied is rejected, and no rejected one is applied, against what `last`
records or a put that is about to be recorded says about its target. -/
def Confirmed (s : World T) : Action T → Prop
  | .settle i false => ∀ t g st, s.flights[i]? = some (.putting t g st true) →
      ∀ st', s.last = some (t, st') → st' = st
  | .applyLate i => ∀ t st, s.abandoned[i]? = some (t, st) →
      (∀ st', s.last = some (t, st') → st' = st) ∧
        ∀ g st', Flight.putting t g st' true ∈ s.flights → st' = st
  | _ => True

/-- Only applied puts count: `last` and the stored states agree about every other target. -/
def Recorded (s : World T) : Prop :=
  Ledger id s.stored s

theorem Recorded.truthful {s : World T} (h : Recorded s) : Truthful s := by
  intro hidle t st hlast
  refine h.last t st hlast ?_
  intro g st' a _ hmem
  cases hidle _ hmem

variable [DecidableEq T]

theorem recorded_step {b : Bool} {s s' : World T} {a : Action T} (h : Recorded s)
    (hone : OneFlight s) (hover : Overtaken s) (hconf : Confirmed s a) (hs : Step b s a s') :
    Recorded s' := by
  rcases ledger_step rfl h hone hover hs with
    ⟨hledger, _, hstored⟩ | ⟨t, g, st, hflights, _, rfl⟩ | ⟨t, g, st, _, hflights, rfl⟩ |
      ⟨t, g, st, applied, rfl, hflights, rfl⟩ | ⟨i, t, st, rfl, haband, rfl⟩
  · rw [Recorded, hstored]
    exact hledger
  · -- the put is sent: nothing is applied yet
    constructor
    · intro t' g' st' a' hc hmem
      simp only [List.mem_singleton, Flight.putting.injEq] at hmem
      rcases hmem with ⟨_, _, _, rfl⟩
      cases hc
    · intro t' st' hlast _
      exact h.last t' st' hlast (by simp [hflights])
  · -- the put is applied: it now counts, and `last` is not asked about its target
    constructor
    · intro t' g' st' a' _ hmem
      simp only [List.mem_singleton, Flight.putting.injEq] at hmem
      rcases hmem with ⟨rfl, _, rfl, _⟩
      simp
    · intro t' st' hlast hidle
      have hne : t' ≠ t := by
        intro heq
        exact hidle g st true rfl (by simp [heq])
      have hkept : Function.update s.stored t (some st) t' = s.stored t' :=
        Function.update_of_ne hne _ _
      refine hkept.trans (h.last t' st' hlast ?_)
      intro g' st'' a' hc hmem
      simp only [hflights, List.mem_singleton, Flight.putting.injEq] at hmem
      rcases hmem with ⟨_, _, _, rfl⟩
      cases hc
  · -- the put is rejected: `last` is asked about its target again
    constructor
    · intro t' g' st' a' _ hmem
      simp at hmem
    · intro t' st' hlast _
      cases applied with
      | false =>
          refine h.last t' st' hlast ?_
          intro g' st'' a' hc hmem
          simp only [hflights, List.mem_singleton, Flight.putting.injEq] at hmem
          rcases hmem with ⟨_, _, _, rfl⟩
          cases hc
      | true =>
          -- the target did apply it, so `Confirmed` has to say that `last` agrees
          have hput : s.stored t = some st := h.put t g st true rfl (by simp [hflights])
          by_cases hne : t' = t
          · subst hne
            have hsame : st' = st := hconf t' g st (by simp [hflights]) st' hlast
            exact hsame ▸ hput
          · refine h.last t' st' hlast ?_
            intro g' st'' a' _ hmem
            simp only [hflights, List.mem_singleton, Flight.putting.injEq] at hmem
            exact hne hmem.1
  · -- a request that was rejected before is applied now
    rcases hconf t st haband with ⟨hagree, hput⟩
    constructor
    · intro t' g' st' a' hc hmem
      cases a' with
      | false =>
          cases hc
      | true =>
          by_cases hne : t' = t
          · subst hne
            have hsame := hput g' st' hmem
            simp [hsame]
          · have hkept : Function.update s.stored t (some st) t' = s.stored t' :=
              Function.update_of_ne hne _ _
            exact hkept.trans (h.put t' g' st' true rfl hmem)
    · intro t' st' hlast hidle
      by_cases hne : t' = t
      · subst hne
        have hsame := hagree st' hlast
        simp [hsame]
      · have hkept : Function.update s.stored t (some st) t' = s.stored t' :=
          Function.update_of_ne hne _ _
        exact hkept.trans (h.last t' st' hlast hidle)

/-- The condition is needed: once an applied put is rejected while `last` names another state,
`last` is wrong as soon as the put has ended. -/
theorem Recorded.not_truthful {b : Bool} {s s' : World T} (h : Recorded s) (hone : OneFlight s)
    {i g : Nat} {t : T} {st st' : UplinkState} (hf : s.flights[i]? = some (.putting t g st true))
    (hlast : s.last = some (t, st')) (hne : st' ≠ st)
    (hs : step b s (.settle i false) = some s') : ¬ Truthful s' := by
  rcases hone.eq_of_get hf with ⟨rfl, hflights, _⟩
  have hput : s.stored t = some st := h.put t g st true rfl (by simp [hflights])
  have hs' : s' = { s with flights := [.sent] } := by
    simpa [step, hflights] using hs.symm
  intro htruth
  have hidle : ∀ f ∈ s'.flights, f.isPutting = false := by
    simp [hs', Flight.isPutting]
  -- `last` still names the state from before the put
  have hold : s'.stored t = some st' := htruth hidle t st' (by rw [hs']; exact hlast)
  rw [hs'] at hold
  have hsame : some st = some st' := hput.symm.trans hold
  exact hne (Option.some.inj hsame).symm

/-! ## Runs -/

/-- In every run whose steps are all `Confirmed`, the target that `last` names has the state that
`last` names, in every state with no put in flight. -/
theorem reachable_truthful (b : Bool) (s : World T)
    (h : (machine b).ReachableUnder Confirmed Fresh s) : Truthful s := by
  have hinv : OneFlight s ∧ Overtaken s ∧ Recorded s := by
    refine h.invariant (P := fun s => OneFlight s ∧ Overtaken s ∧ Recorded s) ?_ ?_
    · intro s hfresh
      have hone := hfresh.oneFlight
      rcases hfresh with ⟨target, now, stored, rfl⟩
      exact ⟨hone, by simp [Overtaken], ⟨by simp, by simp⟩⟩
    · rintro s a s' ⟨hone, hover, hrec⟩ hconf hs
      have hstep := Step.of_step hs
      exact ⟨oneFlight_step hone hstep, overtaken_step hover hone hstep,
        recorded_step hrec hone hover hconf hstep⟩
  exact hinv.2.2.truthful

/-- A state is published, sent and confirmed. -/
def reported (l : Link) : List (Action Nat) :=
  [.delta (linkDelta l), .resume 0, .resume 0, .apply 0, .settle 0 true, .resume 0, .resume 0,
    .resume 0]

theorem reachable_truthful_metered :
    ∃ s, (machine false).run unstarted (.start [] :: reported .metered) = some s ∧
      s.stored 0 = some (some .metered) := by
  obtain ⟨s, hs⟩ : ∃ s, (machine false).run unstarted (.start [] :: reported .metered) = some s :=
    ⟨_, rfl⟩
  have hreach : (machine false).ReachableUnder Confirmed Fresh s :=
    Machine.ReachableUnder.run (.init ⟨_, _, _, rfl⟩) (.of_forall (by simp [reported, Confirmed]) _) hs
  have htruth := reachable_truthful false s hreach
  cases hs
  exact ⟨_, rfl, htruth (List.forall_mem_nil _) 0 _ rfl⟩

/-- `online` is applied and then rejected, and the link is metered again. -/
def flipBack : List (Action Nat) :=
  [.delta (linkDelta .online), .resume 0, .apply 0, .settle 0 false, .resume 0,
    .delta (linkDelta .metered), .resume 0, .resume 0]

theorem reachable_not_truthful :
    ¬ ∀ (b : Bool) (s : World Nat), (machine b).Reachable Fresh s → Truthful s := by
  intro htruthful
  obtain ⟨s, hs⟩ : ∃ s, (machine false).run unstarted
      ((.start [] :: reported .metered) ++ flipBack) = some s := ⟨_, rfl⟩
  have hreach : (machine false).Reachable Fresh s :=
    Machine.Reachable.run (.init ⟨_, _, _, rfl⟩) hs
  have htruth := htruthful false s hreach
  cases hs
  have hmetered := htruth (List.forall_mem_nil _) 0 (some .metered) rfl
  cases hmetered

end Uplink
end SignalKBackup
