import SignalKBackup.Uplink.Ledger

/-!
# Delivery — no state change is lost while sends succeed

Two invariants carry the result.

* `Accounted`: outside a put to it, `last` names the state that was last put to its target.
* `UpToDate`: unless another call is queued, the flight in progress is about to deliver the
  reporter's value, and without a flight the value has been delivered.

Every change of the value, the target, the wait or the generation is followed by `report()`, and
`report()` makes `UpToDate` true again whatever came before it (`upToDate_report`).
-/

namespace SignalKBackup
namespace Uplink

open Lib

variable {T : Type}

/-! ## The record of the last put -/

/-- Every put counts: `last` and `lastPut` agree, except about a target that is being put to. -/
def Accounted (s : World T) : Prop :=
  Ledger (fun _ => true) s.lastPut s

/-- The step condition of a run in which every `putUplinkState` succeeds. -/
def Succeeds (_ : World T) (a : Action T) : Prop :=
  ∀ i, a ≠ .settle i false

variable [DecidableEq T]

theorem accounted_step {b : Bool} {s s' : World T} {a : Action T} (h : Accounted s)
    (hone : OneFlight s) (hover : Overtaken s) (hok : Succeeds s a) (hs : Step b s a s') :
    Accounted s' := by
  rcases ledger_step rfl h hone hover hs with
    ⟨hledger, hput, _⟩ | ⟨t, g, st, hflights, _, rfl⟩ | ⟨t, g, st, _, hflights, rfl⟩ |
      ⟨t, g, st, applied, rfl, _, _⟩ | ⟨i, t, st, _, _, rfl⟩
  · rw [Accounted, hput]
    exact hledger
  · constructor
    · intro t' g' st' a' _ hmem
      simp only [List.mem_singleton, Flight.putting.injEq] at hmem
      rcases hmem with ⟨rfl, _, rfl, _⟩
      simp
    · intro t' st' hlast hidle
      -- `last` speaks of another target while this one is put to
      have hne : t' ≠ t := by
        intro heq
        exact hidle g st false rfl (by simp [heq])
      have hkept : Function.update s.lastPut t (some st) t' = s.lastPut t' :=
        Function.update_of_ne hne _ _
      exact hkept.trans (h.last t' st' hlast (by simp [hflights]))
  · constructor
    · intro t' g' st' a' _ hmem
      simp only [List.mem_singleton, Flight.putting.injEq] at hmem
      rcases hmem with ⟨rfl, _, rfl, _⟩
      exact h.put _ g _ false rfl (by simp [hflights])
    · intro t' st' hlast hidle
      refine h.last t' st' hlast ?_
      intro g' st'' a' _ hmem
      simp only [hflights, List.mem_singleton, Flight.putting.injEq] at hmem
      rcases hmem with ⟨rfl, rfl, rfl, _⟩
      exact hidle g' st'' true rfl (by simp)
  · -- a rejected put is excluded
    exact absurd rfl (hok 0)
  · exact h.congr rfl (Or.inr rfl)

/-! ## The value is delivered -/

/-- The target has the state of the reporter's value, once it is known or the wait is over. -/
def Delivered (s : World T) : Prop :=
  ∀ t, s.target = some t → ((toUplinkState s.value).isSome ∨ s.waitTimer = none) →
    s.lastPut t = some (toUplinkState s.value)

/-- A flight that will deliver the reporter's value, if nothing changes before it ends. -/
def Flight.UpToDate (s : World T) : Flight T → Prop
  | .listing t _ => s.target = some t
  | .asked t _ _ => s.target = some t
  | .decided t _ (.state st) => s.target = some t ∧ st = toUplinkState s.value
  | .decided _ _ .waiting => toUplinkState s.value = none ∧ s.waitTimer.isSome
  | .putting t _ st _ => s.target = some t ∧ st = toUplinkState s.value
  | .sent => Delivered s

structure UpToDate (s : World T) : Prop where
  idle : Running s → s.flights = [] → Delivered s
  flight : Running s → s.queued = false → ∀ f ∈ s.flights, f.UpToDate s

omit [DecidableEq T] in
theorem UpToDate.of_stopped {s : World T} (h : s.resendTimer = none) : UpToDate s := by
  constructor
  · intro hrun
    simp [Running, h] at hrun
  · intro hrun
    simp [Running, h] at hrun

omit [DecidableEq T] in
/-- A step that touches none of the fields the obligations read keeps them. -/
theorem UpToDate.congr {s s' : World T} (h : UpToDate s) (hf : s'.flights = s.flights)
    (hr : s'.resendTimer = s.resendTimer) (hq : s'.queued = s.queued)
    (ht : s'.target = s.target) (hv : s'.value = s.value) (hw : s'.waitTimer = s.waitTimer)
    (hp : s'.lastPut = s.lastPut) : UpToDate s' := by
  constructor
  · intro hrun hnil t htgt hknown
    rw [hp, hv]
    rw [hv, hw] at hknown
    exact h.idle (by simpa [Running, hr] using hrun) (hf ▸ hnil) t (ht ▸ htgt) hknown
  · intro hrun hqueued f hmem
    have hold := h.flight (by simpa [Running, hr] using hrun) (hq ▸ hqueued) f (hf ▸ hmem)
    cases f with
    | listing t g =>
        exact ht.trans hold
    | asked t g enabled =>
        exact ht.trans hold
    | decided t g r =>
        cases r with
        | state st =>
            exact ⟨ht.trans hold.1, hold.2.trans (by rw [hv])⟩
        | waiting =>
            exact ⟨by rw [hv]; exact hold.1, by rw [hw]; exact hold.2⟩
    | putting t g st a =>
        exact ⟨ht.trans hold.1, hold.2.trans (by rw [hv])⟩
    | sent =>
        intro t htgt hknown
        rw [hp, hv]
        rw [hv, hw] at hknown
        exact hold t (ht ▸ htgt) hknown

omit [DecidableEq T] in
/-- The flight that replaces the one a step looked up has its obligation from it. -/
theorem UpToDate.move {s s' : World T} (h : UpToDate s) {f k : Flight T}
    (hone : s.flights = [f]) (hk : s'.flights = [k]) (hr : s'.resendTimer = s.resendTimer)
    (hq : s'.queued = s.queued) (hmove : Running s → f.UpToDate s → k.UpToDate s') :
    UpToDate s' := by
  constructor
  · intro _ hnil
    simp [hk] at hnil
  · intro hrun hqueued k' hmem
    rw [hk, List.mem_singleton] at hmem
    subst hmem
    have hrun' : Running s := by simpa [Running, hr] using hrun
    exact hmove hrun' (h.flight hrun' (hq ▸ hqueued) f (by simp [hone]))

omit [DecidableEq T] in
/-- `report()` puts the reporter up to date, whatever changed before the call. -/
theorem upToDate_report {s : World T} (hone : OneFlight s) (b : Bool) : UpToDate (report b s) := by
  rcases report_cases hone b with ⟨hnil, htgt, hr⟩ | ⟨f, hf, hr⟩ | ⟨t, hnil, hq, htgt, hr⟩
  · -- no target: nothing to deliver to
    rw [hr]
    constructor
    · intro _ _ t ht _
      simp [htgt] at ht
    · intro _ _ f hmem
      simp [hnil] at hmem
  · rw [hr]
    constructor
    · intro _ hnil
      simp [hf] at hnil
    · intro _ hqueued
      -- the call is queued, and the report in progress owes nothing
      cases hqueued
  · rw [hr]
    constructor
    · intro _ hnil'
      cases hnil'
    · intro _ _ f hmem
      simp only [List.mem_singleton] at hmem
      subst hmem
      -- the new flight has read the value and the target as they are
      unfold sendHead
      dsimp only
      split
      · exact ⟨htgt, rfl⟩
      · split
        · exact htgt
        · exact htgt

theorem upToDate_sendTail {s : World T} (h : UpToDate s) (hacc : Accounted s) (hone : OneFlight s)
    {i g : Nat} {t : T} {r : CurrentState} (hf : s.flights[i]? = some (.decided t g r)) :
    UpToDate (sendTail s i t g r) := by
  rcases sendTail_cases hone hf with ⟨hflights, ⟨rfl, ht⟩ | ⟨st, rfl, hlast, ht⟩ | ⟨st, rfl, _, ht⟩⟩
  · rw [ht]
    -- waiting: the value is unknown and the wait is on
    refine h.move hflights rfl rfl rfl ?_
    rintro _ ⟨hunknown, hwait⟩ t' _ (hknown | hover)
    · simp [hunknown] at hknown
    · have hwait' : s.waitTimer = none := hover
      simp [hwait'] at hwait
  · rw [ht]
    refine h.move hflights rfl rfl rfl ?_
    -- skipped: `last` names this state, so it was put to this target last
    rintro _ ⟨htgt, rfl⟩ t' htgt' _
    have htt : t = t' := Option.some.inj (htgt.symm.trans htgt')
    subst htt
    exact hacc.last t _ hlast (by simp [hflights])
  · rw [ht]
    exact h.move hflights rfl rfl rfl fun _ hold => hold

omit [DecidableEq T] in
theorem upToDate_resolved {s s' : World T} (h : UpToDate s) (hacc : Accounted s) {g : Nat} {t : T}
    {st : UplinkState} {a : Bool} (hflights : s.flights = [.putting t g st a])
    (hf' : s'.flights = [.sent]) (hr : s'.resendTimer = s.resendTimer)
    (hq : s'.queued = s.queued) (ht : s'.target = s.target) (hv : s'.value = s.value)
    (hp : s'.lastPut = s.lastPut) : UpToDate s' := by
  refine h.move hflights hf' hr hq ?_
  rintro _ ⟨htgt, rfl⟩ t' htgt' _
  have htt : t = t' := Option.some.inj ((htgt.symm.trans ht.symm).trans htgt')
  subst htt
  rw [hp, hv]
  exact hacc.put t g _ a rfl (by simp [hflights])

theorem upToDate_step {b : Bool} {s s' : World T} {a : Action T} (h : UpToDate s)
    (hacc : Accounted s) (hone : OneFlight s) (hok : Succeeds s a) (hs : Step b s a s') :
    UpToDate s' := by
  cases hs with
  -- every change the reporter hears of ends in a `report()`
  | start cached =>
      exact upToDate_report (keeps_foldDeltas (fun _ v hs => hs.publish v)
        (fun _ hs => hs.report b) cached hone.opened) b
  | stop =>
      exact UpToDate.of_stopped rfl
  | report =>
      exact upToDate_report hone b
  | retarget t =>
      refine upToDate_report ?_ b
      exact hone.congr rfl rfl rfl
  | retargetStart t cached =>
      refine upToDate_report (keeps_foldDeltas (fun _ v hs => hs.publish v)
        (fun _ hs => hs.report b) cached (OneFlight.opened ?_)) b
      exact hone.congr rfl rfl rfl
  | retargetStop t =>
      exact UpToDate.of_stopped rfl
  | delta d _ =>
      exact upToDate_report (keeps_publishAll (fun _ v hs => hs.publish v) (published d) hone) b
  | tick ms =>
      exact h.congr rfl rfl rfl rfl rfl rfl rfl
  | waitFires _ _ =>
      refine upToDate_report ?_ b
      exact hone.congr rfl rfl rfl
  | resendFires _ _ =>
      refine upToDate_report ?_ b
      exact hone.congr rfl rfl rfl
  | @pluginsList i g t answer hf =>
      rcases hone.eq_of_get hf with ⟨rfl, hflights, _⟩
      exact h.move hflights (k := .asked t g (publisherEnabled answer)) (by simp [hflights]) rfl rfl
        fun _ hold => hold
  -- the value is read again after the plugin list
  | @decide i g t enabled hf =>
      rcases hone.eq_of_get hf with ⟨rfl, hflights, _⟩
      refine h.move hflights (k := .decided t g (decide' s enabled)) (by simp [hflights]) rfl rfl ?_
      intro _ htgt
      unfold decide'
      dsimp only
      split
      · exact ⟨htgt, rfl⟩
      · rename_i hunknown
        have hnone : toUplinkState s.value = none := by
          cases hv : toUplinkState s.value with
          | none =>
              rfl
          | some l =>
              simp [hv] at hunknown
        split
        · rename_i hwait
          exact ⟨hnone, hwait⟩
        · exact ⟨htgt, hnone.symm⟩
  | sendTail hf =>
      exact upToDate_sendTail h hacc hone hf
  | reportTail hf =>
      rcases reportTail_cases hone b hf with ⟨hflights, ⟨_, ht⟩ | ⟨hq, ht⟩⟩
      · -- the queued call runs and reads everything anew
        rw [ht]
        refine upToDate_report ?_ b
        exact Or.inl ⟨rfl, rfl, rfl⟩
      · rw [ht]
        constructor
        · intro hrun _
          exact h.flight hrun hq .sent (by simp [hflights])
        · intro _ _ f hmem
          cases hmem
  | @apply i g t st hf =>
      rcases hone.eq_of_get hf with ⟨rfl, hflights, _⟩
      exact h.move hflights (k := .putting t g st true) (by simp [hflights]) rfl rfl
        fun _ hold => hold
  | @resolved i g t st hf =>
      rcases hone.eq_of_get hf with ⟨rfl, hflights, _⟩
      unfold recordPut
      split
      · exact upToDate_resolved h hacc hflights (by simp [hflights]) rfl rfl rfl rfl rfl
      · exact upToDate_resolved h hacc hflights (by simp [hflights]) rfl rfl rfl rfl rfl
  | rejected hf =>
      exact absurd rfl (hok _)
  | applyLate _ =>
      exact h.congr rfl rfl rfl rfl rfl rfl rfl

/-! ## The value is what was published last -/

/-- From `start()` to the next `stop()`, `value` is the last value published. -/
def Tracks (s : World T) : Prop :=
  Running s → s.value = lastPublished s

omit [DecidableEq T] in
theorem Tracks.congr {s s' : World T} (h : Tracks s) (hr : s'.resendTimer = s.resendTimer)
    (hv : s'.value = s.value) (hh : s'.history = s.history) : Tracks s' := by
  intro hrun
  have hold := h (by simpa [Running, hr] using hrun)
  simpa [lastPublished, hv, hh] using hold

omit [DecidableEq T] in
theorem Tracks.publish (s : World T) (v : Value) : Tracks (publish s v) := by
  intro _
  by_cases hv : v = .null
  · simp [Uplink.publish, startWait, lastPublished, hv]
  · simp [Uplink.publish, lastPublished, hv]

omit [DecidableEq T] in
theorem report_tracks {s : World T} (b : Bool) (h : Tracks s) : Tracks (report b s) := by
  unfold report
  split
  · exact h.congr rfl rfl rfl
  · split
    · exact h
    · exact h.congr rfl rfl rfl

omit [DecidableEq T] in
theorem start_tracks (b : Bool) (cached : List Delta) (s : World T) :
    Tracks (start b cached s) := by
  refine keeps_start (fun s v _ => Tracks.publish s v) (fun _ hs => report_tracks b hs) cached ?_
  intro _
  rfl

theorem tracks_step {b : Bool} {s s' : World T} {a : Action T} (h : Tracks s)
    (hs : Step b s a s') : Tracks s' := by
  cases hs with
  | start cached =>
      exact start_tracks b cached s
  | stop =>
      intro hrun
      cases hrun
  | report =>
      exact report_tracks b h
  | retarget t =>
      refine report_tracks b ?_
      exact h.congr rfl rfl rfl
  | retargetStart t cached =>
      exact start_tracks b cached _
  | retargetStop t =>
      intro hrun
      cases hrun
  | delta d _ =>
      refine report_tracks b ?_
      exact keeps_publishAll (fun s v _ => Tracks.publish s v) (published d) h
  | tick ms =>
      exact h.congr rfl rfl rfl
  | waitFires _ _ =>
      refine report_tracks b ?_
      exact h.congr rfl rfl rfl
  | resendFires hdue _ =>
      -- a running reporter goes on running with a new interval
      refine report_tracks b ?_
      intro _
      exact h (by simp [Running, hdue])
  | pluginsList answer hf =>
      exact h.congr rfl rfl rfl
  | decide hf =>
      exact h.congr rfl rfl rfl
  | @sendTail i g t r hf =>
      unfold sendTail
      split
      · exact h.congr rfl rfl rfl
      · split
        · exact h.congr rfl rfl rfl
        · exact h.congr rfl rfl rfl
  | reportTail hf =>
      unfold reportTail
      dsimp only
      split
      · refine report_tracks b ?_
        exact h.congr rfl rfl rfl
      · exact h.congr rfl rfl rfl
  | apply hf =>
      exact h.congr rfl rfl rfl
  | resolved hf =>
      unfold recordPut
      split
      · exact h.congr rfl rfl rfl
      · exact h.congr rfl rfl rfl
  | rejected hf =>
      exact h.congr rfl rfl rfl
  | applyLate _ =>
      exact h.congr rfl rfl rfl

/-! ## Runs -/

/-- What every run whose sends succeed keeps. -/
structure Reliable (s : World T) : Prop where
  one : OneFlight s
  overtaken : Overtaken s
  accounted : Accounted s
  upToDate : UpToDate s
  tracks : Tracks s

omit [DecidableEq T] in
theorem Fresh.reliable {s : World T} (h : Fresh s) : Reliable s := by
  have hone := h.oneFlight
  rcases h with ⟨target, now, stored, rfl⟩
  refine ⟨hone, by simp [Overtaken], ⟨by simp, by simp⟩, UpToDate.of_stopped rfl, ?_⟩
  intro hrun
  cases hrun

theorem reliable_of_reachable {b : Bool} {s : World T}
    (h : (machine b).ReachableUnder Succeeds Fresh s) : Reliable s := by
  refine h.invariant (fun _ hfresh => hfresh.reliable) ?_
  intro s a s' hrel hok hs
  have hstep := Step.of_step hs
  exact
    { one := oneFlight_step hrel.one hstep
      overtaken := overtaken_step hrel.overtaken hrel.one hstep
      accounted := accounted_step hrel.accounted hrel.one hrel.overtaken hok hstep
      upToDate := upToDate_step hrel.upToDate hrel.accounted hrel.one hok hstep
      tracks := tracks_step hrel.tracks hstep }

/-- In every run whose sends succeed at most one put is in flight, and a running reporter with no
report in progress has delivered the last published value to its target, once that value is a
known state or the wait for one is over. -/
theorem reachable_delivers (b : Bool) (s : World T)
    (h : (machine b).ReachableUnder Succeeds Fresh s) :
    (s.flights.filter Flight.isPutting).length ≤ 1 ∧
      (Running s → s.flights = [] → ∀ t, s.target = some t →
        ((toUplinkState (lastPublished s)).isSome ∨ s.waitTimer = none) →
          s.lastPut t = some (toUplinkState (lastPublished s))) := by
  have hrel := reliable_of_reachable h
  refine ⟨hrel.one.putting_le_one, ?_⟩
  intro hrun hidle t htgt hknown
  -- `value` is the last published one, which the invariant speaks of
  rw [← hrel.tracks hrun] at hknown ⊢
  exact hrel.upToDate.idle hrun hidle t htgt hknown

/-- The first state arrives while the reporter waits for it. -/
def onlineRun : List (Action Nat) :=
  [.start [], .delta (linkDelta .online), .resume 0, .resume 0, .apply 0, .settle 0 true,
    .resume 0, .resume 0, .resume 0]

theorem reachable_delivers_online :
    ∃ s, (machine false).run unstarted onlineRun = some s ∧ s.lastPut 0 = some (some .online) := by
  obtain ⟨s, hs⟩ : ∃ s, (machine false).run unstarted onlineRun = some s := ⟨_, rfl⟩
  have hfresh : Fresh unstarted := ⟨_, _, _, rfl⟩
  have hreach : (machine false).ReachableUnder Succeeds Fresh s :=
    Machine.ReachableUnder.run (.init hfresh) (.of_forall (by simp [onlineRun, Succeeds]) _) hs
  have hdelivers := (reachable_delivers false s hreach).2
  cases hs
  exact ⟨_, rfl, hdelivers rfl rfl 0 rfl (Or.inl rfl)⟩

end Uplink
end SignalKBackup
