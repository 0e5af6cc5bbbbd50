import SignalKBackup.Plugin.Lifecycle

/-!
# Rollback — what an install leaves when its target does not come up

An install goes back to `resolvedAutoTag ?? BACKUP_SERVER_VERSION`, mapped through `resolveTag`; what
the container ran is never read.  `install_restores_iff`: the rollback puts everything back for
every outcome exactly when the container ran what "auto" makes of a tag that was resolved.
-/

namespace SignalKBackup
namespace Plugin

open Lib
open Config

/-! ## An install by itself -/

/-- The rest of an install, by how its awaited operations settle. -/
def runInstall (i : Install) : State × Next → List Settle → Option (State × InstallResult)
  | (s, .done result), [] => some (s, result)
  | (s, .await w), a :: as => (installStep s i w a).bind fun r => runInstall i r as
  -- nothing is awaited any more
  | (_, .done _), _ :: _ => none
  | (_, .await _), [] => none

/-- `installServerRelease`, in a lifecycle that is not superseded. -/
def State.install (s : State) (target : String) (as : List Settle) : Option (State × InstallResult) :=
  let (i, r) := s.installServerRelease target s.lifecycleGeneration
  runInstall i r as

/-- What "auto" makes of a resolved tag. -/
def autoTag (floor tag : String) : String :=
  resolveImageTag "auto" (some tag) floor

theorem autoTag_of_concrete {floor tag : String} (h : isConcreteSemver tag = true) :
    autoTag floor tag = tag := by
  simp [autoTag, resolveImageTag, h]

def Install.tag (i : Install) : Swap → String
  | .target => i.target
  | .previous => i.previous

/-! ## The invariant of an install -/

/-- The container has been recreated for a swap. -/
structure Swapped (floor : String) (s : State) (tag : String) : Prop where
  resolved : s.resolvedAutoTag = some tag
  container : s.container = some (autoTag floor tag)

/-- Nothing has been written to the settings yet. -/
structure Unsaved (s₀ s : State) : Prop where
  floor : s.floor = s₀.floor
  generation : s.lifecycleGeneration = s₀.lifecycleGeneration
  settings : s.settings = s₀.settings
  saves : s.saves = s₀.saves

/-- The options an install saves. -/
def Names (options : Settings) (target : String) : Prop :=
  options.imageTag = "auto" ∧ options.resolvedImageTag = target

/-- The state while the install waits. -/
def Underway (s₀ : State) (i : Install) (s : State) : InstallAwait → Prop
  | .recreate swap image =>
      Unsaved s₀ s ∧ s.resolvedAutoTag = some (i.tag swap) ∧ image = autoTag s₀.floor (i.tag swap)
  | .address swap => Unsaved s₀ s ∧ Swapped s₀.floor s (i.tag swap)
  | .health swap _ => Unsaved s₀ s ∧ Swapped s₀.floor s (i.tag swap)
  | .adopted swap => Unsaved s₀ s ∧ Swapped s₀.floor s (i.tag swap)
  | .save options => Swapped s₀.floor s i.target ∧ Names options i.target

/-- The state after the install, by its result. -/
def Ended (s₀ : State) (i : Install) (s : State) : InstallResult → Prop
  | .installed => Swapped s₀.floor s i.target ∧ ∃ options, s.stored = some options ∧ Names options i.target
  | .backOnPrevious => Unsaved s₀ s ∧ Swapped s₀.floor s i.previous
  | .notBack => True
  | .notSaved => True

def Stays (s₀ : State) (i : Install) : State × Next → Prop
  | (s, .await w) => Underway s₀ i s w
  | (s, .done result) => Ended s₀ i s result

theorem stays_swapFailed {s₀ s : State} {i : Install} (swap : Swap) (h : Unsaved s₀ s) :
    Stays s₀ i (s.swapFailed i swap) := by
  rcases s.swapFailed_cases i swap with hfailed | ⟨_, _, hback⟩
  · rw [hfailed]
    trivial
  · rw [hback]
    refine ⟨⟨h.floor, h.generation, h.settings, h.saves⟩, rfl, ?_⟩
    rw [h.floor]
    rfl

theorem stays_step {s₀ s : State} {i : Install} {w : InstallAwait} {a : Settle} {r : State × Next}
    (hloaded : s₀.settings ≠ none) (h : Underway s₀ i s w) (hs : InstallStep s i w a r) :
    Stays s₀ i r := by
  cases hs with
  | recreated swap image =>
      rcases h with ⟨hunsaved, hresolved, himage⟩
      exact ⟨⟨hunsaved.floor, hunsaved.generation, hunsaved.settings, hunsaved.saves⟩, hresolved,
        congrArg some himage⟩
  | recreateFailed swap image container =>
      rcases h with ⟨hunsaved, _, _⟩
      exact stays_swapFailed swap ⟨hunsaved.floor, hunsaved.generation, hunsaved.settings, hunsaved.saves⟩
  | located swap addr =>
      exact h
  | notLocated swap _ =>
      exact stays_swapFailed swap h.1
  | answered swap addr =>
      rcases h with ⟨hunsaved, hswapped⟩
      rcases s.adoptServerAddress_fields (httpAddress addr) with ⟨_, _, _, _, _, heq⟩
      simp only [Stays]
      rw [heq]
      exact ⟨⟨hunsaved.floor, hunsaved.generation, hunsaved.settings, hunsaved.saves⟩, hswapped.resolved,
        hswapped.container⟩
  | noAnswer swap addr =>
      exact stays_swapFailed swap h.1
  -- the settings are as at the beginning, so there is something to save
  | up =>
      rcases h with ⟨hunsaved, hswapped⟩
      cases hc : s.settings with
      | none =>
          exact absurd (hunsaved.settings.symm.trans hc) hloaded
      | some c =>
          have hsave := State.persistAppliedTag_loaded hc "auto" i.target
          have hcontainer : (s.modifySettings fun c =>
              { c with imageTag := "auto", resolvedImageTag := i.target }).container =
                s.container := by
            unfold State.modifySettings
            split <;> rfl
          simp only [State.installed, hsave]
          exact ⟨⟨rfl, hcontainer.trans hswapped.container⟩, rfl, rfl⟩
  | back =>
      rcases h with ⟨hunsaved, hswapped⟩
      exact ⟨⟨hunsaved.floor, hunsaved.generation, hunsaved.settings, hunsaved.saves⟩, hswapped.resolved,
        hswapped.container⟩
  | saved options =>
      exact ⟨⟨h.1.resolved, h.1.container⟩, options, rfl, h.2⟩
  | saveFailed options =>
      trivial

theorem stays_run {s₀ s' : State} {i : Install} {r : State × Next} {as : List Settle}
    {result : InstallResult} (hloaded : s₀.settings ≠ none) (h : Stays s₀ i r)
    (hrun : runInstall i r as = some (s', result)) : Ended s₀ i s' result := by
  -- on the awaited operations; `Stays` carries what the install has done
  induction as generalizing r with
  | nil =>
      rcases r with ⟨s, w | result'⟩
      · cases hrun
      · cases hrun
        exact h
  | cons a as ih =>
      rcases r with ⟨s, w | result'⟩
      · simp only [runInstall, Option.bind_eq_some_iff] at hrun
        rcases hrun with ⟨r', hstep, hrest⟩
        exact ih (stays_step hloaded h (.of_step hstep)) hrest
      · cases hrun

/-- How an install ends, whatever its operations do. -/
theorem install_ended {s s' : State} {target : String} {as : List Settle} {result : InstallResult}
    (hloaded : s.settings ≠ none) (h : s.install target as = some (s', result)) :
    Ended s { target, previous := s.resolvedAutoTag.getD s.floor
              gen := s.lifecycleGeneration } s' result := by
  simp only [State.install, s.installServerRelease_current] at h
  refine stays_run hloaded ?_ h
  exact ⟨⟨rfl, rfl, rfl, rfl⟩, rfl, rfl⟩

/-! ## What a failed release leaves -/

/-- After a rollback that succeeds, everything is as before the call; after an install that
resolves, everything names the target. -/
def Restores (s : State) (target : String) (s' : State) (result : InstallResult) : Prop :=
  (result = .backOnPrevious →
    s'.container = s.container ∧ s'.resolvedAutoTag = s.resolvedAutoTag ∧
      s'.settings.map Settings.imageTag = s.settings.map Settings.imageTag ∧
        s'.settings.map Settings.resolvedImageTag = s.settings.map Settings.resolvedImageTag ∧
          s'.saves = s.saves) ∧
  (result = .installed →
    s'.container = some target ∧ s'.resolvedAutoTag = some target ∧
      ∃ options, s'.stored = some options ∧ Names options target)

/-- The container runs what "auto" makes of the resolved tag. -/
def OnResolvedTag (s : State) : Prop :=
  ∃ tag, s.resolvedAutoTag = some tag ∧ s.container = some (autoTag s.floor tag)

theorem OnResolvedTag.restores {s s' : State} {target : String} {as : List Settle}
    {result : InstallResult} (h : OnResolvedTag s) (hloaded : s.settings ≠ none)
    (htarget : isConcreteSemver target = true)
    (hrun : s.install target as = some (s', result)) : Restores s target s' result := by
  rcases h with ⟨tag, hresolved, hcontainer⟩
  have hended := install_ended hloaded hrun
  constructor
  · rintro rfl
    rcases hended with ⟨hunsaved, hswapped⟩
    -- the previous version is the resolved tag, and the container comes back on it
    simp only [hresolved, Option.getD_some] at hswapped
    exact ⟨hswapped.container.trans hcontainer.symm, hswapped.resolved.trans hresolved.symm,
      by rw [hunsaved.settings], by rw [hunsaved.settings], hunsaved.saves⟩
  · rintro rfl
    rcases hended with ⟨hswapped, hstored⟩
    have hcontainer' := hswapped.container
    rw [autoTag_of_concrete htarget] at hcontainer'
    exact ⟨hcontainer', hswapped.resolved, hstored⟩

/-- The target does not come up, and the previous version does. -/
def rollbackOutcomes : List Settle :=
  [.recreateFails none, .ok, .address (some "127.0.0.1:3010"), .ok, .ok]

theorem install_rolledBack (s : State) (target : String) :
    ∃ s', s.install target rollbackOutcomes = some (s', .backOnPrevious) := by
  have hresult : (s.install target rollbackOutcomes).map Prod.snd = some .backOnPrevious := by
    simp [State.install, s.installServerRelease_current, rollbackOutcomes, runInstall, installStep,
      State.swapFailed, State.rollback, State.swap, State.installFailed]
  rcases Option.map_eq_some_iff.1 hresult with ⟨⟨s', result⟩, hrun, rfl⟩
  exact ⟨s', hrun⟩

/-- The version before the call is restored by every rollback that succeeds exactly when the
container ran what "auto" makes of the resolved tag. -/
theorem install_restores_iff {s : State} {target : String} (hloaded : s.settings ≠ none)
    (htarget : isConcreteSemver target = true) :
    (∀ as s' result, s.install target as = some (s', result) → Restores s target s' result) ↔
      OnResolvedTag s := by
  constructor
  · intro h
    rcases install_rolledBack s target with ⟨s', hrun⟩
    rcases (h _ s' _ hrun).1 rfl with ⟨hcontainer, hresolved, _⟩
    -- a rollback that succeeds ends on the previous version, whatever was there before
    have hswapped : Swapped s.floor s' (s.resolvedAutoTag.getD s.floor) :=
      (install_ended hloaded hrun).2
    have htag := hresolved.symm.trans hswapped.resolved
    exact ⟨_, htag, hcontainer.symm.trans hswapped.container⟩
  · intro h as s' result hrun
    exact h.restores hloaded htarget hrun

/-- A start under "auto", offline, on the floor. -/
theorem install_restores_floor :
    ∃ p : System, plugin.Reachable Loaded p ∧ p.state.container = some BACKUP_SERVER_VERSION ∧
      ∀ as s' result, p.state.install "1.5.0" as = some (s', result) →
        Restores p.state "1.5.0" s' result := by
  obtain ⟨p, hp⟩ : ∃ p, plugin.run unstarted
      [.start {}, .settle 0 .ok, .settle 0 (.lookup .noManager), .settle 0 .ok,
        .settle 0 (.address (some "http://127.0.0.1:3010"))] = some p := ⟨_, rfl⟩
  have hreach : plugin.Reachable Loaded p := Machine.Reachable.run (.init unstarted_loaded) hp
  cases hp
  refine ⟨_, hreach, by decide, ?_⟩
  refine (install_restores_iff (by decide) (by decide)).2 ?_
  exact ⟨BACKUP_SERVER_VERSION, by decide, by decide⟩

/-- Pinned to 1.2.0, "Apply update" with the tag "auto" finds 1.5.0, which does not start: the plugin
goes back to the floor. -/
theorem pinned_not_restored :
    ∃ p : System, plugin.Reachable Loaded p ∧
      p.tasks[1]?.map Task.await = some (.apply (.pull "1.5.0")) ∧
      p.state.container = some "1.2.0" ∧ p.state.resolvedAutoTag = none ∧
      ∃ s', p.state.install "1.5.0" rollbackOutcomes = some (s', .backOnPrevious) ∧
        s'.container = some BACKUP_SERVER_VERSION ∧
        s'.resolvedAutoTag = some BACKUP_SERVER_VERSION ∧
        ¬Restores p.state "1.5.0" s' .backOnPrevious := by
  obtain ⟨p, hp⟩ : ∃ p, plugin.run unstarted
      [.start { imageTag := some "1.2.0" },
        .settle 0 (.address (some "http://127.0.0.1:3010")), .apply true (some "auto") true,
        .settle 1 (.update (some ⟨true, some "1.5.0", ""⟩) true)] = some p := ⟨_, rfl⟩
  have hreach : plugin.Reachable Loaded p := Machine.Reachable.run (.init unstarted_loaded) hp
  cases hp
  refine ⟨_, hreach, by decide, by decide, by decide, _, rfl, by decide, by decide, ?_⟩
  intro hrestores
  exact absurd (hrestores.1 rfl).1 (by decide)

end Plugin
end SignalKBackup
