import SignalKBackup.Plugin.Lifecycle

/-!
# Steps — the ways a task goes on

`StartupStep`, `ApplyStep` and `CheckStep` say once what the code behind each await does, with the
guards that lead there; `TaskStep.of_step` reads a step of a task as one of them.  Every invariant of
the plugin's runs is derived from these.
-/

namespace SignalKBackup
namespace Plugin

open Lib
open Config

/-! ## The startup -/

inductive StartupStep (s : State) (gen : ℕ) : StartupAwait → Settle → State × Await → Prop where
  | external (url : String) :
      StartupStep s gen (.external url) .ok (s.finishExternal gen url, .finished)
  /-- The generation is over; nothing more happens. -/
  | superseded {w : StartupAwait} {a : Settle} : gen ≠ s.lifecycleGeneration →
      (∀ image, w ≠ .container image) → (∀ options, w ≠ .saveResolved options) →
      StartupStep s gen w a (s, .finished)
  | unreachable (url : String) : gen = s.lifecycleGeneration →
      StartupStep s gen (.external url) .fails (s, .startup (.retry url))
  | retry (url : String) : gen = s.lifecycleGeneration →
      StartupStep s gen (.retry url) .ok (s, .startup (.external url))
  | manager : gen = s.lifecycleGeneration →
      StartupStep s gen .manager .ok
        (s, .startup (.resolveAutoTag (s.settingsObjects gen).resolvedImageTag))
  | cancelled : StartupStep s gen .manager .fails (s, .finished)
  | resolved {persisted : String} {lookup : Lookup} {tag : String} : gen = s.lifecycleGeneration →
      tag = resolveAutoTag persisted s.floor lookup →
      StartupStep s gen (.resolveAutoTag persisted) (.lookup lookup)
        ({ s with resolvedAutoTag := some tag }, .startup (.saveResolved none))
  | resolvedSaving {persisted : String} {lookup : Lookup} {tag : String} {s' : State}
      {options : Settings} : gen = s.lifecycleGeneration →
      tag = resolveAutoTag persisted s.floor lookup →
      State.persistResolvedTag { s with resolvedAutoTag := some tag } tag gen = some (s', options) →
      StartupStep s gen (.resolveAutoTag persisted) (.lookup lookup)
        (s', .startup (.saveResolved (some options)))
  | saved (options : Option Settings) :
      StartupStep s gen (.saveResolved options) .ok
        (State.containerStart { s with stored := options.or s.stored } gen)
  | saveFailed (options : Settings) :
      StartupStep s gen (.saveResolved (some options)) .fails (s.containerStart gen)
  | containerOnly (image : String) (addr : Option String) :
      gen ≠ s.lifecycleGeneration ∨ addr = none →
      StartupStep s gen (.container image) (.address addr)
        ({ s with container := some image }, .finished)
  | container (image address : String) : gen = s.lifecycleGeneration →
      StartupStep s gen (.container image) (.address (some address))
        (State.finishStartup { s with container := some image, containerAddress := some address } gen
          address, .finished)
  | containerFails (image : String) : StartupStep s gen (.container image) .fails (s, .finished)

theorem StartupStep.of_step {s : State} {gen : ℕ} {w : StartupAwait} {a : Settle} {r : State × Await}
    (h : s.startupStep gen w a = some r) : StartupStep s gen w a r := by
  unfold State.startupStep at h
  -- each await looks at the generation, so the two cases part before the awaits do
  by_cases hgen : gen = s.lifecycleGeneration
  · simp only [ne_eq, hgen, not_true_eq_false, if_false] at h
    subst hgen
    split at h
    case h_1 url =>
        cases h
        exact .external url
    case h_2 url =>
        cases h
        exact .unreachable url rfl
    case h_3 url =>
        cases h
        exact .retry url rfl
    case h_4 =>
        cases h
        exact .manager rfl
    case h_5 =>
        cases h
        exact .cancelled
    case h_6 persisted lookup =>
        split at h
        case h_1 =>
            cases h
            exact .resolved rfl rfl
        case h_2 s' options hsave =>
            cases h
            exact .resolvedSaving rfl rfl hsave
    case h_7 options =>
        cases h
        exact .saved options
    case h_8 options =>
        cases h
        exact .saveFailed options
    case h_9 image addr =>
        cases addr with
        | none =>
            cases h
            exact .containerOnly image none (Or.inr rfl)
        | some address =>
            cases h
            exact .container image address rfl
    case h_10 image =>
        cases h
        exact .containerFails image
    case h_11 =>
        cases h
  · simp only [ne_eq, hgen, not_false_eq_true, if_true] at h
    split at h
    case h_1 url =>
        cases h
        exact .external url
    case h_5 =>
        cases h
        exact .cancelled
    case h_7 options =>
        cases h
        exact .saved options
    case h_8 options =>
        cases h
        exact .saveFailed options
    case h_9 image addr =>
        cases h
        exact .containerOnly image addr (Or.inl hgen)
    case h_10 image =>
        cases h
        exact .containerFails image
    case h_11 =>
        cases h
    all_goals
      cases h
      exact .superseded hgen (by simp) (by simp)

/-! ## "Apply update" -/

/-- The awaits whose errors end the update with nothing more to undo. -/
def ApplyAwait.givesUp : ApplyAwait → Bool
  | .check => true
  | .pull _ => true
  | .address _ _ => true
  | .health _ _ _ => true
  | _ => false

/-- The release that "Apply update" moves "auto" to, if the check names one. -/
def concreteUpdate (check : Option UpdateCheck) : Option String :=
  (check.bind fun c => if c.updateAvailable then c.latestVersion else none).filter isConcreteSemver

theorem concreteUpdate_concrete {check : Option UpdateCheck} {latest : String}
    (h : concreteUpdate check = some latest) : isConcreteSemver latest = true :=
  (Option.filter_eq_some_iff.1 h).2

inductive ApplyStep (s : State) : ApplyAwait → Settle → State × Await → Prop where
  /-- No update: the tag is applied as it is. -/
  | noUpdate (check : Option UpdateCheck) (manager : Bool) : concreteUpdate check = none →
      ApplyStep s .check (.update check manager) (s.applyRequested "auto")
  | update {latest : String} (check : Option UpdateCheck) (manager : Bool) :
      concreteUpdate check = some latest →
      ApplyStep s .check (.update check manager) (s, .apply (.pull latest))
  | error {w : ApplyAwait} {a : Settle} : w.givesUp = true →
      ApplyStep s w a (s, .apply (.leaving none))
  | pulled {latest : String} {i : Install} {r : State × Next} :
      s.installServerRelease latest s.lifecycleGeneration = (i, r) →
      ApplyStep s (.pull latest) .ok (State.inApply i r)
  | install {i : Install} {w : InstallAwait} {a : Settle} {r : State × Next} :
      InstallStep s i w a r → ApplyStep s (.install i w) a (State.inApply i r)
  | recreated (requested image : String) : s.settings = none →
      ApplyStep s (.recreate requested image) .ok
        ({ s with container := some image }, .apply (.address image false))
  | recreatedSaving {requested image : String} {s' : State} {options : Settings} :
      State.persistAppliedTag { s with container := some image } requested image =
        some (s', options) →
      ApplyStep s (.recreate requested image) .ok (s', .apply (.save image options))
  | recreateFailed (requested image : String) (container : Option String) :
      ApplyStep s (.recreate requested image) (.recreateFails container)
        ({ s with container }, .apply (.leaving none))
  | saved (image : String) (options : Settings) :
      ApplyStep s (.save image options) .ok
        ({ s with stored := some options }, .apply (.address image false))
  | saveFailed (image : String) (options : Settings) :
      ApplyStep s (.save image options) .fails (s, .apply (.address image true))
  | located (image addr : String) (saveFailed : Bool) :
      ApplyStep s (.address image saveFailed) (.address (some addr))
        (s.adoptServerAddress (httpAddress addr), .apply (.health image addr saveFailed))
  | answered (image addr : String) (saveFailed : Bool) :
      ApplyStep s (.health image addr saveFailed) .ok
        (s.uplinkStart, .apply (.leaving (if saveFailed then none else some image)))
  | leaving (result : Option String) :
      ApplyStep s (.leaving result) .ok
        ({ s with serverInstalling := false }, .apply (.returned result))
  | scheduled (tag : String) : s.client.isSome = true →
      ApplyStep s (.returned (some tag)) .ok
        (s.scheduleServerUpdate s.lifecycleGeneration SERVER_UPDATE_INTERVAL_MS, .finished)
  /-- The timer is left alone behind an error, and before the client is published. -/
  | returned (result : Option String) : result = none ∨ s.client = none →
      ApplyStep s (.returned result) .ok (s, .finished)

theorem ApplyStep.of_step {s : State} {w : ApplyAwait} {a : Settle} {r : State × Await}
    (h : s.applyStep w a = some r) : ApplyStep s w a r := by
  unfold State.applyStep at h
  split at h
  case h_1 check manager =>
      split at h
      case h_1 hnone =>
          cases h
          exact .noUpdate check manager (by rw [concreteUpdate, hnone]; rfl)
      case h_2 latest hlatest =>
          split at h
          case isTrue hother =>
              cases h
              refine .noUpdate check manager ?_
              rw [concreteUpdate, hlatest]
              simpa using hother
          case isFalse hconcrete =>
              split at h
              case isTrue =>
                  cases h
                  exact .error rfl
              case isFalse =>
                  cases h
                  refine .update check manager ?_
                  rw [concreteUpdate, hlatest]
                  simpa using hconcrete
  case h_2 =>
      cases h
      exact .error rfl
  case h_3 latest =>
      cases h
      exact .pulled rfl
  case h_4 =>
      cases h
      exact .error rfl
  case h_5 i w a =>
      rcases Option.map_eq_some_iff.1 h with ⟨next, hstep, rfl⟩
      exact .install (.of_step hstep)
  case h_6 requested image =>
      dsimp only at h
      split at h
      case h_1 hsave =>
          cases h
          have hunloaded : State.settings { s with container := some image } = none :=
            State.persistAppliedTag_eq_none.1 hsave
          exact .recreated requested image hunloaded
      case h_2 s' options hsave =>
          cases h
          exact .recreatedSaving hsave
  case h_7 requested image container =>
      cases h
      exact .recreateFailed requested image container
  case h_8 image options =>
      cases h
      exact .saved image options
  case h_9 image options =>
      cases h
      exact .saveFailed image options
  case h_10 image saveFailed addr =>
      cases h
      exact .located image addr saveFailed
  case h_13 image addr saveFailed =>
      cases h
      exact .answered image addr saveFailed
  case h_15 result =>
      cases h
      exact .leaving result
  case h_16 tag =>
      split at h
      case isTrue hclient =>
          cases h
          exact .scheduled tag hclient
      case isFalse hclient =>
          cases h
          exact .returned _ (Or.inr (by simpa using hclient))
  case h_17 =>
      cases h
      exact .returned _ (Or.inl rfl)
  case h_18 =>
      cases h
  all_goals
    cases h
    exact .error rfl

/-! ## The automatic updater -/

/-- The awaits before the install, where a check may end without one. -/
def CheckAwait.searching : CheckAwait → Bool
  | .check => true
  | .link _ => true
  | .pull _ => true
  | .idle _ _ => true
  | _ => false

inductive CheckStep (s : State) (gen : ℕ) : CheckAwait → Settle → State × Await → Prop where
  /-- The check ends without an install. -/
  | done {w : CheckAwait} {a : Settle} (nextMs : ℕ) : w.searching = true →
      CheckStep s gen w a (s.checkDone nextMs)
  | picked {check : UpdateCheck} {manager : Bool} {current target : String} : s.wanted gen = true →
      s.resolvedAutoTag = some current →
      pickServerUpdate current check.latestVersion s.failedServerVersions = some target →
      CheckStep s gen .check (.update (some check) manager) (s, .check (.link target))
  | linkUp (target : String) {link : Option Uplink.UplinkState} {manager : Bool} :
      s.wanted gen = true → holdsUpdate link = false →
      CheckStep s gen (.link target) (.link link manager) (s, .check (.pull target))
  | pulled (target : String) : s.wanted gen = true → s.busy = false →
      CheckStep s gen (.pull target) .ok (s, .check (.idle target s.client.isSome))
  | installs {target current : String} {i : Install} {r : State × Next} : s.wanted gen = true →
      s.busy = false → s.resolvedAutoTag = some current →
      pickServerUpdate current (some target) s.failedServerVersions = some target →
      State.installServerRelease { s with serverInstalling := true } target gen = (i, r) →
      CheckStep s gen (.idle target true) (.idle true) (State.inCheck i r)
  | install {i : Install} {w : InstallAwait} {a : Settle} {r : State × Next} :
      InstallStep s i w a r → CheckStep s gen (.install i w) a (State.inCheck i r)
  | leaving : CheckStep s gen .leaving .ok
      (State.checkDone { s with serverInstalling := false } SERVER_UPDATE_INTERVAL_MS)
  | scheduled (nextMs : ℕ) : gen = s.lifecycleGeneration →
      CheckStep s gen (.returned nextMs) .ok (s.scheduleServerUpdate gen nextMs, .finished)
  | returned (nextMs : ℕ) : gen ≠ s.lifecycleGeneration →
      CheckStep s gen (.returned nextMs) .ok (s, .finished)

theorem truthy_eq_some {s : Option String} {t : String} (h : State.truthy s = some t) :
    s = some t :=
  (Option.filter_eq_some_iff.1 h).1

theorem CheckStep.of_pickTarget {s : State} {gen : ℕ} {check : UpdateCheck} {current : String}
    {manager : Bool} (hcurrent : s.resolvedAutoTag = some current) :
    CheckStep s gen .check (.update (some check) manager) (s.pickTarget gen check current) := by
  unfold State.pickTarget
  split
  case isTrue =>
      exact .done _ rfl
  case isFalse =>
      split
      case h_1 =>
          exact .done _ rfl
      case h_2 target hpick =>
          split
          case isTrue =>
              exact .done _ rfl
          case isFalse hwanted =>
              exact .picked (by simpa using hwanted) hcurrent hpick

theorem CheckStep.of_askIdle (s : State) (gen : ℕ) (target : String) :
    CheckStep s gen (.pull target) .ok (s.askIdle gen target) := by
  unfold State.askIdle
  split
  case isTrue =>
      exact .done _ rfl
  case isFalse hwanted =>
      split
      case isTrue =>
          exact .done _ rfl
      case isFalse hbusy =>
          exact .pulled target (by simpa using hwanted) (by simpa using hbusy)

theorem CheckStep.of_installIdle (s : State) (gen : ℕ) (target : String) :
    CheckStep s gen (.idle target true) (.idle true) (s.installIdle gen target) := by
  unfold State.installIdle
  split
  case isTrue =>
      exact .done _ rfl
  case isFalse hbusy =>
      split
      case isTrue =>
          exact .done _ rfl
      case isFalse hwanted =>
          split
          case h_1 =>
              exact .done _ rfl
          -- every guard is behind us: the update goes into its slot
          case h_2 current hcurrent =>
              split
              case isTrue hpick =>
                  exact .installs (by simpa using hwanted) (by simpa using hbusy)
                    (truthy_eq_some hcurrent) hpick rfl
              case isFalse =>
                  exact .done _ rfl

theorem CheckStep.of_step {s : State} {gen : ℕ} {w : CheckAwait} {a : Settle} {r : State × Await}
    (h : s.checkStep gen w a = some r) : CheckStep s gen w a r := by
  unfold State.checkStep at h
  split at h
  case h_1 check manager =>
      split at h
      case h_1 current check' hcurrent =>
          cases h
          exact .of_pickTarget (truthy_eq_some hcurrent)
      case h_2 =>
          cases h
          exact .done _ rfl
  case h_3 target link manager =>
      split at h
      case isTrue =>
          cases h
          exact .done _ rfl
      case isFalse hlink =>
          split at h
          case isTrue =>
              cases h
              exact .done _ rfl
          case isFalse hwanted =>
              cases h
              simp only [Bool.or_eq_true, not_or, Bool.not_eq_true', Bool.not_eq_false] at hwanted
              exact .linkUp target hwanted.1 (by simpa using hlink)
  case h_4 target =>
      cases h
      exact .of_askIdle s gen target
  case h_6 target asked idle =>
      split at h
      case isTrue hidle =>
          cases h
          rcases Bool.and_eq_true_iff.1 hidle with ⟨rfl, rfl⟩
          exact .of_installIdle s gen target
      case isFalse =>
          cases h
          exact .done _ rfl
  case h_7 i w a =>
      rcases Option.map_eq_some_iff.1 h with ⟨next, hstep, rfl⟩
      exact .install (.of_step hstep)
  case h_8 =>
      cases h
      exact .leaving
  case h_9 nextMs =>
      split at h
      case isTrue hgen =>
          cases h
          exact .scheduled nextMs hgen
      case isFalse hgen =>
          cases h
          exact .returned nextMs hgen
  case h_10 =>
      cases h
  all_goals
    cases h
    exact .done _ rfl

/-! ## The database export -/

inductive ExportStep (s : State) : ExportAwait → Settle → State × Await → Prop where
  | saved (options : Settings) :
      ExportStep s (.save options) .ok
        (State.startDbExportTimer { s with stored := some options }, .finished)
  | saveFailed (options : Settings) : ExportStep s (.save options) .fails (s, .finished)
  | exported : ExportStep s .tick .ok (s, .finished)

theorem ExportStep.of_step {s : State} {w : ExportAwait} {a : Settle} {r : State × Await}
    (h : s.dbExportStep w a = some r) : ExportStep s w a r := by
  unfold State.dbExportStep at h
  split at h
  case h_1 options =>
      cases h
      exact .saved options
  case h_2 options =>
      cases h
      exact .saveFailed options
  case h_3 =>
      cases h
      exact .exported
  case h_4 =>
      cases h

/-! ## A task -/

inductive TaskStep (s : State) (gen : ℕ) : Await → Settle → State × Await → Prop where
  | startup {w : StartupAwait} {a : Settle} {r : State × Await} :
      StartupStep s gen w a r → TaskStep s gen (.startup w) a r
  | apply {w : ApplyAwait} {a : Settle} {r : State × Await} :
      ApplyStep s w a r → TaskStep s gen (.apply w) a r
  | check {w : CheckAwait} {a : Settle} {r : State × Await} :
      CheckStep s gen w a r → TaskStep s gen (.check w) a r
  | dbExport {w : ExportAwait} {a : Settle} {r : State × Await} :
      ExportStep s w a r → TaskStep s gen (.dbExport w) a r

theorem TaskStep.of_step {t : Task} {s : State} {a : Settle} {r : State × Await}
    (h : t.step s a = some r) : TaskStep s t.gen t.await a r := by
  unfold Task.step at h
  split at h
  case h_1 w hw =>
      rw [hw]
      exact .startup (.of_step h)
  case h_2 w hw =>
      rw [hw]
      exact .apply (.of_step h)
  case h_3 w hw =>
      rw [hw]
      exact .check (.of_step h)
  case h_4 w hw =>
      rw [hw]
      exact .dbExport (.of_step h)
  case h_5 =>
      cases h

theorem settle_cases {p p' : System} {i : ℕ} {a : Settle}
    (h : pluginStep p (.settle i a) = some p') :
    ∃ t r, p.tasks[i]? = some t ∧ TaskStep p.state t.gen t.await a r ∧
      p' = { state := r.1, tasks := p.tasks.set i { t with await := r.2 } } := by
  simp only [pluginStep, Option.bind_eq_some_iff, Option.map_eq_some_iff] at h
  rcases h with ⟨t, ht, r, hstep, rfl⟩
  exact ⟨t, r, ht, .of_step hstep, rfl⟩

/-! ## What a step of a task leaves alone -/

/-- The generation and the restore flag stay, and an update timer is armed for the current
generation only. -/
structure Keeps (s s' : State) : Prop where
  generation : s'.lifecycleGeneration = s.lifecycleGeneration
  hostRestore : s'.hostRestoreRunning = s.hostRestoreRunning
  timer : ∀ timer, s'.serverUpdateTimer = some timer →
    s.serverUpdateTimer = some timer ∨ timer.gen = s.lifecycleGeneration

theorem Keeps.of_frame {s s' : State} (h : Frame s s') : Keeps s s' :=
  ⟨State.control_generation h.1, State.control_hostRestore h.1,
    fun _ htimer => Or.inl (h.2.symm.trans htimer)⟩

theorem Keeps.scheduled {s s' : State} (h : s'.control = s.control) (delayMs : ℕ) :
    Keeps s (s'.scheduleServerUpdate s.lifecycleGeneration delayMs) := by
  have hcontrol := (s'.scheduleServerUpdate_control s.lifecycleGeneration delayMs).trans h
  exact ⟨State.control_generation hcontrol, State.control_hostRestore hcontrol,
    fun _ htimer => Or.inr (s'.scheduleServerUpdate_timer htimer)⟩

theorem State.finishExternal_frame (s : State) (gen : ℕ) (url : String) :
    Frame s (s.finishExternal gen url) := by
  unfold finishExternal
  split
  case isTrue =>
      exact .refl s
  case isFalse =>
      exact ⟨startSignalKEmitter_control (s.newClient url) url _,
        startSignalKEmitter_timer (s.newClient url) url _⟩

theorem State.finishStartup_control (s : State) (gen : ℕ) (address : String) :
    (s.finishStartup gen address).control = s.control := by
  unfold finishStartup
  split
  case isTrue =>
      rfl
  case isFalse =>
      have hschedule := scheduleServerUpdate_control
        (((s.newClient address).startSignalKEmitter address
          (s.settingsObjects gen).emitSignalKDeltas).startDbExportTimer) gen
        SERVER_UPDATE_FIRST_CHECK_MS
      simp only [startDbExportTimer_control, startSignalKEmitter_control] at hschedule
      exact hschedule

theorem State.finishStartup_timer {s : State} {gen : ℕ} {address : String} {timer : UpdateTimer}
    (h : (s.finishStartup gen address).serverUpdateTimer = some timer) :
    s.serverUpdateTimer = some timer ∨ timer.gen = s.lifecycleGeneration := by
  unfold finishStartup at h
  split at h
  case isTrue =>
      exact Or.inl h
  case isFalse hgen =>
      exact Or.inr ((scheduleServerUpdate_timer _ h).trans (not_not.1 hgen))

theorem StartupStep.control {s : State} {gen : ℕ} {w : StartupAwait} {a : Settle} {r : State × Await}
    (h : StartupStep s gen w a r) : r.1.control = s.control := by
  cases h with
  | external url =>
      exact (s.finishExternal_frame gen url).1
  | resolvedSaving hgen htag hsave =>
      have hframe := State.persistResolvedTag_control hsave
      exact hframe.1
  | container image address hgen =>
      have hcontrol := State.finishStartup_control
        { s with container := some image, containerAddress := some address } gen address
      exact hcontrol
  | _ =>
      rfl

theorem StartupStep.keeps {s : State} {gen : ℕ} {w : StartupAwait} {a : Settle} {r : State × Await}
    (h : StartupStep s gen w a r) : Keeps s r.1 := by
  refine ⟨State.control_generation h.control, State.control_hostRestore h.control, ?_⟩
  intro timer htimer
  cases h with
  | external url =>
      exact Or.inl ((s.finishExternal_frame gen url).2.symm.trans htimer)
  | resolvedSaving hgen htag hsave =>
      have hframe := State.persistResolvedTag_control hsave
      exact Or.inl (hframe.2.symm.trans htimer)
  -- only the end of a startup arms the update timer
  | container image address hgen =>
      have hfinish := State.finishStartup_timer htimer
      exact hfinish
  | _ =>
      exact Or.inl htimer

theorem inApply_state (i : Install) (r : State × Next) : (State.inApply i r).1 = r.1 := by
  rcases r with ⟨s, w | result⟩
  · rfl
  · cases result <;> rfl

theorem inCheck_state (i : Install) (r : State × Next) : (State.inCheck i r).1 = r.1 := by
  rcases r with ⟨s, w | result⟩ <;> rfl

theorem inApply_await (i : Install) (r : State × Next) : ∃ w, (State.inApply i r).2 = .apply w := by
  rcases r with ⟨s, w | result⟩
  · exact ⟨_, rfl⟩
  · cases result <;> exact ⟨_, rfl⟩

theorem inCheck_await (i : Install) (r : State × Next) :
    (∃ w, r.2 = .await w ∧ (State.inCheck i r).2 = .check (.install i w)) ∨
      (State.inCheck i r).2 = .check .leaving := by
  rcases r with ⟨s, w | result⟩
  · exact Or.inl ⟨w, rfl, rfl⟩
  · exact Or.inr rfl

theorem State.installServerRelease_frame {s : State} {target : String} {gen : ℕ} {i : Install}
    {r : State × Next} (hgen : gen = s.lifecycleGeneration)
    (h : s.installServerRelease target gen = (i, r)) : Frame s r.1 := by
  subst hgen
  rw [installServerRelease_current] at h
  cases h
  exact ⟨rfl, rfl⟩

/-- An update goes on as an update, until it is over. -/
theorem ApplyStep.await {s : State} {w : ApplyAwait} {a : Settle} {r : State × Await}
    (h : ApplyStep s w a r) : (∃ w', r.2 = .apply w') ∨ r.2 = .finished := by
  cases h with
  | @pulled latest i next _ =>
      exact Or.inl (inApply_await i next)
  | @install i w a next _ =>
      exact Or.inl (inApply_await i next)
  | scheduled tag _ =>
      exact Or.inr rfl
  | returned result =>
      exact Or.inr rfl
  | _ =>
      exact Or.inl ⟨_, rfl⟩

theorem ApplyStep.keeps {s : State} {w : ApplyAwait} {a : Settle} {r : State × Await}
    (h : ApplyStep s w a r) : Keeps s r.1 := by
  cases h with
  | pulled hinstall =>
      rw [inApply_state]
      exact .of_frame (State.installServerRelease_frame rfl hinstall)
  | install hstep =>
      rw [inApply_state]
      exact .of_frame hstep.frame
  | recreatedSaving hsave =>
      have hframe := State.persistAppliedTag_control hsave
      exact .of_frame ⟨hframe.1, hframe.2⟩
  | located image addr saveFailed =>
      exact .of_frame ⟨s.adoptServerAddress_control _, s.adoptServerAddress_timer _⟩
  | leaving result =>
      exact ⟨rfl, rfl, fun _ htimer => Or.inl htimer⟩
  | scheduled tag hclient =>
      exact .scheduled rfl _
  | _ =>
      exact .of_frame ⟨rfl, rfl⟩

theorem State.wanted_generation {s : State} {gen : ℕ} (h : s.wanted gen = true) :
    gen = s.lifecycleGeneration := by
  simp only [wanted, Bool.and_eq_true, beq_iff_eq] at h
  exact h.1

theorem CheckStep.keeps {s : State} {gen : ℕ} {w : CheckAwait} {a : Settle} {r : State × Await}
    (h : CheckStep s gen w a r) : Keeps s r.1 := by
  cases h with
  | installs hwanted hbusy hcurrent hpick hinstall =>
      rw [inCheck_state]
      -- taking the slot is no change of the generation
      have hframe := State.installServerRelease_frame (s := { s with serverInstalling := true })
        (State.wanted_generation hwanted) hinstall
      have hgen := State.control_generation hframe.1
      have hrestore := State.control_hostRestore hframe.1
      exact ⟨hgen, hrestore, fun _ htimer => Or.inl (hframe.2.symm.trans htimer)⟩
  | install hstep =>
      rw [inCheck_state]
      exact .of_frame hstep.frame
  | leaving =>
      exact ⟨rfl, rfl, fun _ htimer => Or.inl htimer⟩
  | scheduled nextMs hgen =>
      subst hgen
      exact .scheduled rfl _
  | _ =>
      exact .of_frame ⟨rfl, rfl⟩

theorem ExportStep.frame {s : State} {w : ExportAwait} {a : Settle} {r : State × Await}
    (h : ExportStep s w a r) : Frame s r.1 := by
  cases h with
  | saved options =>
      have hcontrol := State.startDbExportTimer_control { s with stored := some options }
      have htimer := State.startDbExportTimer_timer { s with stored := some options }
      exact ⟨hcontrol, htimer⟩
  | saveFailed options =>
      exact .refl s
  | exported =>
      exact .refl s

/-- A request or a tick of the database export changes nothing, or begins a task of its own. -/
theorem export_cases {p p' : System} (a : Action) (ha : a.exports = true)
    (hs : pluginStep p a = some p') :
    p' = p ∨ ∃ s w, Frame p.state s ∧
      p' = p.begin p.state.lifecycleGeneration (s, .dbExport w) := by
  cases a with
  | dbExport body =>
      cases hs
      unfold System.dbExport
      split
      case h_1 =>
          exact Or.inl rfl
      case h_2 s options hsave =>
          have hframe := State.setDbExport_control hsave
          exact Or.inr ⟨s, _, ⟨hframe.1, hframe.2⟩, rfl⟩
  | backup =>
      cases hs
      split
      case isTrue =>
          exact Or.inr ⟨p.state, _, .refl _, rfl⟩
      case isFalse =>
          exact Or.inl rfl
  | exportTick =>
      simp only [pluginStep] at hs
      split at hs
      case isTrue =>
          cases hs
          exact Or.inr ⟨p.state, _, .refl _, rfl⟩
      case isFalse =>
          cases hs
  | _ => cases ha

/-- Of the exports only a new configuration writes to the state. -/
theorem export_state {p p' : System} {a : Action} (ha : a.exports = true)
    (hs : pluginStep p a = some p') : p'.state = p.state ∨
      ∃ body options, p.state.setDbExport body = some (p'.state, options) := by
  cases a with
  | dbExport body =>
      cases hs
      unfold System.dbExport
      split
      case h_1 =>
          exact Or.inl rfl
      case h_2 s options hsave =>
          exact Or.inr ⟨body, options, hsave⟩
  | backup =>
      cases hs
      split <;> exact Or.inl rfl
  | exportTick =>
      simp only [pluginStep] at hs
      split at hs
      case isTrue =>
          cases hs
          exact Or.inl rfl
      case isFalse =>
          cases hs
  | _ => cases ha

/-- The awaits a task begins at. -/
def Await.first : Await → Bool
  | .startup (.external _) => true
  | .startup .manager => true
  | .startup (.container _) => true
  | .apply .check => true
  | .apply (.recreate _ _) => true
  | .check .check => true
  | .check (.returned _) => true
  | .dbExport _ => true
  | .finished => true
  | _ => false

theorem asyncStart_first (s : State) (gen : ℕ) : (s.asyncStart gen).2.first = true := by
  unfold State.asyncStart
  dsimp only
  split
  · split <;> rfl
  · split <;> rfl

theorem applyServerUpdate_first (s : State) (requested : String) :
    (s.applyServerUpdate requested).2.first = true := by
  unfold State.applyServerUpdate
  dsimp only
  split <;> rfl

theorem checkServerUpdate_first (s : State) (gen : ℕ) :
    (s.checkServerUpdate gen).2.first = true := by
  unfold State.checkServerUpdate
  split <;> rfl

/-- Where a task stands after a step: where it stood, behind an await of its own, or at a first await. -/
inductive TaskCase (p : System) (a : Action) (p' : System) (i : ℕ) (t' : Task) : Prop where
  | same : p.tasks[i]? = some t' → (∀ o, a ≠ .settle i o) → TaskCase p a p' i t'
  | moved {t : Task} {o : Settle} {r : State × Await} : a = .settle i o → p.tasks[i]? = some t →
      TaskStep p.state t.gen t.await o r → t' = { t with await := r.2 } → p'.state = r.1 →
      TaskCase p a p' i t'
  | begun : i = p.tasks.length → t'.await.first = true → TaskCase p a p' i t'

theorem TaskCase.of_begin {p : System} {a : Action} {gen i : ℕ} {r : State × Await} {t' : Task}
    (ha : ∀ o, a ≠ .settle i o) (hfirst : r.2.first = true)
    (ht' : (p.begin gen r).tasks[i]? = some t') : TaskCase p a (p.begin gen r) i t' := by
  rcases getElem?_concat_cases ht' with hold | ⟨hi, rfl⟩
  · exact .same hold ha
  · exact .begun hi hfirst

theorem task_cases {p p' : System} {a : Action} {i : ℕ} {t' : Task} (hs : pluginStep p a = some p')
    (ht' : p'.tasks[i]? = some t') : TaskCase p a p' i t' := by
  have hexport : a.exports = true → TaskCase p a p' i t' := by
    intro ha
    have hno : ∀ o, a ≠ .settle i o := by
      rintro o rfl
      cases ha
    rcases export_cases a ha hs with rfl | ⟨s, w, _, rfl⟩
    · exact .same ht' hno
    · exact .of_begin hno rfl ht'
  cases a with
  | start config =>
      cases hs
      rcases getElem?_concat_cases ht' with hold | ⟨hi, rfl⟩
      · exact .same hold (by simp)
      · exact .begun hi (asyncStart_first _ _)
  | stop =>
      cases hs
      exact .same ht' (by simp)
  | apply manager tag valid =>
      cases hs
      unfold System.apply at ht' ⊢
      split at ht'
      case isTrue hrefused =>
          exact .same ht' (by simp)
      case isFalse hrefused =>
          rw [if_neg hrefused]
          exact .of_begin (by simp) (applyServerUpdate_first _ _) ht'
  | timer =>
      simp only [pluginStep, Option.map_eq_some_iff] at hs
      rcases hs with ⟨timer, _, rfl⟩
      exact .of_begin (by simp) (checkServerUpdate_first _ _) ht'
  | settle j o =>
      rcases settle_cases hs with ⟨t, r, ht, hstep, rfl⟩
      rcases getElem?_set_cases ht' with ⟨rfl, rfl⟩ | ⟨hij, hold⟩
      · exact .moved rfl ht hstep rfl rfl
      · exact .same hold fun o' heq => hij (by cases heq; rfl)
  | dbExport body =>
      exact hexport rfl
  | backup =>
      exact hexport rfl
  | exportTick =>
      exact hexport rfl
  | hostRestore running =>
      cases hs
      exact .same ht' (by simp)

theorem TaskStep.keeps {s : State} {gen : ℕ} {w : Await} {a : Settle} {r : State × Await}
    (h : TaskStep s gen w a r) : Keeps s r.1 := by
  cases h with
  | startup h =>
      exact h.keeps
  | apply h =>
      exact h.keeps
  | check h =>
      exact h.keeps
  | dbExport h =>
      exact .of_frame h.frame

end Plugin
end SignalKBackup
