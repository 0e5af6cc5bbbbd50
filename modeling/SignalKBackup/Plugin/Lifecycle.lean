import SignalKBackup.Lib.Machine
import SignalKBackup.Plugin.Install

/-!
# Lifecycle — start(), stop(), "Apply update" and the automatic updater, interleaved

Every asynchronous function of the plugin is a task: what it waits for, the generation in which it
was begun, and the generation it was given.  A task goes on whenever the operation it waits for
settles; `start()`, `stop()`, update requests and the update timer come at any time.

An operation that is settled goes on in the same step, through the promises in between, unless the
code behind such a promise comes after a change that others can see: those promises are awaits of
their own (`adopted`, `leaving`, `returned`).

The abort signal of a `start()` is aborted exactly when its generation is over.  `startSafely` calls
the startup at once.
-/

namespace SignalKBackup
namespace Plugin

open Lib
open Config

def SERVER_UPDATE_FIRST_CHECK_MS : ℕ := 5 * 60000

def SERVER_UPDATE_INTERVAL_MS : ℕ := 6 * 60 * 60000

def SERVER_UPDATE_BUSY_RETRY_MS : ℕ := 15 * 60000

/-- `SERVER_UPDATE_HOLDING_LINKS`; a link of `none` is "waiting". -/
def holdsUpdate : Option Uplink.UplinkState → Bool
  | none => true
  | some (some .online) => false
  | some (some _) => true
  | some none => false

/-- What a startup waits for. -/
inductive StartupAwait
  /-- `waitForReady` of the external server. -/
  | external (url : String)
  /-- The delay of `retryForever`. -/
  | retry (url : String)
  | manager
  | resolveAutoTag (persisted : String)
  /-- `persistResolvedTag`, and the options it saves, if any. -/
  | saveResolved (options : Option Settings)
  /-- `container.start`, on this image tag. -/
  | container (image : String)
  deriving DecidableEq

/-- What "Apply update" waits for. -/
inductive ApplyAwait
  | check
  | pull (latest : String)
  | install (i : Install) (await : InstallAwait)
  /-- `container.applyUpdate(requested)`, which recreates the container on `image`. -/
  | recreate (requested image : String)
  | save (image : String) (options : Settings)
  | address (image : String) (saveFailed : Bool)
  /-- `waitForReady` of the recreated server. -/
  | health (image addr : String) (saveFailed : Bool)
  /-- The end of `exclusively`, with the tag or with an error. -/
  | leaving (result : Option String)
  | returned (result : Option String)
  deriving DecidableEq

/-- What a check of the automatic updater waits for. -/
inductive CheckAwait
  | check
  | link (target : String)
  | pull (target : String)
  /-- `client?.isIdle()`, asked of a client or not. -/
  | idle (target : String) (asked : Bool)
  | install (i : Install) (await : InstallAwait)
  | leaving
  | returned (nextMs : ℕ)
  deriving DecidableEq

/-- What the database-export requests and ticks wait for. -/
inductive ExportAwait
  /-- `savePluginOptions`, in `POST /api/db-export/config`. -/
  | save (options : Settings)
  /-- `runDbExportTick`, which never rejects. -/
  | tick
  deriving DecidableEq

inductive Await
  | startup (await : StartupAwait)
  | apply (await : ApplyAwait)
  | check (await : CheckAwait)
  | dbExport (await : ExportAwait)
  | finished
  deriving DecidableEq

structure Task where
  /-- `lifecycleGeneration` when the task was begun. -/
  born : ℕ
  /-- The generation passed to it. -/
  gen : ℕ
  await : Await
  deriving DecidableEq

namespace State

variable (s : State)

/-! ## The startup -/

/-- `finishStartup`. -/
def finishStartup (gen : ℕ) (address : String) : State :=
  if gen ≠ s.lifecycleGeneration then s
  else
    let emit := (s.settingsObjects gen).emitSignalKDeltas
    (((s.newClient address).startSignalKEmitter address emit).startDbExportTimer.scheduleServerUpdate
      gen SERVER_UPDATE_FIRST_CHECK_MS).uplinkStart

/-- `finishExternal`. -/
def finishExternal (gen : ℕ) (url : String) : State :=
  if gen ≠ s.lifecycleGeneration then s
  else
    let emit := (s.settingsObjects gen).emitSignalKDeltas
    ((s.newClient url).startSignalKEmitter url emit).uplinkStart

/-- `container.start(settings.imageTag)`, up to its await. -/
def containerStart (gen : ℕ) : State × Await :=
  (s, .startup (.container (s.resolveTag (s.settingsObjects gen).imageTag)))

/-- `asyncStart` up to its first await. -/
def asyncStart (gen : ℕ) : State × Await :=
  let settings := s.settingsObjects gen
  if !settings.managedContainer then
    let url := String.ofList (trim settings.externalUrl.toList)
    if url = "" then (s, .finished)
    else ({ s with containerAddress := some url }, .startup (.external url))
  else if settings.imageTag = "auto" then (s, .startup .manager)
  -- a pinned tag: nothing is resolved
  else { s with resolvedAutoTag := none }.containerStart gen

def startupStep (gen : ℕ) (w : StartupAwait) (a : Settle) : Option (State × Await) :=
  let superseded := gen ≠ s.lifecycleGeneration
  match w, a with
  | .external url, .ok => some (s.finishExternal gen url, .finished)
  | .external url, .fails => some (s, if superseded then .finished else .startup (.retry url))
  | .retry url, .ok => some (s, if superseded then .finished else .startup (.external url))
  | .manager, .ok =>
      let persisted := (s.settingsObjects gen).resolvedImageTag
      some (s, if superseded then .finished else .startup (.resolveAutoTag persisted))
  | .manager, .fails => some (s, .finished)
  | .resolveAutoTag persisted, .lookup lookup =>
      if superseded then some (s, .finished)
      else
        let resolved := resolveAutoTag persisted s.floor lookup
        let s := { s with resolvedAutoTag := some resolved }
        match s.persistResolvedTag resolved gen with
        | none => some (s, .startup (.saveResolved none))
        | some (s', options) => some (s', .startup (.saveResolved (some options)))
  | .saveResolved options, .ok =>
      some ({ s with stored := options.or s.stored }.containerStart gen)
  -- a failed save is logged, and the startup goes on
  | .saveResolved (some _), .fails => some (s.containerStart gen)
  | .container image, .address addr =>
      -- the container runs, whether this start() is still wanted or not
      let s := { s with container := some image }
      if superseded then some (s, .finished)
      else
        match addr with
        | none => some (s, .finished)
        | some address =>
            some ({ s with containerAddress := some address }.finishStartup gen address, .finished)
  | .container _, .fails => some (s, .finished)
  | _, _ => none

/-! ## "Apply update" -/

/-- An install as a part of "Apply update". -/
def inApply (i : Install) : State × Next → State × Await
  | (s, .await w) => (s, .apply (.install i w))
  | (s, .done .installed) => (s, .apply (.leaving (some i.target)))
  | (s, .done _) => (s, .apply (.leaving none))

/-- `container.applyUpdate(requested)`, up to its await. -/
def applyRequested (requested : String) : State × Await :=
  (s, .apply (.recreate requested (s.resolveTag requested)))

/-- `applyServerUpdate` up to its first await. -/
def applyServerUpdate (requested : String) : State × Await :=
  let s := { s with serverInstalling := true }
  if requested = "auto" then (s, .apply .check) else s.applyRequested requested

def applyStep (w : ApplyAwait) (a : Settle) : Option (State × Await) :=
  match w, a with
  | .check, .update check manager =>
      match check.bind fun c => if c.updateAvailable then c.latestVersion else none with
      | none => some (s.applyRequested "auto")
      | some latest =>
          if !isConcreteSemver latest then some (s.applyRequested "auto")
          else if !manager then some (s, .apply (.leaving none))
          else some (s, .apply (.pull latest))
  | .check, .fails => some (s, .apply (.leaving none))
  | .pull latest, .ok =>
      -- the generation is read here, not when the update was requested
      let (i, next) := s.installServerRelease latest s.lifecycleGeneration
      some (inApply i next)
  | .pull _, .fails => some (s, .apply (.leaving none))
  | .install i w, a => (installStep s i w a).map (inApply i)
  | .recreate requested image, .ok =>
      let s := { s with container := some image }
      match s.persistAppliedTag requested image with
      | none => some (s, .apply (.address image false))
      | some (s', options) => some (s', .apply (.save image options))
  | .recreate _ _, .recreateFails container =>
      some ({ s with container }, .apply (.leaving none))
  | .save image options, .ok => some ({ s with stored := some options }, .apply (.address image false))
  -- the error is kept until the recreated server has answered
  | .save image _, .fails => some (s, .apply (.address image true))
  | .address image saveFailed, .address (some addr) =>
      some (s.adoptServerAddress (httpAddress addr), .apply (.health image addr saveFailed))
  | .address _ _, .address none => some (s, .apply (.leaving none))
  | .address _ _, .fails => some (s, .apply (.leaving none))
  | .health image _ saveFailed, .ok =>
      some (s.uplinkStart, .apply (.leaving (if saveFailed then none else some image)))
  | .health _ _ _, .fails => some (s, .apply (.leaving none))
  | .leaving result, .ok => some ({ s with serverInstalling := false }, .apply (.returned result))
  | .returned (some _), .ok =>
      if s.client.isSome then
        some (s.scheduleServerUpdate s.lifecycleGeneration SERVER_UPDATE_INTERVAL_MS, .finished)
      else some (s, .finished)
  | .returned none, .ok => some (s, .finished)
  | _, _ => none

/-! ## The automatic updater -/

/-- Neither superseded nor switched off. -/
def wanted (gen : ℕ) : Bool :=
  gen == s.lifecycleGeneration && s.autoUpdateEnabled

def busy : Bool :=
  s.serverInstalling || s.hostRestoreRunning

/-- The check is over; the next one is due after `nextMs`. -/
def checkDone (nextMs : ℕ) : State × Await :=
  (s, .check (.returned nextMs))

/-- An install as a part of a check. -/
def inCheck (i : Install) : State × Next → State × Await
  | (s, .await w) => (s, .check (.install i w))
  | (s, .done _) => (s, .check .leaving)

/-- A string as JavaScript tests it: the empty one counts as missing. -/
def truthy (s : Option String) : Option String :=
  s.filter fun t => t != ""

/-- `checkServerUpdate` up to its first await. -/
def checkServerUpdate (gen : ℕ) : State × Await :=
  if !s.wanted gen then s.checkDone SERVER_UPDATE_INTERVAL_MS else (s, .check .check)

/-- From the answer of the update check to the read of the link state. -/
def pickTarget (gen : ℕ) (check : UpdateCheck) (current : String) : State × Await :=
  if check.reason = "offline" then s.checkDone SERVER_UPDATE_BUSY_RETRY_MS
  else
    match pickServerUpdate current check.latestVersion s.failedServerVersions with
    | none => s.checkDone SERVER_UPDATE_INTERVAL_MS
    | some target =>
        if !s.wanted gen then s.checkDone SERVER_UPDATE_INTERVAL_MS else (s, .check (.link target))

/-- From the end of the pull to the question whether the server is idle. -/
def askIdle (gen : ℕ) (target : String) : State × Await :=
  if !s.wanted gen then s.checkDone SERVER_UPDATE_INTERVAL_MS
  else if s.busy then s.checkDone SERVER_UPDATE_BUSY_RETRY_MS
  else (s, .check (.idle target s.client.isSome))

/-- From the answer of an idle server to the swap. -/
def installIdle (gen : ℕ) (target : String) : State × Await :=
  if s.busy then s.checkDone SERVER_UPDATE_BUSY_RETRY_MS
  else if !s.wanted gen then s.checkDone SERVER_UPDATE_INTERVAL_MS
  else
    match truthy s.resolvedAutoTag with
    | none => s.checkDone SERVER_UPDATE_INTERVAL_MS
    | some current =>
        -- what runs may have changed during the pull
        if pickServerUpdate current (some target) s.failedServerVersions = some target then
          let (i, next) := { s with serverInstalling := true }.installServerRelease target gen
          inCheck i next
        else s.checkDone SERVER_UPDATE_INTERVAL_MS

def checkStep (gen : ℕ) (w : CheckAwait) (a : Settle) : Option (State × Await) :=
  match w, a with
  | .check, .update check _ =>
      match truthy s.resolvedAutoTag, check with
      | some current, some check => some (s.pickTarget gen check current)
      | _, _ => some (s.checkDone SERVER_UPDATE_INTERVAL_MS)
  | .check, .fails => some (s.checkDone SERVER_UPDATE_INTERVAL_MS)
  | .link target, .link link manager =>
      if holdsUpdate link then some (s.checkDone SERVER_UPDATE_BUSY_RETRY_MS)
      else if !s.wanted gen || !manager then some (s.checkDone SERVER_UPDATE_INTERVAL_MS)
      else some (s, .check (.pull target))
  | .pull target, .ok => some (s.askIdle gen target)
  | .pull _, .fails => some (s.checkDone SERVER_UPDATE_INTERVAL_MS)
  | .idle target asked, .idle idle =>
      if asked && idle then some (s.installIdle gen target)
      else some (s.checkDone SERVER_UPDATE_BUSY_RETRY_MS)
  | .install i w, a => (installStep s i w a).map (inCheck i)
  | .leaving, .ok =>
      some ({ s with serverInstalling := false }.checkDone SERVER_UPDATE_INTERVAL_MS)
  | .returned nextMs, .ok =>
      if gen = s.lifecycleGeneration then some (s.scheduleServerUpdate gen nextMs, .finished)
      else some (s, .finished)
  | _, _ => none

/-! ## The database export -/

def dbExportStep (w : ExportAwait) (a : Settle) : Option (State × Await) :=
  match w, a with
  -- the new interval takes effect at once
  | .save options, .ok => some ({ s with stored := some options }.startDbExportTimer, .finished)
  | .save _, .fails => some (s, .finished)
  | .tick, .ok => some (s, .finished)
  | _, _ => none

/-! ## start() and stop() -/

/-- `start()`, up to the call of `asyncStart`. -/
def start (config : PartialSettings) : State :=
  let gen := s.lifecycleGeneration + 1
  { s with
    settingsObjects := Function.update s.settingsObjects gen config.merged
    currentSettings := some gen
    lifecycleGeneration := gen
    client := none
    containerAddress := none }.stopServerUpdateTimer.uplinkStop

/-- `stop()`, up to the call of `container.stop`, which stops the container without removing it. -/
def stop : State :=
  { { s with lifecycleGeneration := s.lifecycleGeneration + 1
      }.stopSignalKEmitter.stopDbExportTimer.stopServerUpdateTimer.uplinkStop with
    client := none
    containerAddress := none }

end State

/-! ## The plugin -/

structure System where
  state : State
  tasks : List Task

inductive Action
  | start (config : PartialSettings)
  | stop
  /-- `POST /api/update/apply`: whether there is a container manager, the tag in the body, and what
  `isValidImageTag` says about the requested tag. -/
  | apply (manager : Bool) (tag : Option String) (valid : Bool)
  /-- The server-update timer fires. -/
  | timer
  /-- `POST /api/db-export/config`. -/
  | dbExport (body : DbExportBody)
  /-- `POST /api/backups`, which runs the exports before it is forwarded. -/
  | backup
  /-- The interval of the database export fires. -/
  | exportTick
  /-- The operation that the task at this position waits for settles. -/
  | settle (i : ℕ) (a : Settle)
  /-- A host restore begins or ends. -/
  | hostRestore (running : Bool)
  deriving DecidableEq

/-- The requests and ticks of the database export. -/
def Action.exports : Action → Bool
  | .dbExport _ => true
  | .backup => true
  | .exportTick => true
  | _ => false

/-- One step of a task. -/
def Task.step (t : Task) (s : State) (a : Settle) : Option (State × Await) :=
  match t.await with
  | .startup w => s.startupStep t.gen w a
  | .apply w => s.applyStep w a
  | .check w => s.checkStep t.gen w a
  | .dbExport w => s.dbExportStep w a
  | .finished => none

/-- A new task, at its first await. -/
def System.begin (p : System) (gen : ℕ) : State × Await → System
  | (s, await) =>
      { state := s, tasks := p.tasks ++ [{ born := p.state.lifecycleGeneration, gen, await }] }

def System.start (p : System) (config : PartialSettings) : System :=
  let s := p.state.start config
  { p with state := s }.begin s.lifecycleGeneration (s.asyncStart s.lifecycleGeneration)

/-- The tag an update request names, or the configured one. -/
def requestedTag (s : State) (tag : Option String) : String :=
  (State.truthy tag).getD ((s.settings.map Settings.imageTag).getD SCHEMA_DEFAULTS.imageTag)

/-- `POST /api/update/apply`; refused requests change nothing. -/
def System.apply (p : System) (manager : Bool) (tag : Option String) (valid : Bool) : System :=
  if !manager || !valid || p.state.serverInstalling then p
  else
    p.begin p.state.lifecycleGeneration (p.state.applyServerUpdate (requestedTag p.state tag))

def System.dbExport (p : System) (body : DbExportBody) : System :=
  match p.state.setDbExport body with
  | none => p
  | some (s, options) => p.begin p.state.lifecycleGeneration (s, .dbExport (.save options))

/-- The call of `runDbExportTick`; the callers share one export, and each waits for it. -/
def System.runExports (p : System) : System :=
  p.begin p.state.lifecycleGeneration (p.state, .dbExport .tick)

def pluginStep (p : System) : Action → Option System
  | .start config => some (p.start config)
  | .stop => some { p with state := p.state.stop }
  | .apply manager tag valid => some (p.apply manager tag valid)
  | .timer =>
      p.state.serverUpdateTimer.map fun timer =>
        p.begin timer.gen (p.state.stopServerUpdateTimer.checkServerUpdate timer.gen)
  | .dbExport body => some (p.dbExport body)
  | .backup => some (if p.state.exports then p.runExports else p)
  | .exportTick => if p.state.dbExportTimer.isSome then some p.runExports else none
  | .settle i a =>
      p.tasks[i]?.bind fun t =>
        (t.step p.state a).map fun (s, await) =>
          { state := s, tasks := p.tasks.set i { t with await } }
  | .hostRestore running => some { p with state := { p.state with hostRestoreRunning := running } }

def plugin : Machine System Action where
  step := pluginStep

/-- Signal K has just loaded the plugin: no lifecycle yet. -/
def Loaded (p : System) : Prop :=
  p.tasks = [] ∧ p.state.lifecycleGeneration = 0 ∧ p.state.currentSettings = none ∧
    p.state.client = none ∧ p.state.containerAddress = none ∧ p.state.resolvedAutoTag = none ∧
      p.state.failedServerVersions = [] ∧ p.state.serverInstalling = false ∧
        p.state.serverUpdateTimer = none

def unstarted : System :=
  { state :=
      { floor := BACKUP_SERVER_VERSION
        client := none
        currentSettings := none
        settingsObjects := fun _ => SCHEMA_DEFAULTS
        resolvedAutoTag := none
        containerAddress := none
        dbExportTimer := none
        lifecycleGeneration := 0
        serverUpdateTimer := none
        failedServerVersions := []
        serverInstalling := false
        emitter := none
        uplinkStarted := false
        clients := 0
        emitterStarts := 0
        uplinkStarts := 0
        saves := []
        stored := none
        container := none
        hostRestoreRunning := false }
    tasks := [] }

theorem unstarted_loaded : Loaded unstarted :=
  ⟨rfl, rfl, rfl, rfl, rfl, rfl, rfl, rfl, rfl⟩

end Plugin
end SignalKBackup
