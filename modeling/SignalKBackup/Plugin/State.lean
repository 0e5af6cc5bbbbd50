import Mathlib.Data.Rat.Floor
import SignalKBackup.Config.ResolveAutoTag
import SignalKBackup.Restore.Route
import SignalKBackup.Uplink.State

/-!
# State — the variables the plugin's asynchronous functions share

`State` holds what the closures of the plugin read and write, together with what they act on: the
container, the emitter, the uplink reporter and the stored options.  The functions here are the
parts of the source that run without an await.

Settings objects are shared by reference: the object that a `start()` makes is both
`currentSettings` and the `settings` its own startup goes on to read, so objects are kept by the
generation of the `start()` that made them.
-/

namespace SignalKBackup
namespace Plugin

open Lib
open Config

/-! ## Settings -/

structure DatabaseExportConfig where
  questdb : Bool
  grafana : Bool
  signalkDatabase : Bool
  intervalMinutes : ℕ
  deriving DecidableEq

/-- Some exporter is switched on. -/
def DatabaseExportConfig.enabled (cfg : DatabaseExportConfig) : Bool :=
  cfg.questdb || cfg.grafana || cfg.signalkDatabase

structure Settings where
  managedContainer : Bool
  imageTag : String
  resolvedImageTag : String
  autoUpdateServer : Bool
  externalUrl : String
  emitSignalKDeltas : Bool
  databaseExport : DatabaseExportConfig
  deriving DecidableEq

def SCHEMA_DEFAULTS : Settings :=
  { managedContainer := true
    imageTag := "auto"
    resolvedImageTag := ""
    autoUpdateServer := true
    externalUrl := ""
    emitSignalKDeltas := true
    databaseExport :=
      { questdb := false, grafana := false, signalkDatabase := false, intervalMinutes := 60 } }

/-- `Partial<Config>`: what the server passes to `start()`. -/
structure PartialSettings where
  managedContainer : Option Bool := none
  imageTag : Option String := none
  resolvedImageTag : Option String := none
  autoUpdateServer : Option Bool := none
  externalUrl : Option String := none
  emitSignalKDeltas : Option Bool := none
  questdb : Option Bool := none
  grafana : Option Bool := none
  signalkDatabase : Option Bool := none
  intervalMinutes : Option ℕ := none
  deriving DecidableEq

/-- The deep merge over the schema's defaults. -/
def PartialSettings.merged (config : PartialSettings) : Settings :=
  let base := SCHEMA_DEFAULTS
  { managedContainer := config.managedContainer.getD base.managedContainer
    imageTag := config.imageTag.getD base.imageTag
    resolvedImageTag := config.resolvedImageTag.getD base.resolvedImageTag
    autoUpdateServer := config.autoUpdateServer.getD base.autoUpdateServer
    externalUrl := config.externalUrl.getD base.externalUrl
    emitSignalKDeltas := config.emitSignalKDeltas.getD base.emitSignalKDeltas
    databaseExport :=
      { questdb := config.questdb.getD base.databaseExport.questdb
        grafana := config.grafana.getD base.databaseExport.grafana
        signalkDatabase := config.signalkDatabase.getD base.databaseExport.signalkDatabase
        intervalMinutes := config.intervalMinutes.getD base.databaseExport.intervalMinutes } }

/-- The body of `POST /api/db-export/config`, with the fields that have the right type. -/
structure DbExportBody where
  questdb : Option Bool := none
  grafana : Option Bool := none
  signalkDatabase : Option Bool := none
  intervalMinutes : Option ℚ := none
  deriving DecidableEq

namespace DbExportBody

/-- The interval after `Math.round`. -/
def minutes (body : DbExportBody) : Option ℤ :=
  body.intervalMinutes.map fun q => ⌊q + 1 / 2⌋

/-- The checks that answer 400. -/
def accepted (body : DbExportBody) : Bool :=
  (body.questdb.isSome || body.grafana.isSome || body.signalkDatabase.isSome ||
      body.minutes.isSome) &&
    body.minutes.all fun minutes => 5 ≤ minutes && minutes ≤ 1440

/-- The new configuration; what the body leaves out stays. -/
def next (body : DbExportBody) (cfg : DatabaseExportConfig) : DatabaseExportConfig :=
  { questdb := body.questdb.getD cfg.questdb
    grafana := body.grafana.getD cfg.grafana
    signalkDatabase := body.signalkDatabase.getD cfg.signalkDatabase
    intervalMinutes := (body.minutes.map Int.toNat).getD cfg.intervalMinutes }

end DbExportBody

/-! ## The shared state -/

/-- A `BackupClient`; `serial` tells apart objects with the same base URL. -/
structure Client where
  baseUrl : String
  serial : ℕ
  deriving DecidableEq

/-- `scheduleServerUpdate(gen, delayMs)`, armed. -/
structure UpdateTimer where
  gen : ℕ
  delayMs : ℕ
  deriving DecidableEq

structure State where
  /-- `BACKUP_SERVER_VERSION` of the plugin release that runs. -/
  floor : String
  client : Option Client
  /-- The generation of the `start()` that made the current settings object. -/
  currentSettings : Option ℕ
  settingsObjects : ℕ → Settings
  resolvedAutoTag : Option String
  containerAddress : Option String
  /-- The interval of the database export, in minutes. -/
  dbExportTimer : Option ℕ
  lifecycleGeneration : ℕ
  serverUpdateTimer : Option UpdateTimer
  failedServerVersions : List String
  serverInstalling : Bool
  /-- The base URL of the running SSE subscriber. -/
  emitter : Option String
  uplinkStarted : Bool
  /-- Clients made, subscribers started and `uplinkReporter.start()` calls so far. -/
  clients : ℕ
  emitterStarts : ℕ
  uplinkStarts : ℕ
  /-- The options of every `savePluginOptions` call, the last one first. -/
  saves : List Settings
  /-- The options that were last saved with success. -/
  stored : Option Settings
  /-- The image tag the container runs. -/
  container : Option String
  /-- `isHostRestoreRunning()`. -/
  hostRestoreRunning : Bool

namespace State

variable (s : State)

/-- `currentSettings`, as a value. -/
def settings : Option Settings :=
  s.currentSettings.map s.settingsObjects

/-- Writes to the fields of `currentSettings`; nothing to write to before the first `start()`. -/
def modifySettings (f : Settings → Settings) : State :=
  match s.currentSettings with
  | none => s
  | some object =>
      { s with
        settingsObjects :=
          Function.update s.settingsObjects object (f (s.settingsObjects object)) }

/-- What the work of a lifecycle may change: the variables, the settings object with its content, and
the calls made. -/
structure View where
  client : Option Client
  currentSettings : Option ℕ
  settings : Option Settings
  resolvedAutoTag : Option String
  containerAddress : Option String
  failedServerVersions : List String
  emitterStarts : ℕ
  uplinkStarts : ℕ
  saves : List Settings
  deriving DecidableEq

def view : View :=
  { client := s.client
    currentSettings := s.currentSettings
    settings := s.settings
    resolvedAutoTag := s.resolvedAutoTag
    containerAddress := s.containerAddress
    failedServerVersions := s.failedServerVersions
    emitterStarts := s.emitterStarts
    uplinkStarts := s.uplinkStarts
    saves := s.saves }

/-! ## Emitter, reporter and timers -/

def startSignalKEmitter (baseUrl : String) (emitSignalKDeltas : Bool) : State :=
  if s.emitter.isSome || !emitSignalKDeltas then s
  else { s with emitter := some baseUrl, emitterStarts := s.emitterStarts + 1 }

def stopSignalKEmitter : State :=
  { s with emitter := none }

def uplinkStart : State :=
  { s with uplinkStarted := true, uplinkStarts := s.uplinkStarts + 1 }

def uplinkStop : State :=
  { s with uplinkStarted := false }

def autoUpdateEnabled : Bool :=
  s.settings.any fun c => c.imageTag == "auto" && c.autoUpdateServer

def stopServerUpdateTimer : State :=
  { s with serverUpdateTimer := none }

def scheduleServerUpdate (gen delayMs : ℕ) : State :=
  if s.autoUpdateEnabled then { s with serverUpdateTimer := some { gen, delayMs } }
  else s.stopServerUpdateTimer

def stopDbExportTimer : State :=
  { s with dbExportTimer := none }

def startDbExportTimer : State :=
  match s.settings with
  | none => s.stopDbExportTimer
  | some c =>
      let dbCfg := c.databaseExport
      if !c.managedContainer || !dbCfg.enabled then
        s.stopDbExportTimer
      -- an interval below five minutes is raised to five
      else { s with dbExportTimer := some (max 5 dbCfg.intervalMinutes) }

/-- `client = new BackupClient(baseUrl)`. -/
def newClient (baseUrl : String) : State :=
  { s with client := some { baseUrl, serial := s.clients }, clients := s.clients + 1 }

/-! ## Saving -/

/-- The call of `savePluginOptions`, with the options it passes. -/
def callSave : Option (State × Settings) :=
  s.settings.map fun options => ({ s with saves := options :: s.saves }, options)

/-- `persistAppliedTag` up to its await; `none` when no settings are loaded. -/
def persistAppliedTag (requestedTag resolvedTag : String) : Option (State × Settings) :=
  let s' := s.modifySettings fun c =>
    { c with imageTag := requestedTag, resolvedImageTag := resolvedTag }
  { s' with resolvedAutoTag := some resolvedTag }.callSave

/-- `persistResolvedTag` up to its await; `none` when there is nothing to save. -/
def persistResolvedTag (tag : String) (gen : ℕ) : Option (State × Settings) :=
  -- a newer start() owns the settings
  if gen ≠ s.lifecycleGeneration then none
  else
    match s.settings with
    | none => none
    | some c =>
        if c.resolvedImageTag = tag then none
        else (s.modifySettings fun c => { c with resolvedImageTag := tag }).callSave

/-! ## The configuration of the database export -/

/-- `POST /api/db-export/config` up to its await; `none` when the request is refused, or no settings
are loaded. -/
def setDbExport (body : DbExportBody) : Option (State × Settings) :=
  if !body.accepted then none
  else (s.modifySettings fun c => { c with databaseExport := body.next c.databaseExport }).callSave

/-- Some exporter is switched on. -/
def exports : Bool :=
  s.settings.any fun c => c.databaseExport.enabled

/-! ## Addresses -/

/-- A recreated container may come back on another host port. -/
def adoptServerAddress (address : String) : State :=
  match s.client, s.settings with
  | some _, some c =>
      if s.containerAddress = some address then s
      else
        -- the subscriber is bound to the old URL: stopped, and started on the new one
        ({ s with containerAddress := some address }.newClient address).stopSignalKEmitter
          |>.startSignalKEmitter address c.emitSignalKDeltas
  | _, _ => s

/-! ## What the parts leave alone -/

/-- The variables that only `start()`, `stop()` and `exclusively` change, and the restore flag. -/
structure Control where
  lifecycleGeneration : ℕ
  serverInstalling : Bool
  hostRestoreRunning : Bool
  deriving DecidableEq

def control : Control :=
  { lifecycleGeneration := s.lifecycleGeneration
    serverInstalling := s.serverInstalling
    hostRestoreRunning := s.hostRestoreRunning }

variable {s}

theorem control_generation {s' : State} (h : s'.control = s.control) :
    s'.lifecycleGeneration = s.lifecycleGeneration :=
  congrArg Control.lifecycleGeneration h

theorem control_installing {s' : State} (h : s'.control = s.control) :
    s'.serverInstalling = s.serverInstalling :=
  congrArg Control.serverInstalling h

theorem control_hostRestore {s' : State} (h : s'.control = s.control) :
    s'.hostRestoreRunning = s.hostRestoreRunning :=
  congrArg Control.hostRestoreRunning h

variable (s)

@[simp] theorem startSignalKEmitter_control (url : String) (emit : Bool) :
    (s.startSignalKEmitter url emit).control = s.control := by
  unfold startSignalKEmitter
  split <;> rfl

@[simp] theorem startSignalKEmitter_timer (url : String) (emit : Bool) :
    (s.startSignalKEmitter url emit).serverUpdateTimer = s.serverUpdateTimer := by
  unfold startSignalKEmitter
  split <;> rfl

@[simp] theorem scheduleServerUpdate_control (gen delayMs : ℕ) :
    (s.scheduleServerUpdate gen delayMs).control = s.control := by
  unfold scheduleServerUpdate
  split <;> rfl

@[simp] theorem scheduleServerUpdate_view (gen delayMs : ℕ) :
    (s.scheduleServerUpdate gen delayMs).view = s.view := by
  unfold scheduleServerUpdate
  split <;> rfl

theorem scheduleServerUpdate_timer {gen delayMs : ℕ} {timer : UpdateTimer}
    (h : (s.scheduleServerUpdate gen delayMs).serverUpdateTimer = some timer) : timer.gen = gen := by
  unfold scheduleServerUpdate at h
  split at h
  case isTrue =>
      cases h
      rfl
  case isFalse =>
      cases h

@[simp] theorem startDbExportTimer_control : s.startDbExportTimer.control = s.control := by
  unfold startDbExportTimer
  split
  case h_1 =>
      rfl
  case h_2 =>
      dsimp only
      split <;> rfl

@[simp] theorem startDbExportTimer_timer :
    s.startDbExportTimer.serverUpdateTimer = s.serverUpdateTimer := by
  unfold startDbExportTimer
  split
  case h_1 =>
      rfl
  case h_2 =>
      dsimp only
      split <;> rfl

@[simp] theorem startDbExportTimer_view : s.startDbExportTimer.view = s.view := by
  unfold startDbExportTimer
  split
  case h_1 =>
      rfl
  case h_2 =>
      dsimp only
      split <;> rfl

/-- Adopting an address changes the client, the address and the emitter, and nothing else. -/
theorem adoptServerAddress_fields (address : String) :
    ∃ client containerAddress emitter clients emitterStarts,
      s.adoptServerAddress address =
        { s with client, containerAddress, emitter, clients, emitterStarts } := by
  unfold adoptServerAddress
  split
  case h_1 c settings hclient hsettings =>
      by_cases hsame : s.containerAddress = some address
      · exact ⟨_, _, _, _, _, if_pos hsame⟩
      · cases hemit : settings.emitSignalKDeltas with
        | true =>
            exact ⟨_, _, _, _, _, if_neg hsame⟩
        | false =>
            exact ⟨_, _, _, _, _, if_neg hsame⟩
  case h_2 =>
      exact ⟨_, _, _, _, _, rfl⟩

@[simp] theorem adoptServerAddress_control (address : String) :
    (s.adoptServerAddress address).control = s.control := by
  rcases s.adoptServerAddress_fields address with ⟨_, _, _, _, _, heq⟩
  rw [heq]
  rfl

@[simp] theorem adoptServerAddress_timer (address : String) :
    (s.adoptServerAddress address).serverUpdateTimer = s.serverUpdateTimer := by
  rcases s.adoptServerAddress_fields address with ⟨_, _, _, _, _, heq⟩
  rw [heq]

@[simp] theorem modifySettings_control (f : Settings → Settings) :
    (s.modifySettings f).control = s.control := by
  unfold modifySettings
  split <;> rfl

@[simp] theorem modifySettings_timer (f : Settings → Settings) :
    (s.modifySettings f).serverUpdateTimer = s.serverUpdateTimer := by
  unfold modifySettings
  split <;> rfl

variable {s}

theorem callSave_eq_some {s' : State} {options : Settings} (h : s.callSave = some (s', options)) :
    s.settings = some options ∧ s' = { s with saves := options :: s.saves } := by
  unfold callSave at h
  cases hsettings : s.settings with
  | none =>
      rw [hsettings] at h
      cases h
  | some c =>
      rw [hsettings] at h
      cases h
      exact ⟨rfl, rfl⟩

theorem modifySettings_settings (s : State) (f : Settings → Settings) :
    (s.modifySettings f).settings = s.settings.map f := by
  unfold modifySettings settings
  cases hobject : s.currentSettings with
  | none =>
      simp [hobject]
  | some object =>
      simp

theorem modifySettings_saves (s : State) (f : Settings → Settings) :
    (s.modifySettings f).saves = s.saves := by
  unfold modifySettings
  split <;> rfl

theorem persistAppliedTag_loaded {c : Settings} (hloaded : s.settings = some c)
    (requestedTag resolvedTag : String) :
    s.persistAppliedTag requestedTag resolvedTag =
      some
        ({ s.modifySettings fun c => { c with imageTag := requestedTag, resolvedImageTag := resolvedTag } with
            resolvedAutoTag := some resolvedTag
            saves := { c with imageTag := requestedTag, resolvedImageTag := resolvedTag } :: s.saves },
          { c with imageTag := requestedTag, resolvedImageTag := resolvedTag }) := by
  have hsettings := s.modifySettings_settings fun c =>
    { c with imageTag := requestedTag, resolvedImageTag := resolvedTag }
  have hsaves := s.modifySettings_saves fun c =>
    { c with imageTag := requestedTag, resolvedImageTag := resolvedTag }
  rw [hloaded] at hsettings
  simp only [settings] at hsettings
  simp [persistAppliedTag, callSave, settings, hsettings, hsaves]

theorem persistAppliedTag_eq_none {requestedTag resolvedTag : String} :
    s.persistAppliedTag requestedTag resolvedTag = none ↔ s.settings = none := by
  constructor
  · intro h
    cases hloaded : s.settings with
    | none =>
        rfl
    | some c =>
        rw [persistAppliedTag_loaded hloaded] at h
        cases h
  · intro h
    have hsettings := s.modifySettings_settings fun c =>
      { c with imageTag := requestedTag, resolvedImageTag := resolvedTag }
    rw [h] at hsettings
    simp only [settings] at hsettings
    simp [persistAppliedTag, callSave, settings, hsettings]

theorem persistAppliedTag_control {requestedTag resolvedTag : String} {s' : State}
    {options : Settings} (h : s.persistAppliedTag requestedTag resolvedTag = some (s', options)) :
    s'.control = s.control ∧ s'.serverUpdateTimer = s.serverUpdateTimer := by
  have hsave := (callSave_eq_some h).2
  rw [hsave]
  exact ⟨modifySettings_control s _, modifySettings_timer s _⟩

theorem persistResolvedTag_cases {tag : String} {gen : ℕ} {s' : State} {options : Settings}
    (h : s.persistResolvedTag tag gen = some (s', options)) :
    gen = s.lifecycleGeneration ∧
      (s.modifySettings fun c => { c with resolvedImageTag := tag }).callSave =
        some (s', options) := by
  unfold persistResolvedTag at h
  split at h
  case isTrue =>
      cases h
  case isFalse hgen =>
      refine ⟨not_not.1 hgen, ?_⟩
      split at h
      case h_1 =>
          cases h
      case h_2 =>
          split at h
          case isTrue =>
              cases h
          case isFalse =>
              exact h

theorem persistResolvedTag_control {tag : String} {gen : ℕ} {s' : State} {options : Settings}
    (h : s.persistResolvedTag tag gen = some (s', options)) :
    s'.control = s.control ∧ s'.serverUpdateTimer = s.serverUpdateTimer := by
  have hsave := (callSave_eq_some (persistResolvedTag_cases h).2).2
  rw [hsave]
  exact ⟨modifySettings_control s _, modifySettings_timer s _⟩

theorem setDbExport_control {body : DbExportBody} {s' : State} {options : Settings}
    (h : s.setDbExport body = some (s', options)) :
    s'.control = s.control ∧ s'.serverUpdateTimer = s.serverUpdateTimer := by
  unfold setDbExport at h
  split at h
  case isTrue =>
      cases h
  case isFalse =>
      have hsave := (callSave_eq_some h).2
      rw [hsave]
      exact ⟨modifySettings_control s _, modifySettings_timer s _⟩

end State

end Plugin
end SignalKBackup
