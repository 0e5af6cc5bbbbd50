import Mathlib.Data.Finset.Basic
import Mathlib.Data.Rat.Floor
import SignalKBackup.Lib.Log

/-!
# Emitter — backup events as Signal K deltas

`handleEvent` turns one `backup-completed` event into deltas: the metrics of the run, and the three
alarms `failed`, `overdue` and `storageLow`.  An emitter remembers which alarms it has raised and
when each tier last succeeded; the deltas themselves stay in the Signal K server.

Times are instants in milliseconds, ratios are exact, and `clock` is what `new Date()` reads while
an event is handled.
-/

namespace SignalKBackup
namespace Deltas

open Lib

/-! ## Events -/

inductive BackupTier
  | hourly
  | daily
  | weekly
  | startup
  deriving DecidableEq

inductive LocalResult
  | success
  | failure
  deriving DecidableEq

inductive CloudResult
  | success
  | failure
  | skipped
  deriving DecidableEq

/-- `nextScheduled`; an empty text is `none`. -/
structure NextScheduled where
  hourly : Option ℤ
  daily : Option ℤ
  weekly : Option ℤ

structure BackupCompletedEvent where
  tier : BackupTier
  timestamp : ℤ
  localResult : LocalResult
  localError : Option String := none
  localBytes : Option ℚ := none
  cloudResult : Option CloudResult := none
  cloudError : Option String := none
  cloudTarget : Option String := none
  freeBytes : ℚ
  totalBytes : ℚ
  nextScheduled : NextScheduled

/-- An event of the stream: input is untrusted, and may have a type the plugin does not know. -/
inductive Event
  | backupCompleted (event : BackupCompletedEvent)
  | unknown (type : String)

/-- The run succeeded at both destinations. -/
def BackupCompletedEvent.succeeded (event : BackupCompletedEvent) : Bool :=
  event.localResult == .success && event.cloudResult != some .failure

/-! ## Deltas -/

inductive AlarmState
  | normal
  | warn
  | alert
  deriving DecidableEq

structure Notification where
  state : AlarmState
  method : List String
  message : String
  timestamp : ℤ
  deriving DecidableEq

inductive Value
  | instant (ms : ℤ)
  | text (s : String)
  | number (q : ℚ)
  | notification (n : Notification)
  deriving DecidableEq

structure MetaEntry where
  path : String
  units : Option String := none
  description : String
  displayName : String

inductive Update
  | values (timestamp : ℤ) (values : List (String × Value))
  | metadata (entries : List MetaEntry)

structure Delta where
  context : String
  updates : List Update

/-- The paths of a delta, with their values. -/
def Delta.values (d : Delta) : List (String × Value) :=
  d.updates.flatMap fun
    | .values _ values => values
    | .metadata _ => []

/-- The last value published on a path. -/
def published (deltas : List Delta) (path : String) : Option Value :=
  lastOn (deltas.flatMap Delta.values) path

/-! ## The emitter -/

def METRIC_BASE : String := "server.backup"

def NOTIF_BASE : String := "notifications.server.backup"

def STORAGE_LOW_WARN : ℚ := 1 / 10

def STORAGE_LOW_ALERT : ℚ := 1 / 20

def STORAGE_LOW_CLEAR : ℚ := 3 / 25

def TIER_INTERVAL_MS : BackupTier → ℤ
  | .hourly => 60 * 60 * 1000
  | .daily => 24 * 60 * 60 * 1000
  | .weekly => 7 * 24 * 60 * 60 * 1000
  | .startup => 0

def OVERDUE_MULTIPLIER : ℤ := 2

inductive NotificationKey
  | failed
  | overdue
  | storageLow
  deriving DecidableEq

def NotificationKey.name : NotificationKey → String
  | .failed => "failed"
  | .overdue => "overdue"
  | .storageLow => "storageLow"

def NotificationKey.path (key : NotificationKey) : String :=
  NOTIF_BASE ++ "." ++ key.name

structure DeltaEmitterState where
  /-- `app.selfId`. -/
  selfId : String
  baseUrl : String
  metaEmitted : Bool := false
  lastSuccessByTier : BackupTier → Option ℤ := fun _ => none
  activeNotifications : Finset NotificationKey := ∅
  /-- The delay with which the reconnect timer was armed. -/
  reconnectTimer : Option ℕ := none
  reconnectDelayMs : ℕ := 1000
  stopped : Bool := false

/-- An emitter, and the deltas published since the Signal K server started. -/
structure World where
  emitter : DeltaEmitterState
  deltas : List Delta := []

namespace World

variable (s : World)

/-- `app.handleMessage`. -/
def handleMessage (updates : List Update) : World :=
  { s with deltas := s.deltas ++ [{ context := "vessels." ++ s.emitter.selfId, updates }] }

def emitNotification (key : NotificationKey) (state : AlarmState) (message : String)
    (timestamp : ℤ) : World :=
  let value : Notification := { state, method := ["visual"], message, timestamp }
  let s := s.handleMessage [.values timestamp [(key.path, .notification value)]]
  { s with
    emitter :=
      { s.emitter with activeNotifications := insert key s.emitter.activeNotifications } }

def clearNotification (clock : ℤ) (key : NotificationKey) : World :=
  if key ∉ s.emitter.activeNotifications then s
  else
    let value : Notification := { state := .normal, method := [], message := "OK", timestamp := clock }
    let s := s.handleMessage [.values clock [(key.path, .notification value)]]
    { s with
      emitter :=
        { s.emitter with activeNotifications := s.emitter.activeNotifications.erase key } }

/-! ## Metrics -/

/-- The earliest of the scheduled runs, or now. -/
def minTimestamp (clock : ℤ) (next : NextScheduled) : ℤ :=
  ([next.hourly, next.daily, next.weekly].filterMap id).min?.getD clock

def metaSeed : List MetaEntry :=
  [{ path := METRIC_BASE ++ ".lastRunBytes"
     units := some "B"
     description := "Size of the most recent scheduled backup"
     displayName := "Last backup size" },
   { path := METRIC_BASE ++ ".lastRunTimestamp"
     description := "When the most recent scheduled backup ran"
     displayName := "Last backup" },
   { path := METRIC_BASE ++ ".lastStatus"
     description := "Outcome of the most recent scheduled backup run"
     displayName := "Backup status" },
   { path := METRIC_BASE ++ ".lastRunTier"
     description := "Scheduler tier that produced the most recent run"
     displayName := "Last backup tier" },
   { path := METRIC_BASE ++ ".nextScheduledTimestamp"
     description := "When the next scheduled backup is due (earliest of all tiers)"
     displayName := "Next backup" }]

def tierName : BackupTier → String
  | .hourly => "hourly"
  | .daily => "daily"
  | .weekly => "weekly"
  | .startup => "startup"

def metrics (clock : ℤ) (event : BackupCompletedEvent) : List (String × Value) :=
  [(METRIC_BASE ++ ".lastRunTimestamp", .instant event.timestamp),
   (METRIC_BASE ++ ".lastStatus", .text (if event.succeeded then "success" else "failure")),
   (METRIC_BASE ++ ".lastRunTier", .text (tierName event.tier)),
   (METRIC_BASE ++ ".nextScheduledTimestamp", .instant (minTimestamp clock event.nextScheduled)),
   (METRIC_BASE ++ ".lastRunBytes", .number (event.localBytes.getD 0))]

def emitMetrics (clock : ℤ) (event : BackupCompletedEvent) : World :=
  let run := Update.values event.timestamp (metrics clock event)
  let s' := { s with emitter := { s.emitter with metaEmitted := true } }
  s'.handleMessage (if s.emitter.metaEmitted then [run] else [run, .metadata metaSeed])

/-! ## Alarms -/

def failedMessage (event : BackupCompletedEvent) : String :=
  let localPart :=
    if event.localResult = .failure then
      ["Local Kopia: " ++ event.localError.getD "unknown error"]
    else []
  let cloudPart :=
    if event.cloudResult = some .failure then
      [event.cloudTarget.getD "cloud" ++ ": " ++ event.cloudError.getD "unknown error"]
    else []
  let failedParts := localPart ++ cloudPart
  if failedParts ≠ [] then "Backup failed — " ++ String.intercalate "; " failedParts
  else "Backup failed (no detail)"

def raiseFailedNotification (event : BackupCompletedEvent) : World :=
  s.emitNotification .failed .alert (failedMessage event) event.timestamp

/-- The tiers that can be overdue, in the order of the loop. -/
def overdueTiers : List BackupTier :=
  [.hourly, .daily, .weekly]

/-- A recorded success is more than two intervals old. -/
def isStale (lastSuccess : Option ℤ) (tier : BackupTier) (now : ℤ) : Bool :=
  lastSuccess.any fun t => decide (OVERDUE_MULTIPLIER * TIER_INTERVAL_MS tier < now - t)

def overdueMessage (tier : BackupTier) : String :=
  "Scheduled " ++ tierName tier ++ " backup is overdue (last success >" ++
    toString (OVERDUE_MULTIPLIER * TIER_INTERVAL_MS tier / 3600000) ++ "h ago)"

def evaluateOverdue (clock : ℤ) (event : BackupCompletedEvent) : World :=
  let now := event.timestamp
  match overdueTiers.find? fun tier => isStale (s.emitter.lastSuccessByTier tier) tier now with
  | some overdue => s.emitNotification .overdue .warn (overdueMessage overdue) event.timestamp
  | none => s.clearNotification clock .overdue

/-- `toFixed(1)`. -/
def toFixed1 (q : ℚ) : String :=
  let tenths := ⌊|q| * 10 + 1 / 2⌋.toNat
  (if q < 0 then "-" else "") ++ toString (tenths / 10) ++ "." ++ toString (tenths % 10)

def storageLowMessage (freeRatio : ℚ) : String :=
  "Backup storage low: " ++ toFixed1 (freeRatio * 100) ++ "% free"

/-- The alarm for a ratio of free space, if it is low. -/
def raisedState (freeRatio : ℚ) : Option AlarmState :=
  if freeRatio < STORAGE_LOW_ALERT then some .alert
  else if freeRatio < STORAGE_LOW_WARN then some .warn
  else none

def evaluateStorageLow (clock : ℤ) (event : BackupCompletedEvent) : World :=
  if event.totalBytes ≤ 0 then s
  else
    let freeRatio := event.freeBytes / event.totalBytes
    let active := .storageLow ∈ s.emitter.activeNotifications
    match raisedState freeRatio with
    | some state =>
        s.emitNotification .storageLow state (storageLowMessage freeRatio) event.timestamp
    | none =>
        if active ∧ STORAGE_LOW_CLEAR ≤ freeRatio then s.clearNotification clock .storageLow
        else s

/-! ## One event -/

def recordSuccess (event : BackupCompletedEvent) : World :=
  { s with
    emitter :=
      { s.emitter with
        lastSuccessByTier :=
          Function.update s.emitter.lastSuccessByTier event.tier (some event.timestamp) } }

/-- The branch on the outcome of the run. -/
def evaluateFailed (clock : ℤ) (event : BackupCompletedEvent) : World :=
  if event.succeeded then (s.recordSuccess event).clearNotification clock .failed
  else s.raiseFailedNotification event

def handleEvent (clock : ℤ) : Event → World
  | .unknown _ => s
  | .backupCompleted event =>
      (((s.emitMetrics clock event).evaluateFailed clock event).evaluateOverdue clock
        event).evaluateStorageLow clock event

/-- Events one after another, each with the time it is handled at. -/
def handleEvents : World → List (Event × ℤ) → World
  | s, [] => s
  | s, (event, clock) :: events => handleEvents (s.handleEvent clock event) events

end World

/-- The emitter as `startSignalKEmitter` makes it. -/
def newEmitter (selfId baseUrl : String) : DeltaEmitterState :=
  { selfId, baseUrl }

/-- A run of which only the outcome is known. -/
def plainRun (tier : BackupTier) (timestamp : ℤ) (localResult : LocalResult) :
    BackupCompletedEvent :=
  { tier, timestamp, localResult, freeBytes := 0, totalBytes := 0
    nextScheduled := { hourly := none, daily := none, weekly := none } }

/-- The Signal K server has just started, and the plugin its first emitter. -/
def newWorld (selfId baseUrl : String) : World :=
  { emitter := newEmitter selfId baseUrl }

end Deltas
end SignalKBackup
