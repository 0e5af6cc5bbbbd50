import SignalKBackup.Deltas.Emitter

/-!
# Alarms — what is raised and what is published

An emitter keeps the set of alarms it has raised; what it has published stays in the Signal K server.
`Board` says that the two agree, and `Board.handleEvent` that every event keeps them so.
`alarms_follow` is the state of the three alarms after each event of any sequence.
-/

namespace SignalKBackup
namespace Deltas

open Lib

/-! ## The published alarms -/

/-- The state last published on the path of an alarm. -/
def World.alarm (s : World) (key : NotificationKey) : Option AlarmState :=
  match published s.deltas key.path with
  | some (.notification n) => some n.state
  | _ => none

def World.active (s : World) : Finset NotificationKey :=
  s.emitter.activeNotifications

/-- An alarm is raised on the path. -/
def World.Raised (s : World) (key : NotificationKey) : Prop :=
  ∃ state, s.alarm key = some state ∧ state ≠ .normal

theorem NotificationKey.path_inj {key key' : NotificationKey} : key.path = key'.path ↔ key = key' := by
  constructor
  · cases key <;> cases key' <;> decide
  · exact congrArg NotificationKey.path

def metricPaths : List String :=
  [METRIC_BASE ++ ".lastRunTimestamp", METRIC_BASE ++ ".lastStatus", METRIC_BASE ++ ".lastRunTier",
    METRIC_BASE ++ ".nextScheduledTimestamp", METRIC_BASE ++ ".lastRunBytes"]

theorem metrics_path (clock : ℤ) (event : BackupCompletedEvent) (key : NotificationKey) :
    ∀ e ∈ World.metrics clock event, e.1 ≠ key.path := by
  intro e he
  have hmem : e.1 ∈ metricPaths := List.mem_map_of_mem (f := Prod.fst) he
  have hother : key.path ∉ metricPaths := by cases key <;> decide
  exact fun heq => hother (heq ▸ hmem)

namespace World

variable {s : World}

theorem published_handleMessage (updates : List Update) (path : String) :
    published (s.handleMessage updates).deltas path =
      (lastOn (Delta.values ⟨"vessels." ++ s.emitter.selfId, updates⟩) path).or
        (published s.deltas path) := by
  simp [published, handleMessage, lastOn_append]

/-! ### Raising -/

@[simp] theorem active_emitNotification (key : NotificationKey) (state : AlarmState)
    (message : String) (timestamp : ℤ) :
    (s.emitNotification key state message timestamp).active = insert key s.active := rfl

theorem alarm_emitNotification (key key' : NotificationKey) (state : AlarmState)
    (message : String) (timestamp : ℤ) :
    (s.emitNotification key state message timestamp).alarm key' =
      if key' = key then some state else s.alarm key' := by
  simp only [alarm, emitNotification, published_handleMessage, Delta.values, List.flatMap_cons,
    List.flatMap_nil, List.append_nil]
  by_cases hkey : key' = key
  · subst hkey
    simp
  · have hpath : lastOn [(key.path, Value.notification ⟨state, ["visual"], message, timestamp⟩)]
        key'.path = none :=
      lastOn_of_absent (by simpa [NotificationKey.path_inj] using Ne.symm hkey)
    simp [hpath, hkey]

/-! ### Clearing -/

@[simp] theorem active_clearNotification (clock : ℤ) (key : NotificationKey) :
    (s.clearNotification clock key).active = s.active.erase key := by
  unfold clearNotification
  split
  case isTrue habsent =>
      exact (Finset.erase_eq_of_notMem habsent).symm
  case isFalse =>
      rfl

theorem alarm_clearNotification (clock : ℤ) (key key' : NotificationKey) :
    (s.clearNotification clock key).alarm key' =
      if key' = key ∧ key ∈ s.active then some .normal else s.alarm key' := by
  unfold clearNotification
  split
  case isTrue habsent =>
      have habsent' : key ∉ s.active := habsent
      simp [habsent']
  case isFalse hactive =>
      have hactive' : key ∈ s.active := not_not.1 hactive
      simp only [alarm, published_handleMessage, Delta.values, List.flatMap_cons, List.flatMap_nil,
        List.append_nil]
      by_cases hkey : key' = key
      · subst hkey
        simp [hactive']
      · have hpath : lastOn [(key.path, Value.notification ⟨.normal, [], "OK", clock⟩)]
            key'.path = none :=
          lastOn_of_absent (by simpa [NotificationKey.path_inj] using Ne.symm hkey)
        simp [hpath, hkey]

/-! ### What touches no alarm -/

@[simp] theorem active_emitMetrics (clock : ℤ) (event : BackupCompletedEvent) :
    (s.emitMetrics clock event).active = s.active := rfl

@[simp] theorem active_recordSuccess (event : BackupCompletedEvent) :
    (s.recordSuccess event).active = s.active := rfl

theorem values_emitMetrics (clock : ℤ) (event : BackupCompletedEvent) (context : String) :
    Delta.values ⟨context, if s.emitter.metaEmitted then [.values event.timestamp (metrics clock event)]
      else [.values event.timestamp (metrics clock event), .metadata metaSeed]⟩ =
        metrics clock event := by
  cases s.emitter.metaEmitted <;> simp [Delta.values]

@[simp] theorem alarm_emitMetrics (clock : ℤ) (event : BackupCompletedEvent)
    (key : NotificationKey) : (s.emitMetrics clock event).alarm key = s.alarm key := by
  simp only [alarm, emitMetrics, published_handleMessage, values_emitMetrics,
    lastOn_of_absent (metrics_path clock event key), Option.none_or]

@[simp] theorem alarm_recordSuccess (event : BackupCompletedEvent) (key : NotificationKey) :
    (s.recordSuccess event).alarm key = s.alarm key := rfl

end World

/-! ## The board -/

/-- `normal` is published on the path of an alarm only while the alarm is raised there. -/
def ClearsRaised (deltas : List Delta) : Prop :=
  ∀ (before after : List Delta) (d : Delta) (key : NotificationKey) (n : Notification),
    deltas = before ++ d :: after → (key.path, .notification n) ∈ d.values → n.state = .normal →
      ∃ n', published before key.path = some (.notification n') ∧ n'.state ≠ .normal

theorem ClearsRaised.append {deltas : List Delta} (h : ClearsRaised deltas) {d : Delta}
    (hd : ∀ (key : NotificationKey) (n : Notification), (key.path, .notification n) ∈ d.values →
      n.state = .normal →
        ∃ n', published deltas key.path = some (.notification n') ∧ n'.state ≠ .normal) :
    ClearsRaised (deltas ++ [d]) := by
  intro before after d' key n hsplit hmem hnormal
  rcases List.eq_nil_or_concat after with rfl | ⟨after', last, rfl⟩
  · have hlast := List.append_inj' hsplit rfl
    rcases hlast with ⟨rfl, hd'⟩
    cases hd'
    exact hd key n hmem hnormal
  · -- the new delta is the last one, so the split is one of the old deltas
    rw [List.concat_eq_append, ← List.cons_append, ← List.append_assoc] at hsplit
    exact h before after' d' key n (List.append_inj' hsplit rfl).1 hmem hnormal

/-- The emitter has raised the alarms that are published as raised, and clears only those. -/
structure Board (s : World) : Prop where
  active : ∀ key, key ∈ s.active ↔ s.Raised key
  clears : ClearsRaised s.deltas

theorem newWorld_board (selfId baseUrl : String) : Board (newWorld selfId baseUrl) := by
  refine ⟨fun key => ?_, ?_⟩
  · simp [World.active, newWorld, newEmitter, World.Raised, World.alarm, published]
  · intro before after d key n hsplit
    simp [newWorld] at hsplit

namespace Board

variable {s : World}

theorem emitNotification (h : Board s) (key : NotificationKey) {state : AlarmState}
    (hstate : state ≠ .normal) (message : String) (timestamp : ℤ) :
    Board (s.emitNotification key state message timestamp) := by
  refine ⟨fun key' => ?_, ?_⟩
  · simp only [World.Raised, World.active_emitNotification, World.alarm_emitNotification,
      Finset.mem_insert]
    by_cases hkey : key' = key
    · simp [hkey, hstate]
    · simpa [World.Raised, hkey] using h.active key'
  · refine h.clears.append fun key' n hmem hnormal => ?_
    simp [Delta.values] at hmem
    rw [hmem.2] at hnormal
    exact absurd hnormal hstate

theorem clearNotification (h : Board s) (clock : ℤ) (key : NotificationKey) :
    Board (s.clearNotification clock key) := by
  refine ⟨fun key' => ?_, ?_⟩
  · simp only [World.Raised, World.active_clearNotification, World.alarm_clearNotification,
      Finset.mem_erase]
    by_cases hkey : key' = key
    · subst hkey
      by_cases hactive : key' ∈ s.active
      · simp [hactive]
      · have hquiet := (h.active key').not.1 hactive
        simpa [World.Raised, hactive] using hquiet
    · simpa [World.Raised, hkey] using h.active key'
  · unfold World.clearNotification
    split
    case isTrue =>
        exact h.clears
    case isFalse hactive =>
        refine h.clears.append fun key' n hmem _ => ?_
        simp only [Delta.values, List.flatMap_cons, List.flatMap_nil, List.append_nil,
          List.mem_singleton, Prod.mk.injEq, NotificationKey.path_inj] at hmem
        rcases (h.active key).1 (not_not.1 hactive) with ⟨state, halarm, hstate⟩
        rw [hmem.1]
        -- the path holds a raised alarm, since the key is active
        unfold World.alarm at halarm
        split at halarm
        case h_1 n' hn' =>
            cases halarm
            exact ⟨n', hn', hstate⟩
        case h_2 =>
            cases halarm

theorem emitMetrics (h : Board s) (clock : ℤ) (event : BackupCompletedEvent) :
    Board (s.emitMetrics clock event) := by
  refine ⟨fun key => ?_, ?_⟩
  · simpa [World.Raised] using h.active key
  · refine h.clears.append fun key n hmem _ => ?_
    have hvalues : (key.path, Value.notification n) ∈ World.metrics clock event := by
      rw [← World.values_emitMetrics (s := s)]
      exact hmem
    exact absurd rfl (metrics_path clock event key _ hvalues)

theorem recordSuccess (h : Board s) (event : BackupCompletedEvent) : Board (s.recordSuccess event) :=
  ⟨h.active, h.clears⟩

theorem evaluateFailed (h : Board s) (clock : ℤ) (event : BackupCompletedEvent) :
    Board (s.evaluateFailed clock event) := by
  unfold World.evaluateFailed
  split
  · exact (h.recordSuccess event).clearNotification clock .failed
  · exact h.emitNotification .failed (by decide) _ _

theorem evaluateOverdue (h : Board s) (clock : ℤ) (event : BackupCompletedEvent) :
    Board (s.evaluateOverdue clock event) := by
  unfold World.evaluateOverdue
  dsimp only
  split
  · exact h.emitNotification .overdue (by decide) _ _
  · exact h.clearNotification clock .overdue

theorem raisedState_ne_normal {freeRatio : ℚ} {state : AlarmState}
    (h : World.raisedState freeRatio = some state) : state ≠ .normal := by
  unfold World.raisedState at h
  split at h
  · cases h
    decide
  · split at h
    · cases h
      decide
    · cases h

theorem evaluateStorageLow (h : Board s) (clock : ℤ) (event : BackupCompletedEvent) :
    Board (s.evaluateStorageLow clock event) := by
  unfold World.evaluateStorageLow
  dsimp only
  split
  · exact h
  · split
    case h_1 state hraised =>
        exact h.emitNotification .storageLow (raisedState_ne_normal hraised) _ _
    case h_2 =>
        split
        · exact h.clearNotification clock .storageLow
        · exact h

theorem handleEvent (h : Board s) (clock : ℤ) (event : Event) : Board (s.handleEvent clock event) := by
  cases event with
  | unknown type =>
      exact h
  | backupCompleted event =>
      exact (((h.emitMetrics clock event).evaluateFailed clock event).evaluateOverdue clock
        event).evaluateStorageLow clock event

theorem handleEvents (h : Board s) (events : List (Event × ℤ)) : Board (s.handleEvents events) := by
  induction events generalizing s with
  | nil =>
      exact h
  | cons event events ih =>
      exact ih (h.handleEvent event.2 event.1)

end Board

/-! ## What an event does to one alarm -/

namespace World

variable {s : World}

/-- An evaluation of one alarm leaves the others alone. -/
def SameAlarm (s s' : World) (key : NotificationKey) : Prop :=
  (key ∈ s'.active ↔ key ∈ s.active) ∧ s'.alarm key = s.alarm key

theorem SameAlarm.trans {s s' s'' : World} {key : NotificationKey} (h : SameAlarm s s' key)
    (h' : SameAlarm s' s'' key) : SameAlarm s s'' key :=
  ⟨h'.1.trans h.1, h'.2.trans h.2⟩

theorem emitNotification_other {key key' : NotificationKey} (hkey : key' ≠ key) (state : AlarmState)
    (message : String) (timestamp : ℤ) :
    SameAlarm s (s.emitNotification key state message timestamp) key' := by
  simp [SameAlarm, alarm_emitNotification, hkey]

theorem clearNotification_other {key key' : NotificationKey} (hkey : key' ≠ key) (clock : ℤ) :
    SameAlarm s (s.clearNotification clock key) key' := by
  simp [SameAlarm, alarm_clearNotification, hkey]

theorem emitMetrics_same (clock : ℤ) (event : BackupCompletedEvent) (key : NotificationKey) :
    SameAlarm s (s.emitMetrics clock event) key := by
  simp [SameAlarm]

theorem evaluateFailed_other {key : NotificationKey} (hkey : key ≠ .failed) (clock : ℤ)
    (event : BackupCompletedEvent) : SameAlarm s (s.evaluateFailed clock event) key := by
  unfold evaluateFailed
  split
  · exact SameAlarm.trans ⟨Iff.rfl, rfl⟩ (clearNotification_other hkey clock)
  · exact emitNotification_other hkey _ _ _

theorem evaluateOverdue_other {key : NotificationKey} (hkey : key ≠ .overdue) (clock : ℤ)
    (event : BackupCompletedEvent) : SameAlarm s (s.evaluateOverdue clock event) key := by
  unfold evaluateOverdue
  dsimp only
  split
  · exact emitNotification_other hkey _ _ _
  · exact clearNotification_other hkey clock

theorem evaluateStorageLow_other {key : NotificationKey} (hkey : key ≠ .storageLow) (clock : ℤ)
    (event : BackupCompletedEvent) : SameAlarm s (s.evaluateStorageLow clock event) key := by
  unfold evaluateStorageLow
  dsimp only
  split
  · exact ⟨Iff.rfl, rfl⟩
  · split
    · exact emitNotification_other hkey _ _ _
    · split
      · exact clearNotification_other hkey clock
      · exact ⟨Iff.rfl, rfl⟩

theorem evaluateFailed_active (clock : ℤ) (event : BackupCompletedEvent) :
    .failed ∈ (s.evaluateFailed clock event).active ↔ event.succeeded = false := by
  unfold evaluateFailed
  split
  case isTrue hsucceeded =>
      simp [hsucceeded]
  case isFalse hfailed =>
      simpa [raiseFailedNotification] using hfailed

theorem evaluateOverdue_active (clock : ℤ) (event : BackupCompletedEvent) :
    .overdue ∈ (s.evaluateOverdue clock event).active ↔
      ∃ tier ∈ overdueTiers,
        isStale (s.emitter.lastSuccessByTier tier) tier event.timestamp = true := by
  unfold evaluateOverdue
  dsimp only
  split
  case h_1 tier hfind =>
      have hstale := List.find?_some hfind
      simpa using ⟨tier, List.mem_of_find?_eq_some hfind, hstale⟩
  case h_2 hnone =>
      rw [List.find?_eq_none] at hnone
      simpa using hnone

/-! ### Free space -/

theorem evaluateStorageLow_unknown {event : BackupCompletedEvent} (h : event.totalBytes ≤ 0)
    (clock : ℤ) : s.evaluateStorageLow clock event = s := by
  simp only [evaluateStorageLow, h, if_true]

theorem evaluateStorageLow_raised {event : BackupCompletedEvent} {state : AlarmState}
    (h : 0 < event.totalBytes)
    (hstate : raisedState (event.freeBytes / event.totalBytes) = some state) (clock : ℤ) :
    (s.evaluateStorageLow clock event).alarm .storageLow = some state := by
  simp only [evaluateStorageLow, not_le.2 h, if_false, hstate, alarm_emitNotification, if_true]

theorem evaluateStorageLow_clear {event : BackupCompletedEvent} (h : 0 < event.totalBytes)
    (hstate : raisedState (event.freeBytes / event.totalBytes) = none)
    (hclear : STORAGE_LOW_CLEAR ≤ event.freeBytes / event.totalBytes) (clock : ℤ) :
    s.evaluateStorageLow clock event = s.clearNotification clock .storageLow := by
  simp only [evaluateStorageLow, not_le.2 h, if_false, hstate, hclear, and_true]
  split
  case isTrue =>
      rfl
  case isFalse hquiet =>
      simp only [clearNotification, hquiet, not_false_eq_true, if_true]

theorem evaluateStorageLow_band {event : BackupCompletedEvent} (h : 0 < event.totalBytes)
    (hstate : raisedState (event.freeBytes / event.totalBytes) = none)
    (hclear : event.freeBytes / event.totalBytes < STORAGE_LOW_CLEAR) (clock : ℤ) :
    s.evaluateStorageLow clock event = s := by
  simp only [evaluateStorageLow, not_le.2 h, if_false, hstate, not_le.2 hclear, and_false]

theorem raisedState_alert {freeRatio : ℚ} (h : freeRatio < STORAGE_LOW_ALERT) :
    raisedState freeRatio = some .alert :=
  if_pos h

theorem raisedState_warn {freeRatio : ℚ} (h : STORAGE_LOW_ALERT ≤ freeRatio)
    (hwarn : freeRatio < STORAGE_LOW_WARN) : raisedState freeRatio = some .warn :=
  (if_neg (not_lt.2 h)).trans (if_pos hwarn)

theorem raisedState_none {freeRatio : ℚ} (h : STORAGE_LOW_WARN ≤ freeRatio) :
    raisedState freeRatio = none := by
  have halert : STORAGE_LOW_ALERT ≤ freeRatio := le_trans (by norm_num [STORAGE_LOW_ALERT,
    STORAGE_LOW_WARN]) h
  exact (if_neg (not_lt.2 halert)).trans (if_neg (not_lt.2 h))

end World

/-! ## The recorded successes -/

/-- The successes among the events, by tier. -/
def successes (events : List (Event × ℤ)) : List (BackupTier × ℤ) :=
  events.filterMap fun
    | (.backupCompleted event, _) =>
        if event.succeeded then some (event.tier, event.timestamp) else none
    | (.unknown _, _) => none

/-- The last recorded success of a tier. -/
def recorded (events : List (Event × ℤ)) (tier : BackupTier) : Option ℤ :=
  lastOn (successes events) tier

namespace World

variable {s : World}

@[simp] theorem lastSuccess_clearNotification (clock : ℤ) (key : NotificationKey) :
    (s.clearNotification clock key).emitter.lastSuccessByTier = s.emitter.lastSuccessByTier := by
  unfold clearNotification
  split <;> rfl

theorem lastSuccess_evaluateFailed (clock : ℤ) (event : BackupCompletedEvent) :
    (s.evaluateFailed clock event).emitter.lastSuccessByTier =
      if event.succeeded then
        Function.update s.emitter.lastSuccessByTier event.tier (some event.timestamp)
      else s.emitter.lastSuccessByTier := by
  unfold evaluateFailed
  split
  · simp [recordSuccess]
  · rfl

@[simp] theorem lastSuccess_evaluateOverdue (clock : ℤ) (event : BackupCompletedEvent) :
    (s.evaluateOverdue clock event).emitter.lastSuccessByTier = s.emitter.lastSuccessByTier := by
  unfold evaluateOverdue
  dsimp only
  split
  · rfl
  · exact lastSuccess_clearNotification _ _

@[simp] theorem lastSuccess_evaluateStorageLow (clock : ℤ) (event : BackupCompletedEvent) :
    (s.evaluateStorageLow clock event).emitter.lastSuccessByTier =
      s.emitter.lastSuccessByTier := by
  unfold evaluateStorageLow
  dsimp only
  split
  · rfl
  · split
    · rfl
    · split
      · exact lastSuccess_clearNotification _ _
      · rfl

theorem lastSuccess_handleEvent (clock : ℤ) (event : Event) (tier : BackupTier) :
    (s.handleEvent clock event).emitter.lastSuccessByTier tier =
      (recorded [(event, clock)] tier).or (s.emitter.lastSuccessByTier tier) := by
  cases event with
  | unknown type =>
      simp [handleEvent, recorded, successes]
  | backupCompleted event =>
      simp only [handleEvent, lastSuccess_evaluateStorageLow, lastSuccess_evaluateOverdue,
        lastSuccess_evaluateFailed]
      cases hsucceeded : event.succeeded with
      | false =>
          simp [recorded, successes, hsucceeded, emitMetrics, handleMessage]
      | true =>
          by_cases htier : tier = event.tier
          · subst htier
            simp [recorded, successes, hsucceeded]
          · have hother : event.tier ≠ tier := Ne.symm htier
            simp [recorded, successes, hsucceeded, htier, hother, lastOn, emitMetrics, handleMessage]

theorem lastSuccess_handleEvents (events : List (Event × ℤ)) (tier : BackupTier) :
    (s.handleEvents events).emitter.lastSuccessByTier tier =
      (recorded events tier).or (s.emitter.lastSuccessByTier tier) := by
  induction events generalizing s with
  | nil =>
      rfl
  | cons event events ih =>
      have hsplit : successes (event :: events) = successes [event] ++ successes events :=
        List.filterMap_append (l := [event])
      rw [handleEvents, ih, lastSuccess_handleEvent, ← Option.or_assoc]
      simp only [recorded, hsplit, lastOn_append]

theorem handleEvents_append (events events' : List (Event × ℤ)) :
    s.handleEvents (events ++ events') = (s.handleEvents events).handleEvents events' := by
  induction events generalizing s with
  | nil =>
      rfl
  | cons event events ih =>
      exact ih

end World

/-! ## Every event -/

namespace World

variable {s : World}

theorem handleEvent_failed (clock : ℤ) (event : BackupCompletedEvent) :
    .failed ∈ (s.handleEvent clock (.backupCompleted event)).active ↔ event.succeeded = false := by
  have hlater := (evaluateOverdue_other (s := (s.emitMetrics clock event).evaluateFailed clock event)
    (show NotificationKey.failed ≠ .overdue by decide) clock event).trans
      (evaluateStorageLow_other (by decide) clock event)
  exact hlater.1.trans (evaluateFailed_active clock event)

theorem handleEvent_overdue (clock : ℤ) (event : BackupCompletedEvent) :
    .overdue ∈ (s.handleEvent clock (.backupCompleted event)).active ↔
      ∃ tier ∈ overdueTiers,
        isStale ((s.handleEvent clock (.backupCompleted event)).emitter.lastSuccessByTier tier) tier
          event.timestamp = true := by
  have hlater := evaluateStorageLow_other (s := ((s.emitMetrics clock event).evaluateFailed
    clock event).evaluateOverdue clock event) (show NotificationKey.overdue ≠ .storageLow by decide)
    clock event
  refine hlater.1.trans ((evaluateOverdue_active clock event).trans ?_)
  simp only [handleEvent, lastSuccess_evaluateStorageLow, lastSuccess_evaluateOverdue]

/-- The evaluations of the other alarms leave the storage alarm to the last one. -/
theorem handleEvent_storageLow (clock : ℤ) (event : BackupCompletedEvent) :
    ∃ s' : World, SameAlarm s s' .storageLow ∧
      s.handleEvent clock (.backupCompleted event) = s'.evaluateStorageLow clock event :=
  ⟨_, ((emitMetrics_same clock event .storageLow).trans
    (evaluateFailed_other (by decide) clock event)).trans
      (evaluateOverdue_other (by decide) clock event), rfl⟩

end World

theorem isStale_iff {lastSuccess : Option ℤ} {tier : BackupTier} {now : ℤ} :
    World.isStale lastSuccess tier now = true ↔
      ∃ t, lastSuccess = some t ∧ 2 * TIER_INTERVAL_MS tier < now - t := by
  simp only [World.isStale, Option.any_eq_true, decide_eq_true_eq]
  rfl

/-- `overdue` is active when some tier's recorded success is too old as of the event. -/
theorem overdue_recorded (selfId baseUrl : String) (past : List (Event × ℤ))
    (event : BackupCompletedEvent) (clock : ℤ) :
    .overdue ∈ ((newWorld selfId baseUrl).handleEvents
        (past ++ [(.backupCompleted event, clock)])).active ↔
      ∃ tier ∈ World.overdueTiers,
        ∃ t, recorded (past ++ [(.backupCompleted event, clock)]) tier = some t ∧
          2 * TIER_INTERVAL_MS tier < event.timestamp - t := by
  have hrecorded := World.lastSuccess_handleEvents (s := newWorld selfId baseUrl)
    (past ++ [(.backupCompleted event, clock)])
  have hempty : (newWorld selfId baseUrl).emitter.lastSuccessByTier = fun _ => none := rfl
  simp only [hempty, Option.or_none] at hrecorded
  rw [World.handleEvents_append] at hrecorded ⊢
  refine (World.handleEvent_overdue clock event).trans ?_
  simp only [World.handleEvents] at hrecorded
  simp only [isStale_iff, hrecorded]

/-- The alarms after an event, of one emitter that has handled the events `past` before it. -/
structure AlarmsFollow (past : List (Event × ℤ)) (event : BackupCompletedEvent) (clock : ℤ)
    (before after : World) : Prop where
  active : ∀ key, key ∈ after.active ↔ after.Raised key
  clears : ClearsRaised after.deltas
  failed : .failed ∈ after.active ↔
    ¬(event.localResult = .success ∧ event.cloudResult ≠ some .failure)
  overdue : .overdue ∈ after.active ↔
    ∃ tier ∈ [BackupTier.hourly, .daily, .weekly],
      ∃ t, recorded (past ++ [(.backupCompleted event, clock)]) tier = some t ∧
        2 * TIER_INTERVAL_MS tier < event.timestamp - t
  alert : 0 < event.totalBytes → event.freeBytes / event.totalBytes < 5 / 100 →
    after.alarm .storageLow = some .alert
  warn : 0 < event.totalBytes → 5 / 100 ≤ event.freeBytes / event.totalBytes →
    event.freeBytes / event.totalBytes < 10 / 100 → after.alarm .storageLow = some .warn
  clear : 0 < event.totalBytes → 12 / 100 ≤ event.freeBytes / event.totalBytes →
    ¬after.Raised .storageLow
  band : 0 < event.totalBytes → 10 / 100 ≤ event.freeBytes / event.totalBytes →
    event.freeBytes / event.totalBytes < 12 / 100 →
      after.alarm .storageLow = before.alarm .storageLow
  unknownSize : event.totalBytes ≤ 0 → after.alarm .storageLow = before.alarm .storageLow

/-- The alarms after every event of every sequence, on a new emitter. -/
theorem alarms_follow (selfId baseUrl : String) (past : List (Event × ℤ))
    (event : BackupCompletedEvent) (clock : ℤ) :
    AlarmsFollow past event clock
      ((newWorld selfId baseUrl).handleEvents past)
      ((newWorld selfId baseUrl).handleEvents (past ++ [(.backupCompleted event, clock)])) := by
  have hboard := (newWorld_board selfId baseUrl).handleEvents past
  have hoverdue := overdue_recorded selfId baseUrl past event clock
  rw [World.handleEvents_append] at hoverdue ⊢
  generalize (newWorld selfId baseUrl).handleEvents past = s at *
  have hafter := hboard.handleEvent clock (.backupCompleted event)
  have halert : STORAGE_LOW_ALERT = 5 / 100 := by norm_num [STORAGE_LOW_ALERT]
  have hwarn : STORAGE_LOW_WARN = 10 / 100 := by norm_num [STORAGE_LOW_WARN]
  have hclear : STORAGE_LOW_CLEAR = 12 / 100 := by norm_num [STORAGE_LOW_CLEAR]
  -- storageLow is evaluated last, on the state that the other two alarms leave
  rcases World.handleEvent_storageLow (s := s) clock event with ⟨s', hsame, hlast⟩
  refine ⟨hafter.active, hafter.clears, ?failed, ?overdue, ?alert, ?warn, ?clear, ?band, ?unknown⟩
  case failed =>
      refine (World.handleEvent_failed clock event).trans ?_
      simp [BackupCompletedEvent.succeeded]
  case overdue =>
      exact hoverdue
  case alert =>
      intro htotal hratio
      rw [World.handleEvents, World.handleEvents, hlast]
      exact World.evaluateStorageLow_raised htotal (World.raisedState_alert (halert ▸ hratio)) clock
  case warn =>
      intro htotal hlow hratio
      rw [World.handleEvents, World.handleEvents, hlast]
      exact World.evaluateStorageLow_raised htotal
        (World.raisedState_warn (halert ▸ hlow) (hwarn ▸ hratio)) clock
  case clear =>
      intro htotal hratio hraised
      -- a raised alarm is active, and a clear leaves its key inactive
      have hnone : World.raisedState (event.freeBytes / event.totalBytes) = none :=
        World.raisedState_none (by rw [hwarn]; linarith)
      have hquiet := World.evaluateStorageLow_clear (s := s') htotal hnone (hclear ▸ hratio) clock
      have hactive := (hafter.active .storageLow).2 hraised
      rw [hlast, hquiet, World.active_clearNotification] at hactive
      exact absurd hactive (Finset.notMem_erase _ _)
  case band =>
      intro htotal hlow hratio
      rw [World.handleEvents, World.handleEvents, hlast, World.evaluateStorageLow_band htotal
        (World.raisedState_none (hwarn ▸ hlow)) (hclear ▸ hratio)]
      exact hsame.2
  case unknown =>
      intro htotal
      rw [World.handleEvents, World.handleEvents, hlast, World.evaluateStorageLow_unknown htotal]
      exact hsame.2

end Deltas
end SignalKBackup
