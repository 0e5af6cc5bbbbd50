import SignalKBackup.Deltas.Alarms

/-!
# Restarts — alarms across emitters

`stopSignalKEmitter` and `startSignalKEmitter` replace the emitter and with it the set of alarms it
has raised; the alarms themselves stay published.  A new emitter clears nothing it has not raised, so
an alarm that is raised over a restart is orphaned: an event that satisfies its clear condition
leaves it raised (`alarm_outlives_restart`).

`Standing` follows one alarm through a run by the inputs alone, and `acts_stands` connects it with
what the emitters do; `cleared_iff` is the exact condition.
-/

namespace SignalKBackup
namespace Deltas

inductive Action
  | event (event : Event) (clock : ℤ)
  /-- The emitter is stopped, and a new one started. -/
  | restart (baseUrl : String)

def World.act (s : World) : Action → World
  | .event event clock => s.handleEvent clock event
  | .restart baseUrl => { s with emitter := newEmitter s.emitter.selfId baseUrl }

def World.acts (s : World) (as : List Action) : World :=
  as.foldl World.act s

/-! ## The documented conditions -/

/-- The event raises the alarm. -/
def raises : NotificationKey → BackupCompletedEvent → Bool
  | .failed, event => !event.succeeded
  | .storageLow, event =>
      decide (0 < event.totalBytes) && decide (event.freeBytes / event.totalBytes < 10 / 100)
  | .overdue, _ => false

/-- The event satisfies the condition under which the alarm is to be cleared. -/
def clears : NotificationKey → BackupCompletedEvent → Bool
  | .failed, event => event.succeeded
  | .storageLow, event =>
      decide (0 < event.totalBytes) && decide (12 / 100 ≤ event.freeBytes / event.totalBytes)
  | .overdue, _ => false

def Action.raises (key : NotificationKey) : Action → Bool
  | .event (.backupCompleted run) _ => Deltas.raises key run
  | _ => false

def Action.clears (key : NotificationKey) : Action → Bool
  | .event (.backupCompleted run) _ => Deltas.clears key run
  | _ => false

def Action.isRestart : Action → Bool
  | .restart _ => true
  | .event _ _ => false

/-- The alarm was raised, not cleared before a restart, and not raised again since. -/
def Orphaned (key : NotificationKey) (as : List Action) : Prop :=
  ∃ before raise between baseUrl after,
    as = before ++ raise :: (between ++ .restart baseUrl :: after) ∧ raise.raises key = true ∧
      (∀ a ∈ between, a.clears key = false) ∧ ∀ a ∈ after, a.raises key = false

/-! ## An alarm, followed by the inputs -/

inductive Standing
  | quiet
  | raised
  | orphaned
  deriving DecidableEq

def Standing.next (key : NotificationKey) (st : Standing) (a : Action) : Standing :=
  if a.raises key then .raised
  else if st = .raised ∧ a.clears key then .quiet
  else if st = .raised ∧ a.isRestart then .orphaned
  else st

def standing (key : NotificationKey) (as : List Action) : Standing :=
  as.foldl (Standing.next key) .quiet

theorem standing_concat (key : NotificationKey) (as : List Action) (a : Action) :
    standing key (as ++ [a]) = (standing key as).next key a := by
  simp [standing, List.foldl_append]

theorem not_raises_of_clears {key : NotificationKey} {a : Action} (h : a.clears key = true) :
    a.raises key = false := by
  cases a with
  | restart baseUrl => cases h
  | event event clock =>
      cases event with
      | unknown type => cases h
      | backupCompleted run =>
          cases key with
          | failed =>
              simpa [Action.raises, Deltas.raises, Action.clears, Deltas.clears] using h
          | overdue => cases h
          | storageLow =>
              simp only [Action.clears, Deltas.clears, Bool.and_eq_true, decide_eq_true_eq] at h
              simp only [Action.raises, Deltas.raises, Bool.and_eq_false_iff,
                decide_eq_false_iff_not, not_lt]
              exact Or.inr (le_trans (by norm_num) h.2)

/-- A raised alarm goes back to an event that raised it, with nothing since that clears it. -/
theorem raised_split {key : NotificationKey} {as : List Action} (h : standing key as = .raised) :
    ∃ before raise between, as = before ++ raise :: between ∧ raise.raises key = true ∧
      ∀ a ∈ between, a.clears key = false := by
  -- on the last action: it raises, it clears, or it leaves the alarm as it is
  induction as using List.reverseRecOn with
  | nil => cases h
  | append_singleton as a ih =>
      rw [standing_concat, Standing.next] at h
      split at h
      case isTrue hraises =>
          exact ⟨as, a, [], rfl, hraises, by simp⟩
      case isFalse =>
          split at h
          case isTrue => cases h
          case isFalse hclears =>
              split at h
              case isTrue => cases h
              case isFalse =>
                  rcases ih h with ⟨before, raise, between, rfl, hraise, hbetween⟩
                  refine ⟨before, raise, between ++ [a], by simp, hraise, fun b hb => ?_⟩
                  rcases List.mem_append.1 hb with hold | hnew
                  · exact hbetween b hold
                  · rw [List.mem_singleton.1 hnew]
                    simpa [h] using hclears

theorem orphaned_split {key : NotificationKey} {as : List Action}
    (h : standing key as = .orphaned) : Orphaned key as := by
  -- on the last action: a restart orphans what is raised, and nothing else does
  induction as using List.reverseRecOn with
  | nil => cases h
  | append_singleton as a ih =>
      rw [standing_concat, Standing.next] at h
      split at h
      case isTrue => cases h
      case isFalse hraises =>
          split at h
          case isTrue => cases h
          case isFalse =>
              split at h
              case isTrue hrestart =>
                  rcases raised_split hrestart.1 with ⟨before, raise, between, rfl, hraise, hbetween⟩
                  cases a with
                  | event event clock => cases hrestart.2
                  | restart baseUrl =>
                      exact ⟨before, raise, between, baseUrl, [], by simp, hraise, hbetween, by simp⟩
              case isFalse =>
                  rcases ih h with
                    ⟨before, raise, between, baseUrl, after, rfl, hraise, hbetween, hafter⟩
                  refine ⟨before, raise, between, baseUrl, after ++ [a], by simp, hraise, hbetween,
                    fun b hb => ?_⟩
                  rcases List.mem_append.1 hb with hold | hnew
                  · exact hafter b hold
                  · rw [List.mem_singleton.1 hnew]
                    simpa using hraises

/-- Without an action that clears it an alarm does not become quiet. -/
theorem foldl_not_quiet {key : NotificationKey} {st : Standing} {as : List Action}
    (hst : st ≠ .quiet) (h : ∀ a ∈ as, a.clears key = false) :
    as.foldl (Standing.next key) st ≠ .quiet := by
  induction as generalizing st with
  | nil =>
      exact hst
  | cons a as ih =>
      refine ih ?_ fun b hb => h b (by simp [hb])
      have hclears := h a (by simp)
      unfold Standing.next
      split
      · decide
      · rw [if_neg (by simp [hclears])]
        split
        · decide
        · exact hst

/-- Without an action that raises it an orphaned alarm stays so. -/
theorem foldl_orphaned {key : NotificationKey} {as : List Action}
    (h : ∀ a ∈ as, a.raises key = false) :
    as.foldl (Standing.next key) .orphaned = .orphaned := by
  induction as with
  | nil =>
      rfl
  | cons a as ih =>
      have hraises := h a (by simp)
      have hnext : Standing.next key .orphaned a = .orphaned := by simp [Standing.next, hraises]
      rw [List.foldl_cons, hnext]
      exact ih fun b hb => h b (by simp [hb])

theorem orphaned_iff {key : NotificationKey} {as : List Action} :
    Orphaned key as ↔ standing key as = .orphaned := by
  constructor
  · rintro ⟨before, raise, between, baseUrl, after, rfl, hraise, hbetween, hafter⟩
    have hraised : Standing.next key (standing key before) raise = .raised := by
      simp [Standing.next, hraise]
    have hkept : between.foldl (Standing.next key) .raised ≠ .quiet :=
      foldl_not_quiet (by decide) hbetween
    have hrestart : Standing.next key (between.foldl (Standing.next key) .raised)
        (.restart baseUrl) = .orphaned := by
      cases hst : between.foldl (Standing.next key) .raised with
      | quiet =>
          exact absurd hst hkept
      | raised =>
          rfl
      | orphaned =>
          rfl
    have hfold : standing key (before ++ raise :: (between ++ .restart baseUrl :: after)) =
        after.foldl (Standing.next key) (Standing.next key (between.foldl (Standing.next key)
          (Standing.next key (standing key before) raise)) (.restart baseUrl)) := by
      simp [standing, List.foldl_append]
    rw [hfold, hraised, hrestart]
    exact foldl_orphaned hafter
  · exact orphaned_split

/-! ## What the emitters do -/

/-- How an alarm stands: raised by the current emitter, published as raised by an older one, or
neither. -/
structure Stands (key : NotificationKey) (s : World) (st : Standing) : Prop where
  active : key ∈ s.active ↔ st = .raised
  raised : s.Raised key ↔ st ≠ .quiet

namespace Stands

variable {key : NotificationKey} {s s' : World} {st : Standing}

theorem same (h : Stands key s st) (hsame : World.SameAlarm s s' key) : Stands key s' st := by
  refine ⟨hsame.1.trans h.active, ?_⟩
  simpa only [World.Raised, hsame.2] using h.raised

theorem emit {state : AlarmState} (hstate : state ≠ .normal) (message : String) (timestamp : ℤ) :
    Stands key (s.emitNotification key state message timestamp) .raised := by
  refine ⟨by simp, ?_⟩
  simp [World.Raised, World.alarm_emitNotification, hstate]

theorem clear (h : Stands key s st) (clock : ℤ) :
    Stands key (s.clearNotification clock key) (if st = .raised then .quiet else st) := by
  by_cases hraised : st = .raised
  · have hactive := h.active.2 hraised
    refine ⟨by simp [hraised], ?_⟩
    simp [World.Raised, World.alarm_clearNotification, hactive, hraised]
  · have hactive : key ∉ s.active := fun hmem => hraised (h.active.1 hmem)
    rw [if_neg hraised]
    refine h.same ⟨?_, ?_⟩
    · simp [hactive]
    · simp [World.alarm_clearNotification, hactive]

end Stands

/-- What the evaluation of one alarm does with an event. -/
inductive Evaluated (key : NotificationKey) (run : BackupCompletedEvent) (clock : ℤ) (s : World) :
    World → Prop where
  | raised {state : AlarmState} (message : String) (timestamp : ℤ) : raises key run = true →
      state ≠ .normal → Evaluated key run clock s (s.emitNotification key state message timestamp)
  | cleared : clears key run = true → Evaluated key run clock s (s.clearNotification clock key)
  | kept : raises key run = false → clears key run = false → Evaluated key run clock s s

theorem evaluated_failed (s : World) (run : BackupCompletedEvent) (clock : ℤ) :
    ∃ s₁ s₂, World.SameAlarm s s₁ .failed ∧ Evaluated .failed run clock s₁ s₂ ∧
      World.SameAlarm s₂ (s.handleEvent clock (.backupCompleted run)) .failed := by
  have hlater := (World.evaluateOverdue_other (s := (s.emitMetrics clock run).evaluateFailed clock run)
    (show NotificationKey.failed ≠ .overdue by decide) clock run).trans
      (World.evaluateStorageLow_other (by decide) clock run)
  cases hsucceeded : run.succeeded with
  | true =>
      refine ⟨(s.emitMetrics clock run).recordSuccess run, (s.emitMetrics clock run).evaluateFailed
        clock run, (World.emitMetrics_same clock run .failed).trans ⟨Iff.rfl, rfl⟩, ?_, hlater⟩
      rw [World.evaluateFailed, if_pos hsucceeded]
      exact .cleared hsucceeded
  | false =>
      refine ⟨s.emitMetrics clock run, (s.emitMetrics clock run).evaluateFailed clock run,
        World.emitMetrics_same clock run .failed, ?_, hlater⟩
      rw [World.evaluateFailed, if_neg (by simp [hsucceeded])]
      exact .raised _ _ (by simp [raises, hsucceeded]) (by decide)

theorem evaluated_storageLow (s : World) (run : BackupCompletedEvent) (clock : ℤ) :
    ∃ s₁ s₂, World.SameAlarm s s₁ .storageLow ∧ Evaluated .storageLow run clock s₁ s₂ ∧
      World.SameAlarm s₂ (s.handleEvent clock (.backupCompleted run)) .storageLow := by
  rcases World.handleEvent_storageLow (s := s) clock run with ⟨s', hsame, hlast⟩
  refine ⟨s', s'.evaluateStorageLow clock run, hsame, ?_, by rw [hlast]; exact ⟨Iff.rfl, rfl⟩⟩
  have hwarn : STORAGE_LOW_WARN = 10 / 100 := by norm_num [STORAGE_LOW_WARN]
  have hclear : STORAGE_LOW_CLEAR = 12 / 100 := by norm_num [STORAGE_LOW_CLEAR]
  by_cases htotal : run.totalBytes ≤ 0
  · rw [World.evaluateStorageLow_unknown htotal]
    exact .kept (by simp [raises, not_lt.2 htotal]) (by simp [clears, not_lt.2 htotal])
  · have htotal' := not_le.1 htotal
    cases hstate : World.raisedState (run.freeBytes / run.totalBytes) with
    | some state =>
        have hlow : run.freeBytes / run.totalBytes < 10 / 100 := by
          by_contra hhigh
          rw [World.raisedState_none (by rw [hwarn]; exact not_lt.1 hhigh)] at hstate
          cases hstate
        simp only [World.evaluateStorageLow, htotal, if_false, hstate]
        exact .raised _ _ (by simp [raises, htotal', hlow]) (Board.raisedState_ne_normal hstate)
    | none =>
        have hhigh : 10 / 100 ≤ run.freeBytes / run.totalBytes := by
          by_contra hlow
          rw [← hwarn, not_le] at hlow
          by_cases halert : run.freeBytes / run.totalBytes < STORAGE_LOW_ALERT
          · rw [World.raisedState_alert halert] at hstate
            cases hstate
          · rw [World.raisedState_warn (not_lt.1 halert) hlow] at hstate
            cases hstate
        -- from 10% to 12% the alarm is kept, and from there on it is cleared
        by_cases hclears : run.freeBytes / run.totalBytes < 12 / 100
        · rw [World.evaluateStorageLow_band htotal' hstate (hclear ▸ hclears)]
          exact .kept (by simp [raises, not_lt.2 hhigh]) (by simp [clears, not_le.2 hclears])
        · rw [World.evaluateStorageLow_clear htotal' hstate (hclear ▸ not_lt.1 hclears)]
          exact .cleared (by simp [clears, htotal', not_lt.1 hclears])

theorem Stands.evaluated {key : NotificationKey} {s s' : World} {st : Standing}
    {run : BackupCompletedEvent} {clock : ℤ} (h : Stands key s st)
    (he : Evaluated key run clock s s') :
    Stands key s' (st.next key (.event (.backupCompleted run) clock)) := by
  cases he with
  | raised message timestamp hraises hstate =>
      have hnext : st.next key (.event (.backupCompleted run) clock) = .raised := if_pos hraises
      rw [hnext]
      exact .emit hstate message timestamp
  | cleared hclears =>
      have hraises := not_raises_of_clears (a := .event (.backupCompleted run) clock) hclears
      have hnext : st.next key (.event (.backupCompleted run) clock) =
          if st = .raised then .quiet else st := by
        simp [Standing.next, hraises, Action.clears, hclears, Action.isRestart]
      rw [hnext]
      exact h.clear clock
  | kept hraises hclears =>
      have hnext : st.next key (.event (.backupCompleted run) clock) = st := by
        simp [Standing.next, Action.raises, hraises, Action.clears, hclears, Action.isRestart]
      rw [hnext]
      exact h

/-- The alarms that a single event raises or clears. -/
theorem Stands.act {key : NotificationKey} (hkey : key ≠ .overdue) {s : World} {st : Standing}
    (h : Stands key s st) (a : Action) : Stands key (s.act a) (st.next key a) := by
  cases a with
  | restart baseUrl =>
      have hnext : st.next key (.restart baseUrl) = if st = .raised then .orphaned else st := by
        simp [Standing.next, Action.raises, Action.clears, Action.isRestart]
      rw [hnext]
      -- the new emitter's set is empty, and what the server shows stays
      refine ⟨?_, ?_⟩
      · cases st <;> simp [World.act, World.active, newEmitter]
      · refine Iff.trans h.raised ?_
        cases st <;> simp
  | event event clock =>
      cases event with
      | unknown type =>
          have hnext : st.next key (.event (.unknown type) clock) = st := by
            simp [Standing.next, Action.raises, Action.clears, Action.isRestart]
          rw [hnext]
          exact h
      | backupCompleted run =>
          cases key with
          | failed =>
              rcases evaluated_failed s run clock with ⟨s₁, s₂, hbefore, heval, hafter⟩
              exact ((h.same hbefore).evaluated heval).same hafter
          | storageLow =>
              rcases evaluated_storageLow s run clock with ⟨s₁, s₂, hbefore, heval, hafter⟩
              exact ((h.same hbefore).evaluated heval).same hafter
          | overdue =>
              exact absurd rfl hkey

theorem newWorld_stands (selfId baseUrl : String) (key : NotificationKey) :
    Stands key (newWorld selfId baseUrl) .quiet := by
  refine ⟨?_, ?_⟩
  · simp [World.active, newWorld, newEmitter]
  · simp [World.Raised, World.alarm, published, newWorld]

theorem acts_stands {key : NotificationKey} (hkey : key ≠ .overdue) (selfId baseUrl : String)
    (as : List Action) : Stands key ((newWorld selfId baseUrl).acts as) (standing key as) := by
  induction as using List.reverseRecOn with
  | nil =>
      exact newWorld_stands selfId baseUrl key
  | append_singleton as a ih =>
      rw [standing_concat, World.acts, List.foldl_append]
      exact ih.act hkey a

/-! ## No alarm outlives its cause -/

/-- After an event that satisfies the clear condition of `failed` or `storageLow`, the alarm is not
raised, exactly when it has not been orphaned by a restart. -/
theorem cleared_iff {key : NotificationKey} (hkey : key ≠ .overdue) (selfId baseUrl : String)
    (as : List Action) {run : BackupCompletedEvent} (hclears : clears key run = true) (clock : ℤ) :
    (∀ state, ((newWorld selfId baseUrl).acts
        (as ++ [.event (.backupCompleted run) clock])).alarm key = some state → state = .normal) ↔
      ¬Orphaned key as := by
  have hstands := acts_stands hkey selfId baseUrl (as ++ [.event (.backupCompleted run) clock])
  have hraises := not_raises_of_clears (a := .event (.backupCompleted run) clock) hclears
  have hnext : standing key (as ++ [.event (.backupCompleted run) clock]) =
      if standing key as = .raised then .quiet else standing key as := by
    rw [standing_concat]
    simp [Standing.next, hraises, Action.clears, hclears, Action.isRestart]
  have hquiet : (∀ state, ((newWorld selfId baseUrl).acts
      (as ++ [.event (.backupCompleted run) clock])).alarm key = some state → state = .normal) ↔
        ¬((newWorld selfId baseUrl).acts (as ++ [.event (.backupCompleted run) clock])).Raised key := by
    simp [World.Raised]
  rw [hquiet, hstands.raised, hnext, orphaned_iff, not_not]
  cases standing key as <;> simp

/-! ### A failed run, a restart, and a successful run -/

/-- Without a restart after the failure the alarm is cleared. -/
theorem cleared_without_restart :
    ((newWorld "self" "http://127.0.0.1:3010").acts
      ([.restart "http://127.0.0.1:3011", .event (.backupCompleted (plainRun .hourly 0 .failure)) 0] ++
        [.event (.backupCompleted (plainRun .hourly 0 .success)) 1])).alarm .failed =
      some .normal := by
  have hfailed : NotificationKey.failed ≠ .overdue := by decide
  have hclears : clears .failed (plainRun .hourly 0 .success) = true := by decide
  have hsome : ((newWorld "self" "http://127.0.0.1:3010").acts
      ([.restart "http://127.0.0.1:3011", .event (.backupCompleted (plainRun .hourly 0 .failure)) 0] ++
        [.event (.backupCompleted (plainRun .hourly 0 .success)) 1])).alarm .failed ≠ none := by
    decide
  rcases Option.ne_none_iff_exists'.1 hsome with ⟨state, hstate⟩
  have hnormal : state = .normal := by
    refine (cleared_iff hfailed "self" "http://127.0.0.1:3010" _ hclears 1).2 ?_ state hstate
    rw [orphaned_iff]
    decide
  rw [hstate, hnormal]

/-- With one the alarm stays raised. -/
theorem alarm_outlives_restart :
    clears .failed (plainRun .hourly 0 .success) = true ∧
      ((newWorld "self" "http://127.0.0.1:3010").acts
        ([.event (.backupCompleted (plainRun .hourly 0 .failure)) 0, .restart "http://127.0.0.1:3010"] ++
          [.event (.backupCompleted (plainRun .hourly 0 .success)) 1])).alarm .failed = some .alert :=
  ⟨by decide, by decide⟩

end Deltas
end SignalKBackup
