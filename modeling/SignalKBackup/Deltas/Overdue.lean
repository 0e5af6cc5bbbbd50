import SignalKBackup.Deltas.Alarms

/-!
# Overdue — how long the overdue alarm lasts

Every event is evaluated as of its own timestamp, which is the start of its run.  A long run that
ends late is evaluated as of a time at which the overdue tier was still in time, and clears the alarm
(`overdue_not_kept`).  `overdue_kept_iff`: until the tier succeeds, the alarm stays exactly when
every event finds some tier overdue as of its timestamp.
-/

namespace SignalKBackup
namespace Deltas

/-- A run of the tier that succeeded at both destinations. -/
def Event.succeeds (tier : BackupTier) : Event → Bool
  | .backupCompleted event => event.tier == tier && event.succeeded
  | .unknown _ => false

/-- Two intervals of a tier that can be overdue have passed since its last recorded success. -/
def Lapsed (events : List (Event × ℤ)) (now : ℤ) (tier : BackupTier) : Prop :=
  tier ≠ .startup ∧ ∃ t, recorded events tier = some t ∧ 2 * TIER_INTERVAL_MS tier < now - t

theorem mem_overdueTiers {tier : BackupTier} : tier ∈ World.overdueTiers ↔ tier ≠ .startup := by
  cases tier <;> decide

theorem overdue_iff (selfId baseUrl : String) (past : List (Event × ℤ))
    (event : BackupCompletedEvent) (clock : ℤ) :
    .overdue ∈ ((newWorld selfId baseUrl).handleEvents
        (past ++ [(.backupCompleted event, clock)])).active ↔
      ∃ tier, Lapsed (past ++ [(.backupCompleted event, clock)]) event.timestamp tier := by
  refine (overdue_recorded selfId baseUrl past event clock).trans ?_
  constructor
  · rintro ⟨tier, hmem, hlapsed⟩
    exact ⟨tier, mem_overdueTiers.1 hmem, hlapsed⟩
  · rintro ⟨tier, htier, hlapsed⟩
    exact ⟨tier, mem_overdueTiers.2 htier, hlapsed⟩

/-- Other events leave the recorded success of a tier. -/
theorem recorded_append_of_other {events later : List (Event × ℤ)} {tier : BackupTier}
    (h : ∀ e ∈ later, e.1.succeeds tier = false) :
    recorded (events ++ later) tier = recorded events tier := by
  have hsplit : successes (events ++ later) = successes events ++ successes later :=
    List.filterMap_append
  rw [recorded, hsplit]
  refine Lib.lastOn_append_of_absent fun e he => ?_
  rcases List.mem_filterMap.1 he with ⟨⟨event, clock⟩, hmem, hsuccess⟩
  have hother := h _ hmem
  cases event with
  | unknown type => cases hsuccess
  | backupCompleted event =>
      cases hsucceeded : event.succeeded with
      | false =>
          simp [hsucceeded] at hsuccess
      | true =>
          simp only [hsucceeded, if_true, Option.some.injEq] at hsuccess
          subst hsuccess
          simpa [Event.succeeds, hsucceeded] using hother

/-- The alarm stays through the events that follow. -/
def StaysOverdue (selfId baseUrl : String) (past later : List (Event × ℤ)) : Prop :=
  ∀ soFar, soFar <+: later →
    .overdue ∈ ((newWorld selfId baseUrl).handleEvents (past ++ soFar)).active

/-- As of its timestamp, every event that follows finds two intervals passed since the success of the
tier at `t`, or another tier overdue. -/
def FindsOverdue (past later : List (Event × ℤ)) (tier : BackupTier) (t : ℤ) : Prop :=
  ∀ soFar event clock, soFar ++ [(.backupCompleted event, clock)] <+: later →
    t + 2 * TIER_INTERVAL_MS tier < event.timestamp ∨
      ∃ other, other ≠ tier ∧
        Lapsed (past ++ soFar ++ [(.backupCompleted event, clock)]) event.timestamp other

theorem overdue_unknown (selfId baseUrl : String) (past : List (Event × ℤ)) (type : String)
    (clock : ℤ) :
    (newWorld selfId baseUrl).handleEvents (past ++ [(.unknown type, clock)]) =
      (newWorld selfId baseUrl).handleEvents past := by
  rw [World.handleEvents_append]
  rfl

section Later

variable {selfId baseUrl : String} {past later : List (Event × ℤ)} {tier : BackupTier} {t : ℤ}

/-- While the tier does not succeed, an event leaves the alarm active exactly when it finds two
intervals passed since `t`, or another tier overdue. -/
theorem overdue_next_iff (htier : tier ≠ .startup) (hrecorded : recorded past tier = some t)
    (hno : ∀ e ∈ later, e.1.succeeds tier = false) {soFar : List (Event × ℤ)}
    {event : BackupCompletedEvent} {clock : ℤ}
    (hsoFar : soFar ++ [(.backupCompleted event, clock)] <+: later) :
    .overdue ∈ ((newWorld selfId baseUrl).handleEvents
        (past ++ (soFar ++ [(.backupCompleted event, clock)]))).active ↔
      t + 2 * TIER_INTERVAL_MS tier < event.timestamp ∨
        ∃ other, other ≠ tier ∧
          Lapsed (past ++ soFar ++ [(.backupCompleted event, clock)]) event.timestamp other := by
  -- the recorded success is still that of `t`
  have hsame : recorded (past ++ (soFar ++ [(.backupCompleted event, clock)])) tier = some t := by
    rw [recorded_append_of_other fun e he => hno e (hsoFar.subset he)]
    exact hrecorded
  rw [← List.append_assoc] at hsame ⊢
  rw [overdue_iff]
  constructor
  · rintro ⟨other, hother⟩
    by_cases heq : other = tier
    · subst heq
      rcases hother with ⟨_, t', ht', hlate⟩
      cases hsame.symm.trans ht'
      exact Or.inl (by omega)
    · exact Or.inr ⟨other, heq, hother⟩
  · rintro (hlate | ⟨other, _, hother⟩)
    · exact ⟨tier, htier, t, hsame, by omega⟩
    · exact ⟨other, hother⟩

theorem FindsOverdue.stays (h : FindsOverdue past later tier t) (htier : tier ≠ .startup)
    (hrecorded : recorded past tier = some t) (hno : ∀ e ∈ later, e.1.succeeds tier = false)
    (hactive : .overdue ∈ ((newWorld selfId baseUrl).handleEvents past).active) :
    StaysOverdue selfId baseUrl past later := by
  intro soFar
  induction soFar using List.reverseRecOn with
  | nil =>
      intro _
      rw [List.append_nil]
      exact hactive
  | append_singleton soFar last ih =>
      intro hsoFar
      rcases last with ⟨event | type, clock⟩
      · exact (overdue_next_iff htier hrecorded hno hsoFar).2 (h soFar event clock hsoFar)
      · rw [← List.append_assoc, overdue_unknown]
        exact ih ((List.prefix_append _ _).trans hsoFar)

end Later

/-- The event that raises the alarm. -/
theorem overdue_of_lapsed {selfId baseUrl : String} {past : List (Event × ℤ)}
    {event : BackupCompletedEvent} {clock : ℤ} {tier : BackupTier} {t : ℤ} (htier : tier ≠ .startup)
    (hrecorded : recorded (past ++ [(.backupCompleted event, clock)]) tier = some t)
    (hlapsed : t + 2 * TIER_INTERVAL_MS tier < event.timestamp) :
    .overdue ∈ ((newWorld selfId baseUrl).handleEvents
      (past ++ [(.backupCompleted event, clock)])).active := by
  rw [overdue_iff]
  exact ⟨tier, htier, t, hrecorded, by omega⟩

/-- While a tier is overdue and does not succeed, the alarm stays exactly when every event finds a
tier overdue. -/
theorem overdue_kept_iff {selfId baseUrl : String} {past later : List (Event × ℤ)}
    {event : BackupCompletedEvent} {clock : ℤ} {tier : BackupTier} {t : ℤ} (htier : tier ≠ .startup)
    (hrecorded : recorded (past ++ [(.backupCompleted event, clock)]) tier = some t)
    (hlapsed : t + 2 * TIER_INTERVAL_MS tier < event.timestamp)
    (hno : ∀ e ∈ later, e.1.succeeds tier = false) :
    StaysOverdue selfId baseUrl (past ++ [(.backupCompleted event, clock)]) later ↔
      FindsOverdue (past ++ [(.backupCompleted event, clock)]) later tier t := by
  constructor
  · intro hstays soFar event clock hsoFar
    exact (overdue_next_iff htier hrecorded hno hsoFar).1 (hstays _ hsoFar)
  · intro hfinds
    exact hfinds.stays htier hrecorded hno (overdue_of_lapsed htier hrecorded hlapsed)

/-- In the order of their timestamps, events of other tiers leave the alarm raised. -/
theorem overdue_kept_of_ordered {selfId baseUrl : String} {past later : List (Event × ℤ)}
    {event : BackupCompletedEvent} {clock : ℤ} {tier : BackupTier} {t : ℤ} (htier : tier ≠ .startup)
    (hrecorded : recorded (past ++ [(.backupCompleted event, clock)]) tier = some t)
    (hlapsed : t + 2 * TIER_INTERVAL_MS tier < event.timestamp)
    (hno : ∀ e ∈ later, e.1.succeeds tier = false)
    (hordered : ∀ next clock', (.backupCompleted next, clock') ∈ later →
      event.timestamp ≤ next.timestamp) :
    StaysOverdue selfId baseUrl (past ++ [(.backupCompleted event, clock)]) later := by
  have hfinds : FindsOverdue (past ++ [(.backupCompleted event, clock)]) later tier t := by
    intro soFar next clock' hsoFar
    have hmem : (Event.backupCompleted next, clock') ∈ later := hsoFar.subset (by simp)
    exact Or.inl (hlapsed.trans_le (hordered next clock' hmem))
  exact hfinds.stays htier hrecorded hno (overdue_of_lapsed htier hrecorded hlapsed)

/-! ### An hourly tier that is overdue -/

/-- A weekly run an hour later leaves the alarm raised. -/
theorem overdue_kept_weekly :
    StaysOverdue "self" "http://127.0.0.1:3010"
      [(.backupCompleted (plainRun .hourly 0 .success), 0),
        (.backupCompleted (plainRun .daily 10800000 .success), 10900000)]
      [(.backupCompleted (plainRun .weekly 14400000 .success), 14500000)] := by
  let past : List (Event × ℤ) :=
    [(.backupCompleted (plainRun .hourly 0 .success), 0)] ++
      [(.backupCompleted (plainRun .daily 10800000 .success), 10900000)]
  let later : List (Event × ℤ) := [(.backupCompleted (plainRun .weekly 14400000 .success), 14500000)]
  have hiff : StaysOverdue "self" "http://127.0.0.1:3010" past later ↔
      FindsOverdue past later .hourly 0 :=
    overdue_kept_iff (by decide) (by decide) (by decide) (by decide)
  refine hiff.2 fun soFar event clock hsoFar => ?_
  have hmem := hsoFar.subset (List.mem_append_right soFar (List.mem_singleton_self _))
  simp only [later, List.mem_singleton, Prod.mk.injEq, Event.backupCompleted.injEq] at hmem
  rw [hmem.1]
  exact Or.inl (by decide)

/-- A weekly run that started an hour after the hourly success ends once the hourly tier is overdue:
the alarm is cleared, and no hourly run has succeeded. -/
theorem overdue_not_kept :
    ∃ (past later : List (Event × ℤ)) (event : BackupCompletedEvent),
      Lapsed (past ++ [(.backupCompleted event, 10900000)]) event.timestamp .hourly ∧
        .overdue ∈ ((newWorld "self" "http://127.0.0.1:3010").handleEvents
          (past ++ [(.backupCompleted event, 10900000)])).active ∧
        (∀ e ∈ later, e.1.succeeds .hourly = false) ∧
        ¬StaysOverdue "self" "http://127.0.0.1:3010"
          (past ++ [(.backupCompleted event, 10900000)]) later := by
  refine ⟨[(.backupCompleted (plainRun .hourly 0 .success), 0)],
    [(.backupCompleted (plainRun .weekly 3600000 .success), 11000000)],
    plainRun .daily 10800000 .success, ⟨by decide, 0, by decide, by decide⟩, by decide, by decide, ?_⟩
  intro hstays
  exact absurd (hstays _ (List.prefix_refl _)) (by decide)

end Deltas
end SignalKBackup
