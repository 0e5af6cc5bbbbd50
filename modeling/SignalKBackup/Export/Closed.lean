import SignalKBackup.Export.Coverage

/-!
# Closed — which listed weeks are complete

A listed week other than the open one is complete when its shard was requested after the week had
ended.  A cycle fetches the week that was open in the previous manifest only while that week is in
the churn window; the manifest's `openShard` is written but never looked at.  So a cycle closes the
week exactly when `Covered` says so (`closed_iff_covered`): when more than the churn window lies
between two cycles, the shard of the week that was open then is left as it was.
-/

namespace SignalKBackup
namespace Export

open Lib
open Calendar

/-- Every week in the manifest but the open one has a shard that was requested after its end. -/
def Closed (s : Staging) : Prop :=
  ∀ m ∈ s.manifest, ∀ e ∈ m.shards, m.openShard ≠ some e.file →
    ∃ shard ∈ s.shards e.file, weekEndUtc (isoWeekOf e.weekStart) ≤ shard.fetchedAt

/-- The week that is open in the manifest is still in the churn window of the cycle, or it has no
shard, or a shard that was requested after its end. -/
def Covered (s : Staging) (c : Cycle) : Prop :=
  ∀ m ∈ s.manifest, ∀ e ∈ m.shards, m.openShard = some e.file →
    0 ≤ compareIsoWeek (isoWeekOf e.weekStart) (churnCutoffWeek (isoWeekOf c.now)) ∨
      ∀ shard ∈ s.shards e.file, weekEndUtc (isoWeekOf e.weekStart) ≤ shard.fetchedAt

instance (s : Staging) : Decidable (Closed s) :=
  inferInstanceAs (Decidable (∀ m ∈ s.manifest, ∀ e ∈ m.shards, m.openShard ≠ some e.file →
    ∃ shard ∈ s.shards e.file, weekEndUtc (isoWeekOf e.weekStart) ≤ shard.fetchedAt))

instance (s : Staging) (c : Cycle) : Decidable (Covered s c) :=
  inferInstanceAs (Decidable (∀ m ∈ s.manifest, ∀ e ∈ m.shards, m.openShard = some e.file →
    0 ≤ compareIsoWeek (isoWeekOf e.weekStart) (churnCutoffWeek (isoWeekOf c.now)) ∨
      ∀ shard ∈ s.shards e.file, weekEndUtc (isoWeekOf e.weekStart) ≤ shard.fetchedAt))

section Step

variable {stagingDir table : List Char} {c : Cycle} {s s' : Staging}

/-- A failed cycle leaves the manifest, and its weeks are only fetched again. -/
theorem Closed.failed (hclosed : Closed s) (hinv : Invariant table s) (hclock : s.clock ≤ c.now)
    (h : exportTable stagingDir table c s = (s', none)) : Closed s' := by
  rcases exportTable_cases h with ⟨p, ok, hloop, _, hshards, ⟨_, hmanifest⟩ | ⟨⟨_, hr⟩, _⟩⟩
  · intro m hm e he hopen
    have hm' := hmanifest.symm.trans hm
    rcases hinv.manifest m hm' with ⟨first, last, _, hlast, hcovers⟩
    rcases hcovers.listed he with ⟨k, hlo, hhi, hlisted⟩
    have hne : k ≠ last := fun heq => hopen ((hcovers.openShard_iff hlisted).2 heq)
    have hend := hlisted.weekEnd (hcovers.modern.mono hlo)
    have hended : mondayOf (k + 1) ≤ mondayOf last := mondayOf_le_iff.2 (by omega)
    have hnewer := (Plan.exportWeeks_refetched le_rfl hloop).2
    rcases hclosed m hm' e he hopen with ⟨shard, hdisk, hfetched⟩
    rcases hnewer.onDisk hdisk with ⟨shard', hdisk', rfl | hnow⟩
    · exact ⟨_, by rw [hshards]; exact hdisk', hfetched⟩
    · -- fetched again, in this cycle: the week had ended before it
      refine ⟨shard', by rw [hshards]; exact hdisk', ?_⟩
      have hstart : c.now ≤ shard'.fetchedAt := hnow
      omega
  · cases hr

/-- The shard that a skipped week keeps is complete, if the cycle covers the week that was open. -/
theorem Closed.skipped (hclosed : Closed s) (hinv : Invariant table s) (hclock : s.clock ≤ c.now)
    (hcovered : Covered s c) {k : ℤ} (hk : Modern k) {known : ShardEntry} {shard : Shard}
    (hreused : (exportPlan table c s).reused (weekAt k) s.shards = some known)
    (hdisk : s.shards (shardFile table (weekAt k)) = some shard) :
    mondayOf (k + 1) ≤ shard.fetchedAt := by
  rcases Plan.reused_eq_some hreused with ⟨_, hchurn, hexisting, _⟩
  rcases hinv.known hexisting with ⟨m, first, last, hm, hcovers, hmem, hlisted⟩
  have hdisk' : s.shards known.file = some shard := by
    rw [hlisted.1]
    exact hdisk
  have hend := hlisted.weekEnd hk
  by_cases hopen : m.openShard = some known.file
  · -- the week was open in the previous manifest, and is before the churn window
    have hcutoff := hinv.churnCutoff hclock
    simp only [exportPlan] at hcutoff
    rcases hcovered m hm known hmem hopen with hinside | hfetched
    · simp only [Plan.inChurnWindow, decide_eq_false_iff_not] at hchurn
      rw [hlisted.week hk] at hinside
      exact absurd hinside hchurn
    · rw [← hend]
      exact hfetched shard hdisk'
  · -- it was not open there, so it was complete before the cycle
    rcases hclosed m hm known hmem hopen with ⟨shard', hshard', hfetched⟩
    rw [hdisk', Option.mem_some_iff] at hshard'
    rw [← hend, hshard']
    exact hfetched

theorem Closed.succeeded {result : TableExport} (hclosed : Closed s) (hinv : Invariant table s)
    (hclock : s.clock ≤ c.now) (hcovered : Covered s c)
    (h : exportTable stagingDir table c s = (s', some result)) : Closed s' := by
  rcases exportTable_cases h with ⟨p, ok, hloop, _, hshards, ⟨hr, _⟩ | ⟨_, rfl, _⟩⟩
  · cases hr
  rcases exportTable_covers hinv hclock h with ⟨m', earliest, hm', hcovers', _, _, hweeks, _⟩
  intro m hm e he hopen
  cases hm'.symm.trans hm
  rcases hcovers'.listed he with ⟨k, hlo, hhi, hlisted⟩
  have hk : Modern k := hcovers'.modern.mono hlo
  -- the week is over, since it is not the open one
  have hne : k ≠ weekIndex c.now := fun heq => hopen ((hcovers'.openShard_iff hlisted).2 heq)
  have hmem : weekAt k ∈ (exportPlan table c s).allWeeks := by
    rw [hweeks, mem_weeksBetween hcovers'.modern hcovers'.modern_last]
    exact ⟨k, hlo, hhi, rfl⟩
  rcases Plan.exportWeeks_onDisk le_rfl hloop hmem with ⟨shard, hdisk, hnew⟩
  refine ⟨shard, by rw [hshards, hlisted.1]; exact hdisk, ?_⟩
  rw [hlisted.weekEnd hk]
  rcases hnew with hfetched | ⟨hold, known, hreused⟩
  · -- fetched in this cycle, which began after the week had ended
    calc mondayOf (k + 1) ≤ c.now := le_weekIndex_iff.1 (by omega)
      _ ≤ shard.fetchedAt := hfetched
  · exact hclosed.skipped hinv hclock hcovered hk hreused hold

/-- A cycle that does not cover the open week succeeds without closing it. -/
theorem Invariant.not_closed {result : TableExport} (hinv : Invariant table s)
    (hclock : s.clock ≤ c.now) (hcovered : ¬Covered s c)
    (h : exportTable stagingDir table c s = (s', some result)) : ¬Closed s' := by
  simp only [Covered, not_forall, not_or, not_le] at hcovered
  rcases hcovered with ⟨m, hm, e, he, hopen, hchurn, shard, hdisk, hearly⟩
  rcases hinv.manifest m hm with ⟨first, last, _, hlast, hcovers⟩
  rcases hcovers.listed he with ⟨k, hlo, hhi, hlisted⟩
  have hk : Modern k := hcovers.modern.mono hlo
  have hkLast : k = last := (hcovers.openShard_iff hlisted).1 hopen
  have hcutoff := hinv.churnCutoff hclock
  simp only [exportPlan] at hcutoff
  rw [hlisted.week hk, hcutoff, compareIsoWeek_neg_iff] at hchurn
  rcases exportTable_cases h with ⟨p, ok, hloop, _, hshards, ⟨hr, _⟩ | ⟨_, rfl, _⟩⟩
  · cases hr
  rcases exportTable_covers hinv hclock h with
    ⟨m', earliest, hm', hcovers', _, _, hweeks, hearliest⟩
  have hfirst := hearliest m first last hm hcovers
  -- the only week of the loop with this file is skipped
  have hskip : ∀ week ∈ (exportPlan table c s).allWeeks,
      (exportPlan table c s).file week = e.file →
        (exportPlan table c s).reused week s.shards ≠ none := by
    intro week hweek hfile
    rw [hweeks, mem_weeksBetween hcovers'.modern hcovers'.modern_last] at hweek
    rcases hweek with ⟨j, _, _, rfl⟩
    have hjk : j = k := shardFile_injective (hfile.trans hlisted.1)
    rcases existingShards_isSome he with ⟨known, hknown⟩
    have hopen' : (exportPlan table c s).isOpen (weekAt j) = false := by
      simp only [Plan.isOpen, hinv.currentWeek hclock, beq_eq_false_iff_ne, ne_eq,
        compareIsoWeek_eq_zero_iff]
      omega
    have hchurn' : (exportPlan table c s).inChurnWindow (weekAt j) = false := by
      simp only [Plan.inChurnWindow, hinv.churnCutoff hclock, decide_eq_false_iff_not, not_le,
        compareIsoWeek_neg_iff]
      omega
    have hdisk' : s.shards e.file = some shard := hdisk
    have hm' : s.manifest = some m := hm
    simp only [Plan.reused, hopen', hchurn', hfile, hdisk', hinv.existing, hm']
    simp [hknown]
  have hkept : s'.shards e.file = some shard := by
    rw [hshards, Plan.exportWeeks_skipped hloop hskip]
    exact hdisk
  intro hclosed
  rcases hcovers'.entry (k := k) (by omega) (by omega) with ⟨e', he', hlisted'⟩
  have hfile : e'.file = e.file := hlisted'.1.trans hlisted.1.symm
  have hopen' : m'.openShard ≠ some e'.file := by
    intro heq
    have hcurrent := (hcovers'.openShard_iff hlisted').1 heq
    omega
  rcases hclosed m' hm' e' he' hopen' with ⟨shard', hshard', hfetched⟩
  rw [hfile, hkept, Option.mem_some_iff] at hshard'
  rw [hlisted'.weekEnd hk, ← hshard', ← hlisted.weekEnd hk] at hfetched
  omega

theorem Closed.step {r : Option TableExport} (hclosed : Closed s) (hinv : Invariant table s)
    (hclock : s.clock ≤ c.now) (hcovered : Covered s c)
    (h : exportTable stagingDir table c s = (s', r)) : Closed s' := by
  cases r with
  | none =>
      exact hclosed.failed hinv hclock h
  | some result =>
      exact hclosed.succeeded hinv hclock hcovered h

end Step

/-! ## Runs -/

theorem questdb_step {stagingDir table : List Char} {s s' : Staging} {c : Cycle}
    (h : (questdb stagingDir table).step s c = some s') :
    s.clock ≤ c.now ∧ ∃ r, exportTable stagingDir table c s = (s', r) := by
  simp only [questdb] at h
  split at h
  case isTrue hclock =>
      cases h
      exact ⟨hclock, _, rfl⟩
  case isFalse =>
      cases h

theorem reachable_invariant {stagingDir table : List Char} {s : Staging}
    (h : (questdb stagingDir table).Reachable Fresh s) : Invariant table s := by
  refine h.invariant (fun s hfresh => hfresh.invariant) ?_
  intro s c s' hinv _ hs
  rcases questdb_step hs with ⟨hclock, r, hr⟩
  exact hinv.step hclock hr

/-- As long as every cycle covers the week that was open in the manifest before it, every listed week
but the open one is complete. -/
theorem reachable_closed {stagingDir table : List Char} {s : Staging}
    (h : (questdb stagingDir table).ReachableUnder Covered Fresh s) : Closed s := by
  have hboth : Invariant table s ∧ Closed s := by
    refine h.invariant (P := fun s => Invariant table s ∧ Closed s)
      (fun s hfresh => ⟨hfresh.invariant, fun m hm => ?_⟩) ?_
    · rw [hfresh.2] at hm
      cases hm
    · rintro s c s' ⟨hinv, hclosed⟩ hcovered hs
      rcases questdb_step hs with ⟨hclock, r, hr⟩
      exact ⟨hinv.step hclock hr, hclosed.step hinv hclock hcovered hr⟩
  exact hboth.2

/-! ### Two cycles, a week and five weeks apart -/

def SIGNALK : List Char := "signalk".toList

def emptyStaging : Staging :=
  { clock := 0, manifest := none, shards := fun _ => none, flat := none, legacy := none }

theorem emptyStaging_fresh : Fresh emptyStaging :=
  ⟨le_rfl, rfl⟩

/-- A cycle in which nothing fails, with one second for each transfer. -/
def quietCycle (now : ℤ) : Cycle :=
  { now, transfer := fun _ => { duration := 1000, bytes := some 64 }
    legacyRenamed := true, manifestWritten := true }

/-- Wednesday 2026-05-13, at noon. -/
def wednesday : ℤ := 1778673600000

theorem reachable_closed_weekly :
    ∃ s, (questdb ['/'] SIGNALK).run emptyStaging
        [quietCycle wednesday, quietCycle (wednesday + 7 * msPerDay)] = some s ∧ Closed s := by
  obtain ⟨s, hs⟩ : ∃ s, (questdb ['/'] SIGNALK).run emptyStaging
      [quietCycle wednesday, quietCycle (wednesday + 7 * msPerDay)] = some s := by
    refine Option.isSome_iff_exists.1 ?_
    decide +kernel
  have hsecond : ((questdb ['/'] SIGNALK).step emptyStaging (quietCycle wednesday)).all
      (fun s' => decide (Covered s' (quietCycle (wednesday + 7 * msPerDay)))) = true := by
    decide +kernel
  have hmeets : (questdb ['/'] SIGNALK).Meets Covered emptyStaging
      [quietCycle wednesday, quietCycle (wednesday + 7 * msPerDay)] := by
    refine ⟨by decide, fun s' hs' => ⟨?_, fun _ _ => trivial⟩⟩
    simpa [hs'] using hsecond
  have hreach := Machine.ReachableUnder.run (I := Fresh) (.init emptyStaging_fresh) hmeets hs
  exact ⟨s, hs, reachable_closed hreach⟩

/-- After a gap of five weeks the shard of the week that was open before it still ends on the
Wednesday of that week. -/
theorem reachable_not_closed :
    ∃ s, (questdb ['/'] SIGNALK).Reachable Fresh s ∧ ¬Closed s := by
  have hrun : ((questdb ['/'] SIGNALK).run emptyStaging
      [quietCycle wednesday, quietCycle (wednesday + 35 * msPerDay)]).any
        (fun s => decide (¬Closed s)) = true := by
    decide +kernel
  rcases (Option.any_eq_true _ _).1 hrun with ⟨s, hs, hbad⟩
  exact ⟨s, Machine.Reachable.run (.init emptyStaging_fresh) hs, of_decide_eq_true hbad⟩

/-- A cycle that succeeds keeps the listed weeks complete exactly when it covers the week that was
open before it. -/
theorem closed_iff_covered {stagingDir table : List Char} {s s' : Staging} {c : Cycle}
    {result : TableExport} (hreach : (questdb stagingDir table).Reachable Fresh s)
    (hclosed : Closed s) (hclock : s.clock ≤ c.now)
    (h : exportTable stagingDir table c s = (s', some result)) : Closed s' ↔ Covered s c := by
  have hinv := reachable_invariant hreach
  constructor
  · intro hclosed'
    by_contra hcovered
    exact hinv.not_closed hclock hcovered h hclosed'
  · intro hcovered
    exact hclosed.step hinv hclock hcovered h

end Export
end SignalKBackup
