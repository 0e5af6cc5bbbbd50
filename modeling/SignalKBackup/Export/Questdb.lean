import SignalKBackup.Export.IsoWeek
import SignalKBackup.Lib.Machine
import SignalKBackup.Lib.PosixPath

/-!
# Questdb — one export cycle of a table

`exportTable` writes one parquet shard for each ISO week and a manifest of them.  A `Cycle` holds
what a run of it meets: the clock, how the transfer of each week ends, and whether the renames of
the legacy file and of the manifest succeed.

A shard on disk carries the time its request was sent, since the rows it can hold are those
recorded by then.  Times are instants rather than ISO texts; `Date.parse` inverts `toISOString`.

The spec of the loop over the weeks comes in three parts: what it does to the clock and the disk
in any case (`exportWeeks_refetched`), what it lists
(`exportWeeks_listed`), and what is on disk
for a week after it went through (`exportWeeks_onDisk`).
-/

namespace SignalKBackup
namespace Export

open Lib
open Posix

/-! ## Manifest -/

def MANIFEST_SCHEMA_VERSION : ℕ := 1

structure ShardEntry where
  file : List Char
  weekStart : ℤ
  bytes : ℕ
  exportedAt : ℤ
  deriving DecidableEq

structure Manifest where
  tableName : List Char
  schemaVersion : ℕ
  shards : List ShardEntry
  openShard : Option (List Char)
  lastExportRun : ℤ
  deriving DecidableEq

def isManifest (m : Manifest) : Bool :=
  m.schemaVersion == MANIFEST_SCHEMA_VERSION && m.shards.all fun s => s.file != []

/-- An unreadable manifest counts as missing. -/
def readManifest (file : Option Manifest) : Option Manifest :=
  file.filter isManifest

/-! ## The staging directory and a cycle -/

structure Shard where
  /-- When the request for the rows was sent. -/
  fetchedAt : ℤ
  bytes : ℕ
  deriving DecidableEq

/-- The files of one table, and the earliest time the clock can read next. -/
structure Staging where
  clock : ℤ
  manifest : Option Manifest
  shards : List Char → Option Shard
  /-- The size of `<table>.parquet` and of `<table>.parquet.legacy`. -/
  flat : Option ℕ
  legacy : Option ℕ

/-- How a week's fetch, stream and rename end: `none` when one of them fails. -/
structure Transfer where
  duration : ℕ
  bytes : Option ℕ

structure Cycle where
  now : ℤ
  transfer : IsoWeek → Transfer
  legacyRenamed : Bool
  manifestWritten : Bool

structure TableExport where
  table : List Char
  tableDir : List Char
  shardsWritten : ℕ
  shardsSkipped : ℕ
  bytes : ℕ
  deriving DecidableEq

/-! ## The weeks of a cycle -/

def ROLLING_CHURN_WEEKS : ℤ := 4

def earliestWeekFromManifest (manifest : Option Manifest) : Option IsoWeek :=
  match manifest.map fun m => m.shards.map ShardEntry.weekStart with
  | none => none
  | some [] => none
  | some (first :: rest) => some (isoWeekOf (rest.foldl (fun a b => if a < b then a else b) first))

def churnCutoffWeek (current : IsoWeek) : IsoWeek :=
  isoWeekOf (weekStartUtc current - ROLLING_CHURN_WEEKS * 7 * 86400000)

def earliestWeek (existing : Option Manifest) (churnCutoff : IsoWeek) : IsoWeek :=
  match earliestWeekFromManifest existing with
  | some earliestKnown =>
      if compareIsoWeek earliestKnown churnCutoff < 0 then earliestKnown else churnCutoff
  | none => churnCutoff

def PARQUET : List Char := ".parquet".toList

def shardFile (table : List Char) (week : IsoWeek) : List Char :=
  table ++ '_' :: (formatIsoWeek week ++ PARQUET)

/-- The map of the entries by file; a later entry replaces an earlier one. -/
def existingShards (existing : Option Manifest) (file : List Char) : Option ShardEntry :=
  ((existing.elim [] Manifest.shards).filter fun s => s.file = file).getLast?

/-- What the loop over the weeks reads. -/
structure Plan where
  table : List Char
  cycle : Cycle
  currentWeek : IsoWeek
  churnCutoff : IsoWeek
  existing : Option Manifest

/-- What the loop over the weeks changes. -/
structure Progress where
  clock : ℤ
  shards : List Char → Option Shard
  newShards : List ShardEntry
  shardsWritten : ℕ
  shardsSkipped : ℕ
  bytesWritten : ℕ

namespace Plan

variable (plan : Plan)

def file (week : IsoWeek) : List Char :=
  shardFile plan.table week

def isOpen (week : IsoWeek) : Bool :=
  compareIsoWeek week plan.currentWeek == 0

def inChurnWindow (week : IsoWeek) : Bool :=
  decide (0 ≤ compareIsoWeek week plan.churnCutoff)

/-- The entry that is reused for the week; `none` stands for `mustWrite`. -/
def reused (week : IsoWeek) (shards : List Char → Option Shard) : Option ShardEntry :=
  let onDisk := (shards (plan.file week)).isSome
  if plan.isOpen week || plan.inChurnWindow week || !onDisk then none
  else existingShards plan.existing (plan.file week)

/-- The file is replaced once the whole body has arrived. -/
def exportWeekToShard (week : IsoWeek) (p : Progress) : Progress × Option ℕ :=
  let transfer := plan.cycle.transfer week
  let clock := p.clock + transfer.duration
  match transfer.bytes with
  | none => ({ p with clock }, none)
  | some bytes =>
      let shard : Shard := { fetchedAt := p.clock, bytes }
      ({ p with clock, shards := Function.update p.shards (plan.file week) (some shard) }, some bytes)

/-- One round of the loop; `false` when it throws. -/
def exportWeek (week : IsoWeek) (p : Progress) : Progress × Bool :=
  match plan.reused week p.shards with
  | some known =>
      ({ p with newShards := p.newShards ++ [known], shardsSkipped := p.shardsSkipped + 1 }, true)
  | none =>
      match plan.exportWeekToShard week p with
      | (p', none) => (p', false)
      | (p', some bytes) =>
          let entry : ShardEntry :=
            { file := plan.file week, weekStart := weekStartUtc week, bytes
              exportedAt := plan.cycle.now }
          ({ p' with
              newShards := p'.newShards ++ [entry]
              shardsWritten := p'.shardsWritten + 1
              bytesWritten := p'.bytesWritten + bytes }, true)

def exportWeeks : List IsoWeek → Progress → Progress × Bool
  | [], p => (p, true)
  | week :: weeks, p =>
      match plan.exportWeek week p with
      | (p', false) => (p', false)
      | (p', true) => exportWeeks weeks p'

end Plan

/-! ## The cycle -/

def migrateLegacyFlatFile (c : Cycle) (s : Staging) : Staging :=
  if s.flat.isSome && s.legacy.isNone && c.legacyRenamed then
    { s with flat := none, legacy := s.flat }
  else s

def exportPlan (table : List Char) (c : Cycle) (s : Staging) : Plan :=
  let currentWeek := isoWeekOf c.now
  { table, cycle := c, currentWeek
    churnCutoff := churnCutoffWeek currentWeek
    existing := readManifest s.manifest }

def Plan.allWeeks (plan : Plan) : List IsoWeek :=
  weeksBetween (earliestWeek plan.existing plan.churnCutoff) plan.currentWeek

def Plan.start (plan : Plan) (s : Staging) : Progress :=
  { clock := plan.cycle.now, shards := s.shards, newShards := []
    shardsWritten := 0, shardsSkipped := 0, bytesWritten := 0 }

def Plan.manifest (plan : Plan) (p : Progress) : Manifest :=
  { tableName := plan.table
    schemaVersion := MANIFEST_SCHEMA_VERSION
    shards := p.newShards
    openShard := some (plan.file plan.currentWeek)
    lastExportRun := plan.cycle.now }

/-- `none` when the cycle fails; what is on disk by then stays. -/
def exportTable (stagingDir table : List Char) (c : Cycle) (s : Staging) :
    Staging × Option TableExport :=
  let tableDir := join [stagingDir, table]
  let s := migrateLegacyFlatFile c s
  let plan := exportPlan table c s
  -- the loop stops at the first week that throws
  let (p, finished) := plan.exportWeeks plan.allWeeks (plan.start s)
  let s := { s with clock := p.clock, shards := p.shards }
  if finished && c.manifestWritten then
    ({ s with manifest := some (plan.manifest p) },
      some { table, tableDir, shardsWritten := p.shardsWritten, shardsSkipped := p.shardsSkipped
             bytes := p.bytesWritten })
  else (s, none)

/-- Cycles one after another, at readings of the clock that never go back. -/
def questdb (stagingDir table : List Char) : Machine Staging Cycle where
  step s c := if s.clock ≤ c.now then some (exportTable stagingDir table c s).1 else none

/-! ## Names of shards -/

theorem shardFile_injective {table : List Char} {j k : ℤ}
    (h : shardFile table (weekAt j) = shardFile table (weekAt k)) : j = k := by
  have hname := (List.cons.inj (List.append_cancel_left h)).2
  exact formatIsoWeek_injective (List.append_cancel_right hname)

theorem shardFile_ne_nil (table : List Char) (week : IsoWeek) : shardFile table week ≠ [] := by
  simp [shardFile]

theorem existingShards_eq_some {existing : Option Manifest} {file : List Char} {e : ShardEntry}
    (h : existingShards existing file = some e) :
    ∃ m, existing = some m ∧ e ∈ m.shards ∧ e.file = file := by
  cases existing with
  | none =>
      simp [existingShards] at h
  | some m =>
      have hmem := List.mem_of_getLast? h
      simp only [Option.elim_some, List.mem_filter, decide_eq_true_eq] at hmem
      exact ⟨m, rfl, hmem⟩

theorem existingShards_isSome {m : Manifest} {e : ShardEntry} (h : e ∈ m.shards) :
    ∃ e', existingShards (some m) e.file = some e' := by
  refine Option.isSome_iff_exists.1 ?_
  have hmem : e ∈ m.shards.filter fun s => s.file = e.file := by simp [h]
  simpa [existingShards] using ⟨e, h, rfl⟩

/-! ## One round of the loop -/

/-- The week an entry is listed for. -/
def ListedFor (table : List Char) (week : IsoWeek) (e : ShardEntry) : Prop :=
  e.file = shardFile table week ∧ e.weekStart = weekStartUtc week

/-- Each file is as it was, or the answer to a request that was sent at `now` or later. -/
def Refetched (now : ℤ) (old new : List Char → Option Shard) : Prop :=
  ∀ file, new file = old file ∨ ∃ shard, new file = some shard ∧ now ≤ shard.fetchedAt

theorem Refetched.refl (now : ℤ) (shards : List Char → Option Shard) :
    Refetched now shards shards :=
  fun _ => Or.inl rfl

theorem Refetched.trans {now : ℤ} {old mid new : List Char → Option Shard}
    (h : Refetched now old mid) (h' : Refetched now mid new) : Refetched now old new := by
  intro file
  -- the later write wins
  rcases h' file with heq | hnew
  · rw [heq]
    exact h file
  · exact Or.inr hnew

theorem Refetched.onDisk {now : ℤ} {old new : List Char → Option Shard} {file : List Char}
    {shard : Shard} (h : Refetched now old new) (hdisk : old file = some shard) :
    ∃ shard', new file = some shard' ∧ (shard' = shard ∨ now ≤ shard'.fetchedAt) := by
  rcases h file with heq | ⟨shard', hnew, hnow⟩
  · exact ⟨shard, heq.trans hdisk, Or.inl rfl⟩
  · exact ⟨shard', hnew, Or.inr hnow⟩

namespace Plan

variable {plan : Plan}

theorem reused_eq_some {week : IsoWeek} {shards : List Char → Option Shard} {known : ShardEntry}
    (h : plan.reused week shards = some known) :
    plan.isOpen week = false ∧ plan.inChurnWindow week = false ∧
      existingShards plan.existing (plan.file week) = some known ∧
        ∃ shard, shards (plan.file week) = some shard := by
  simp only [reused] at h
  split at h
  case isTrue =>
      cases h
  case isFalse hskip =>
      simp only [Bool.or_eq_true, not_or, Bool.not_eq_true, Bool.not_eq_false'] at hskip
      exact ⟨hskip.1.1, hskip.1.2, h, Option.isSome_iff_exists.1 (by simpa using hskip.2)⟩

/-- A round reuses the entry, fails in the transfer, or writes the shard. -/
theorem exportWeek_cases (week : IsoWeek) (p : Progress) :
    (∃ known, plan.reused week p.shards = some known ∧
      plan.exportWeek week p =
        ({ p with newShards := p.newShards ++ [known], shardsSkipped := p.shardsSkipped + 1 },
          true)) ∨
    (∃ d : ℕ, plan.reused week p.shards = none ∧
      plan.exportWeek week p = ({ p with clock := p.clock + d }, false)) ∨
    ∃ d bytes : ℕ, plan.reused week p.shards = none ∧
      plan.exportWeek week p =
        ({ clock := p.clock + d
           shards := Function.update p.shards (plan.file week) (some ⟨p.clock, bytes⟩)
           newShards := p.newShards ++
             [⟨plan.file week, weekStartUtc week, bytes, plan.cycle.now⟩]
           shardsWritten := p.shardsWritten + 1
           shardsSkipped := p.shardsSkipped
           bytesWritten := p.bytesWritten + bytes }, true) := by
  cases hreused : plan.reused week p.shards with
  | some known =>
      exact Or.inl ⟨known, rfl, by simp only [exportWeek, hreused]⟩
  | none =>
      refine Or.inr ?_
      cases hbytes : (plan.cycle.transfer week).bytes with
      | none =>
          exact Or.inl ⟨(plan.cycle.transfer week).duration, rfl, by
            simp only [exportWeek, exportWeekToShard, hreused, hbytes]⟩
      | some bytes =>
          exact Or.inr ⟨(plan.cycle.transfer week).duration, bytes, rfl, by
            simp only [exportWeek, exportWeekToShard, hreused, hbytes]⟩

theorem exportWeek_refetched {week : IsoWeek} {p p' : Progress} {ok : Bool} {now : ℤ}
    (hnow : now ≤ p.clock) (h : plan.exportWeek week p = (p', ok)) :
    now ≤ p'.clock ∧ Refetched now p.shards p'.shards := by
  rcases plan.exportWeek_cases week p with ⟨known, _, heq⟩ | ⟨d, _, heq⟩ | ⟨d, bytes, _, heq⟩
  · cases heq.symm.trans h
    exact ⟨hnow, .refl _ _⟩
  · cases heq.symm.trans h
    exact ⟨by simp only; omega, .refl _ _⟩
  · cases heq.symm.trans h
    refine ⟨by simp only; omega, fun file => ?_⟩
    by_cases hfile : file = plan.file week
    · refine Or.inr ⟨⟨p.clock, bytes⟩, ?_, hnow⟩
      simp [hfile]
    · exact Or.inl (by simp [hfile])

/-! ## The loop -/

/-- In any case the loop replaces shards by newer ones only. -/
theorem exportWeeks_refetched {weeks : List IsoWeek} {p p' : Progress} {ok : Bool} {now : ℤ}
    (hnow : now ≤ p.clock) (h : plan.exportWeeks weeks p = (p', ok)) :
    now ≤ p'.clock ∧ Refetched now p.shards p'.shards := by
  -- each round keeps it, also the one that throws
  induction weeks generalizing p with
  | nil =>
      cases h
      exact ⟨hnow, .refl _ _⟩
  | cons week weeks ih =>
      rw [exportWeeks] at h
      split at h
      case h_1 q hround =>
          cases h
          exact exportWeek_refetched hnow hround
      case h_2 q hround =>
          have hfirst := exportWeek_refetched hnow hround
          have hrest := ih hfirst.1 h
          exact ⟨hrest.1, hfirst.2.trans hrest.2⟩

/-- A loop that finishes lists the weeks it went through, in their order. -/
theorem exportWeeks_listed {weeks : List IsoWeek} {p p' : Progress}
    (hknown : ∀ week ∈ weeks, ∀ e, existingShards plan.existing (plan.file week) = some e →
      ListedFor plan.table week e)
    (h : plan.exportWeeks weeks p = (p', true)) :
    ∃ entries, p'.newShards = p.newShards ++ entries ∧
      List.Forall₂ (ListedFor plan.table) weeks entries := by
  induction weeks generalizing p with
  | nil =>
      cases h
      exact ⟨[], by simp, .nil⟩
  | cons week weeks ih =>
      have hrest := fun w hw => hknown w (List.mem_cons_of_mem week hw)
      rw [exportWeeks] at h
      rcases plan.exportWeek_cases week p with ⟨known, hreused, heq⟩ | ⟨d, _, heq⟩ | ⟨d, bytes, _, heq⟩
      · rw [heq] at h
        rcases ih hrest h with ⟨entries, hlist, hentries⟩
        have hentry := hknown week (by simp) known (reused_eq_some hreused).2.2.1
        exact ⟨known :: entries, by simpa using hlist, .cons hentry hentries⟩
      · rw [heq] at h
        cases h
      · rw [heq] at h
        rcases ih hrest h with ⟨entries, hlist, hentries⟩
        exact ⟨_ :: entries, by simpa using hlist, .cons ⟨rfl, rfl⟩ hentries⟩

/-- After a loop that finishes, the shard of each of its weeks is new, or it is the one that was
there before and the week was skipped. -/
theorem exportWeeks_onDisk {weeks : List IsoWeek} {p p' : Progress} {now : ℤ} (hnow : now ≤ p.clock)
    (h : plan.exportWeeks weeks p = (p', true)) {week : IsoWeek} (hmem : week ∈ weeks) :
    ∃ shard, p'.shards (plan.file week) = some shard ∧
      (now ≤ shard.fetchedAt ∨
        p.shards (plan.file week) = some shard ∧ ∃ known, plan.reused week p.shards = some known) := by
  induction weeks generalizing p with
  | nil =>
      cases hmem
  | cons first weeks ih =>
      rw [exportWeeks] at h
      split at h
      case h_1 =>
          cases h
      case h_2 q hround =>
          have hfirst := exportWeek_refetched hnow hround
          have hlater := (exportWeeks_refetched hfirst.1 h).2
          rcases List.mem_cons.1 hmem with rfl | hmem'
          · rcases plan.exportWeek_cases week p with
              ⟨known, hreused, heq⟩ | ⟨d, _, heq⟩ | ⟨d, bytes, _, heq⟩
            · -- the week is skipped: its shard stays, unless the same file is written later
              rcases (reused_eq_some hreused).2.2.2 with ⟨shard, hshard⟩
              cases heq.symm.trans hround
              rcases hlater.onDisk hshard with ⟨shard', hdisk, rfl | hnew⟩
              · exact ⟨shard', hdisk, Or.inr ⟨hshard, known, hreused⟩⟩
              · exact ⟨shard', hdisk, Or.inl hnew⟩
            · cases heq.symm.trans hround
            · cases heq.symm.trans hround
              rcases hlater.onDisk (Function.update_self (plan.file week) _ p.shards) with
                ⟨shard', hdisk, rfl | hnew⟩
              · exact ⟨_, hdisk, Or.inl hnow⟩
              · exact ⟨shard', hdisk, Or.inl hnew⟩
          · -- a later week: what the first round did to its file decides
            rcases ih hfirst.1 h hmem' with ⟨shard, hdisk, hnew | ⟨hold, known, hreused⟩⟩
            · exact ⟨shard, hdisk, Or.inl hnew⟩
            · rcases hfirst.2 (plan.file week) with hsame | ⟨shard', hshard', hnew⟩
              · have hreused' : plan.reused week p.shards = some known := by
                  rw [← hreused]
                  simp only [reused, hsame]
                exact ⟨shard, hdisk, Or.inr ⟨hsame.symm.trans hold, known, hreused'⟩⟩
              · rw [hold] at hshard'
                cases hshard'
                exact ⟨shard, hdisk, Or.inl hnew⟩

/-- A file keeps its shard when every week it belongs to is skipped. -/
theorem exportWeeks_skipped {weeks : List IsoWeek} {p p' : Progress} {ok : Bool} {file : List Char}
    (h : plan.exportWeeks weeks p = (p', ok))
    (hskip : ∀ week ∈ weeks, plan.file week = file → plan.reused week p.shards ≠ none) :
    p'.shards file = p.shards file := by
  induction weeks generalizing p with
  | nil =>
      cases h
      rfl
  | cons week weeks ih =>
      have hfirst : (plan.exportWeek week p).1.shards file = p.shards file := by
        rcases plan.exportWeek_cases week p with ⟨known, _, heq⟩ | ⟨d, _, heq⟩ | ⟨d, bytes, hnone, heq⟩
        · rw [heq]
        · rw [heq]
        · have hother : file ≠ plan.file week := fun hfile => hskip week (by simp) hfile.symm hnone
          rw [heq]
          simp [hother]
      rw [exportWeeks] at h
      split at h
      case h_1 q hround =>
          cases h
          rw [hround] at hfirst
          exact hfirst
      case h_2 q hround =>
          rw [hround] at hfirst
          rw [ih h, hfirst]
          intro w hw hfile
          have hbefore := hskip w (List.mem_cons_of_mem week hw) hfile
          simp only [reused, hfile] at hbefore ⊢
          rwa [hfirst]

end Plan

end Export
end SignalKBackup
