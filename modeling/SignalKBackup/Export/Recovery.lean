import SignalKBackup.Export.Round
import SignalKBackup.Export.TableCycles
import SignalKBackup.Export.Wellformed

/-!
# Recovery — the tables on disk in any run, with crashes at any moment

The QuestDB exporter writes table after table, the other exporters come behind it, and the process can
stop at any call.

* The calls of `exportTable` keep to the places of the table (`exportTable_owned`), so the other tables
  are as they were.
* `Recoverable` says that the disk shows, of every table, a staging that cycles of `questdb` lead to.
  Each round ends so (`runAllExports_recoverable`), and since any call that is left can fail without a
  change, so it is at any moment before (`reachable_recoverable`).
* `reachable_consistent`: a manifest on disk lists a run of weeks without a gap, and every shard it
  lists is on disk.
-/

namespace SignalKBackup
namespace Export

open Lib
open Posix
open FileTree

variable {β : Type}

/-! ## The places of one table -/

open Protocol (Allowed)

variable {cwd : List Char} {root : List Seg} {table : List Char}

namespace QuestDBExporter

variable {stagingDir : List Char}

theorem own_tablePlace (htable : SAFE_TABLE_NAME table = true) (name : Seg) :
    Own root table (tablePlace root table name) :=
  ⟨table, [name], rfl, takeWhile_noDot (noDot_of_safeTable htable)⟩

theorem migrateLegacyFlatFile_owned (htable : SAFE_TABLE_NAME table = true) :
    (owned cwd (place cwd stagingDir) table).Allowed
      (migrateLegacyFlatFile stagingDir table : Async β Unit).run := by
  have hdot := noDot_of_safeTable htable
  have hname : Name (table ++ PARQUET) := name_suffix (noSlash_of_safe htable) (by decide) (by decide)
  have hflat : Own (place cwd stagingDir) table (place cwd (join [stagingDir, table ++ PARQUET])) := by
    rw [place_join_name stagingDir hname]
    exact Shown.flat.own hdot
  have hlegacy : Own (place cwd stagingDir) table
      (place cwd (join [stagingDir, table ++ PARQUET] ++ LEGACY)) := by
    rw [place_join_suffix cwd stagingDir hname (by decide) (by decide)]
    exact Shown.legacy.own hdot
  refine .andThen (existsSync_owned hflat) fun there => ?_
  split
  · refine .andThen (existsSync_owned hlegacy) fun aside => ?_
    split
    · exact .catches (rename_owned hflat hlegacy) fun _ => .returns _
    · exact .returns _
  · exact .returns _

theorem exportWeek_owned (c : Codec β) (htable : SAFE_TABLE_NAME table = true) (existing : Option Manifest)
    (nowIso : ℤ) (t : Tally) (week : IsoWeek) :
    (owned cwd (place cwd stagingDir) table).Allowed
      (exportWeek c table (join [stagingDir, table]) existing nowIso t week).run := by
  have hname := name_of_safeTable htable
  have hfile := name_shardFile hname.noSlash week
  have hfinal : Own (place cwd stagingDir) table
      (place cwd (join [join [stagingDir, table], shardFile table week])) := by
    rw [place_tableFile cwd stagingDir hname hfile]
    exact own_tablePlace htable _
  have hsuffix : Own (place cwd stagingDir) table
      (place cwd (join [join [stagingDir, table], shardFile table week] ++ PARTIAL)) := by
    rw [place_tablePartial cwd stagingDir hname hfile]
    exact own_tablePlace htable _
  refine .andThen (existsSync_owned hfinal) fun onDisk => ?_
  split
  · exact .returns _
  · refine .andThen ?_ fun _ => .returns _
    refine .andThen (.perform (quiet_owned rfl)) fun res => ?_
    split
    · refine .andThen (.catches (.perform (path_owned rfl hsuffix)) (cleanUp_owned hsuffix)) fun _ => ?_
      exact .andThen (.catches (rename_owned hsuffix hfinal) (cleanUp_owned hsuffix)) fun _ => .returns _
    · refine .andThen (.catches (.perform (quiet_owned rfl)) fun _ => .returns _) fun _ => .throws _

theorem exportTable_owned (c : Codec β) (htable : SAFE_TABLE_NAME table = true) :
    (owned cwd (place cwd stagingDir) table).Allowed (exportTable c table stagingDir).run := by
  have hname := name_of_safeTable htable
  have hdir : Own (place cwd stagingDir) table (place cwd (join [stagingDir, table])) := by
    rw [place_join_name stagingDir hname]
    exact ⟨table, [], rfl, takeWhile_noDot (noDot_of_safeTable htable)⟩
  have hfinal : Own (place cwd stagingDir) table
      (place cwd (join [join [stagingDir, table], MANIFEST_JSON])) := by
    rw [place_tableFile cwd stagingDir hname name_manifest]
    exact own_tablePlace htable _
  have hsuffix : Own (place cwd stagingDir) table
      (place cwd (join [join [stagingDir, table], MANIFEST_JSON] ++ PARTIAL)) := by
    rw [place_tablePartial cwd stagingDir hname name_manifest]
    exact own_tablePlace htable _
  refine .andThen (.perform (path_owned rfl hdir)) fun _ => ?_
  refine .andThen (migrateLegacyFlatFile_owned htable) fun _ => ?_
  refine .andThen (.catches (.andThen (.perform (path_owned rfl hfinal)) fun _ => .returns _)
    fun _ => .returns _) fun existing => ?_
  refine .andThen (fun s => ⟨quiet_owned rfl s, fun _ => trivial⟩) fun nowIso => ?_
  refine .andThen (.foldlM (fun t week _ => exportWeek_owned c htable _ _ t week) _) fun t => ?_
  refine .andThen ?_ fun _ => .returns _
  exact .andThen (.perform (path_owned rfl hsuffix)) fun _ => rename_owned hsuffix hfinal

end QuestDBExporter

/-! ## Runs -/

/-- The rounds over the exporters, on a disk and a clock. -/
def tableRounds (c : Codec β) (cwd signalkConfigRoot : List Char) :
    Calling (Clocked β) Enabled (Outcome β) (Op β) Res (Except String (List ExportResult)) :=
  rounds c signalkConfigRoot id (Clocked.settle cwd)

abbrev TableRounds (β : Type) :=
  Caller (Clocked β) (Op β) Res (Except String (List ExportResult))

abbrev questdbStaging (signalkConfigRoot : List Char) : List Char :=
  stagingDirOf signalkConfigRoot QuestDBExporter.pluginId

/-- No table has a manifest that can be read. -/
structure Unused (c : Codec β) (cwd stagingDir : List Char) (t : Clocked β) : Prop where
  noLinks : NoLinks t.disk.fs []
  epoch : 0 ≤ t.clock
  manifest : ∀ table, SAFE_TABLE_NAME table = true →
    manifestAt c (t.disk.fs (tablePlace (place cwd stagingDir) table MANIFEST_JSON)) = none

/-- Rounds from a state without manifests, with ordinary outcomes. -/
def Reached (c : Codec β) (cwd signalkConfigRoot : List Char) : TableRounds β → Prop :=
  (tableRounds c cwd signalkConfigRoot).machine.ReachableUnder
    (fun s a => Calling.usual (ordinaryOutcome cwd) s a)
    (Calling.Idle (Unused c cwd (questdbStaging signalkConfigRoot)))

/-- Of every table the disk shows a staging that cycles lead to. -/
structure Recoverable (c : Codec β) (cwd stagingDir : List Char) (t : Clocked β) : Prop where
  noLinks : NoLinks t.disk.fs []
  tables : ∀ table, SAFE_TABLE_NAME table = true →
    ∃ s, (questdb stagingDir table).Reachable Fresh s ∧ Shows c (place cwd stagingDir) table s t

section Runs

variable {c : Codec β} {cwd stagingDir : List Char} {t t' : Clocked β}

/-- What is on disk to begin with, read as the staging of a table. -/
def stagingAt (c : Codec β) (root : List Seg) (table : List Char) (t : Clocked β) : Staging :=
  let size : Option (Node Seg β) → Option ℕ := fun node =>
    node.map fun node => match node with
      | .file bytes => c.length bytes
      | _ => 0
  { clock := t.clock
    manifest := manifestAt c (t.disk.fs (tablePlace root table MANIFEST_JSON))
    shards := fun file => (size (t.disk.fs (tablePlace root table file))).map fun bytes => ⟨t.clock, bytes⟩
    flat := size (t.disk.fs (flatPlace root table))
    legacy := size (t.disk.fs (legacyPlace root table)) }

theorem shows_stagingAt (hlinks : NoLinks t.disk.fs []) (root : List Seg) (table : List Char) :
    Shows c root table (stagingAt c root table t) t := by
  have hsized : ∀ node : Option (Node Seg β), Sized c node (node.map fun node => match node with
      | .file bytes => c.length bytes
      | _ => 0) := by
    intro node
    refine ⟨(Option.isSome_map).symm, fun bytes hfile => ?_⟩
    rw [hfile]
    rfl
  refine ⟨hlinks, le_rfl, rfl, fun week => ?_, hsized _, hsized _⟩
  have hsame : ∀ size : Option ℕ,
      (size.map fun bytes => (⟨t.clock, bytes⟩ : Shard)).map Shard.bytes = size := by
    intro size
    cases size <;> rfl
  simp only [stagingAt, hsame]
  exact hsized _

theorem Unused.recoverable (h : Unused c cwd stagingDir t) : Recoverable c cwd stagingDir t where
  noLinks := h.noLinks
  tables table htable :=
    ⟨stagingAt c (place cwd stagingDir) table t, .init ⟨h.epoch, h.manifest table htable⟩,
      shows_stagingAt h.noLinks _ _⟩

/-- A call that leaves alone what is shown of any table. -/
theorem Recoverable.step {op : Op β} {r : Option (Res op)} (h : Recoverable c cwd stagingDir t)
    (hop : ∀ table p, Shown (place cwd stagingDir) table p → Apart cwd p op)
    (hstep : ordinary cwd t op t' r) : Recoverable c cwd stagingDir t' where
  noLinks := by
    rcases hstep with ⟨o, hsettle, _⟩
    exact (Effect.of_settle hsettle).noLinks h.noLinks
  tables table htable := by
    rcases h.tables table htable with ⟨s, hreach, hshows⟩
    exact ⟨s, hreach, hshows.step (hop table) hstep⟩

/-- Calls without a path read no file at all. -/
theorem quiet_recoverable : Quiet (ordinary cwd) (Recoverable c cwd stagingDir) := by
  intro op hop s t r hs hstep
  refine hs.step (fun table p _ => apart_of_disjoint fun path hmem => ?_) hstep
  rw [hop] at hmem
  cases hmem

/-- Directories above the tables are made at most. -/
theorem mkdir_recoverable {path : List Char} (h : place cwd path <+: place cwd stagingDir)
    {r : Option (Res (.mkdir path : Op β))} (ht : Recoverable c cwd stagingDir t)
    (hstep : ordinary cwd t (.mkdir path) t' r) : Recoverable c cwd stagingDir t' := by
  have hop : ∀ table p, Shown (place cwd stagingDir) table p → Apart cwd p (.mkdir path : Op β) :=
    fun table p hp habove => hp.not_above ((habove.trans h).trans (List.prefix_append _ _))
  exact ht.step hop hstep

/-- The exporter with the id of the QuestDB plugin is the QuestDB exporter. -/
theorem questdb_of_pluginId {enabled : Enabled} {exporter : DatabaseExporter β}
    (hmem : exporter ∈ exporters c enabled) (h : exporter.pluginId = QuestDBExporter.pluginId) :
    exporter.exportAll = QuestDBExporter.exportAll c := by
  have hgrafana : GrafanaExporter.pluginId ≠ QuestDBExporter.pluginId := by decide
  have hdatabase : SignalKDatabaseExporter.pluginId ≠ QuestDBExporter.pluginId := by decide
  simp only [exporters, List.mem_append, List.mem_ite_nil_right, List.mem_singleton] at hmem
  rcases hmem with (⟨_, rfl⟩ | ⟨_, rfl⟩) | ⟨_, rfl⟩
  · rfl
  · exact absurd h hgrafana
  · exact absurd h hdatabase

theorem questdb_step_of {table : List Char} {s : Staging} {cycle : Cycle} (h : s.clock ≤ cycle.now) :
    (questdb stagingDir table).step s cycle = some (exportTable stagingDir table cycle s).1 :=
  if_pos h

/-- The next cycle of one table, and the cycles of the others. -/
theorem exportTable_recoverable (hparse : ∀ m, c.parse (c.stringify m) = some m) {table : List Char}
    (htable : SAFE_TABLE_NAME table = true) :
    Triple (ordinary cwd) (Recoverable c cwd stagingDir) (QuestDBExporter.exportTable c table stagingDir)
      (fun _ => Recoverable c cwd stagingDir) (Recoverable c cwd stagingDir) := by
  intro t ht
  rcases ht.tables table htable with ⟨s, hreach, hshows⟩
  have hcycle := QuestDBExporter.exportTable_shown hparse htable (reachable_invariant hreach) t hshows
  -- meanwhile the others are as they were
  have hothers : Program.Ensures (ordinary cwd) (fun _ u => ∀ other, SAFE_TABLE_NAME other = true →
      other ≠ table → ∃ s, (questdb stagingDir other).Reachable Fresh s ∧
        Shows c (place cwd stagingDir) other s u) (QuestDBExporter.exportTable c table stagingDir).run t := by
    refine .of_obeys (P := owned cwd (place cwd stagingDir) table)
      (fun _ op hop u u' r hu hstep other hother hne => ?_)
      (QuestDBExporter.exportTable_owned c htable ()) fun other hother _ => ht.tables other hother
    rcases hu other hother hne with ⟨s', hreach', hshows'⟩
    refine ⟨s', hreach', hshows'.step (fun p hp => ?_) hstep⟩
    exact apart_of_owned hne (hp.own (noDot_of_safeTable hother)) hop
  have hboth : ∀ (s' : Staging) (u : Clocked β), (questdb stagingDir table).Reachable Fresh s' →
      Shows c (place cwd stagingDir) table s' u →
      (∀ other, SAFE_TABLE_NAME other = true → other ≠ table →
        ∃ s, (questdb stagingDir other).Reachable Fresh s ∧ Shows c (place cwd stagingDir) other s u) →
      Recoverable c cwd stagingDir u := by
    intro s' u hreach' hshows' hrest
    refine ⟨hshows'.noLinks, fun other hother => ?_⟩
    by_cases hne : other = table
    · exact hne ▸ ⟨s', hreach', hshows'⟩
    · exact hrest other hother hne
  have hnext : ∀ {r u}, QuestDBExporter.AfterCycle c cwd stagingDir table s r u →
      ∃ s', (questdb stagingDir table).Reachable Fresh s' ∧ Shows c (place cwd stagingDir) table s' u := by
    rintro r u ⟨cycle, s', hclock, hrun, hshows'⟩
    exact ⟨s', hreach.step (by rw [questdb_step_of hclock, hrun]), hshows'⟩
  refine (hcycle.and hothers).mono fun r u hu => ?_
  cases r with
  | ok result =>
      rcases hnext hu.1 with ⟨s', hreach', hshows'⟩
      exact hboth s' u hreach' hshows' hu.2
  | error e =>
      rcases hu.1 with hsame | hfailed
      · exact hboth s u hreach hsame hu.2
      · rcases hnext hfailed with ⟨s', hreach', hshows'⟩
        exact hboth s' u hreach' hshows' hu.2

theorem exportAll_recoverable (hparse : ∀ m, c.parse (c.stringify m) = some m) :
    Triple (ordinary cwd) (Recoverable c cwd stagingDir) (QuestDBExporter.exportAll c stagingDir)
      (fun _ => Recoverable c cwd stagingDir) (Recoverable c cwd stagingDir) := by
  refine .andThen quiet_recoverable.now fun startedAt => ?_
  refine .andThen (.of_ensures fun t ht => .perform (Recoverable c cwd stagingDir) ht
    (fun _ _ => mkdir_recoverable (List.prefix_refl _)) fun _ _ _ => mkdir_recoverable (List.prefix_refl _))
    fun _ => ?_
  refine .andThen (QuestDBExporter.listTables_keeps quiet_recoverable) fun tables => ?_
  refine .andThen (.foldlM (I := fun _ => Recoverable c cwd stagingDir) (fun exports table _ => ?_) [])
    fun exports => ?_
  · split
    case isTrue hsafe =>
        refine .catches (.andThen (exportTable_recoverable hparse hsafe) fun _ => ?_) fun _ => ?_
        · exact .returns fun _ ht => ht
        · exact .returns fun _ ht => ht
    case isFalse =>
        exact .returns fun _ ht => ht
  · exact .andThen quiet_recoverable.now fun _ => .returns fun _ ht => ht

/-- The other exporters leave the tables alone. -/
theorem runAllExports_recoverable (hparse : ∀ m, c.parse (c.stringify m) = some m)
    (signalkConfigRoot : List Char) (enabled : Enabled) :
    Triple (ordinary cwd)
      (Recoverable c cwd (questdbStaging signalkConfigRoot))
      (runAllExports c signalkConfigRoot enabled)
      (fun _ => Recoverable c cwd (questdbStaging signalkConfigRoot))
      (Recoverable c cwd (questdbStaging signalkConfigRoot)) := by
  have hplace : place cwd (questdbStaging signalkConfigRoot) =
      place cwd (stagingRoot signalkConfigRoot) ++ [QuestDBExporter.pluginId] :=
    place_join_name _ name_questdb
  refine runAllExports_keeps quiet_recoverable (fun s t r hs hstep => ?_) fun exporter hmem => ?_
  · exact mkdir_recoverable (hplace ▸ List.prefix_append _ _) hs hstep
  · by_cases hself : exporter.pluginId = QuestDBExporter.pluginId
    · rw [questdb_of_pluginId hmem hself, hself]
      exact exportAll_recoverable hparse
    · refine exportAll_apart cwd hmem name_questdb hself _ fun op hop s t r hs hstep => ?_
      refine hs.step (fun table p hp => hop p ?_) hstep
      exact hp.below

theorem steps_eq (c : Codec β) (cwd signalkConfigRoot : List Char) :
    (tableRounds c cwd signalkConfigRoot).steps (ordinaryOutcome cwd) = ordinary cwd := by
  funext s op t r
  refine propext ⟨?_, ?_⟩
  · rintro ⟨o, hsettle, hok⟩
    rcases Option.map_eq_some_iff.1 hsettle with ⟨⟨disk, x⟩, hdisk, heq⟩
    cases heq
    exact ⟨o, hdisk, hok, rfl⟩
  · rintro ⟨o, hsettle, hok, hclock⟩
    refine ⟨o, Option.map_eq_some_iff.2 ⟨_, hsettle, ?_⟩, hok⟩
    rw [← hclock]

theorem reachable_recovers (hparse : ∀ m, c.parse (c.stringify m) = some m)
    {signalkConfigRoot : List Char} {s : TableRounds β} (h : Reached c cwd signalkConfigRoot s) :
    Recoverable c cwd (questdbStaging signalkConfigRoot) s.state := by
  refine (Calling.recovers (Q := fun _ => Recoverable c cwd
    (questdbStaging signalkConfigRoot)) (fun _ _ h => h) (fun s hs => hs.recoverable)
    (fun enabled s hs => ?_) (fun _ _ hs => hs) ?_ h).1
  · rw [steps_eq]
    refine (runAllExports_recoverable hparse signalkConfigRoot enabled s hs).mono fun r u hu => ?_
    cases r <;> exact hu
  · rw [steps_eq]
    exact ordinary_still

/-- At any moment of any run, whatever fails and wherever it crashes, the disk shows of every table a
staging that cycles of `questdb` lead to from a fresh one. -/
theorem reachable_recoverable (hparse : ∀ m, c.parse (c.stringify m) = some m)
    {signalkConfigRoot : List Char} {s : TableRounds β} (h : Reached c cwd signalkConfigRoot s)
    {table : List Char} (htable : SAFE_TABLE_NAME table = true) :
    ∃ staging, (questdb (questdbStaging signalkConfigRoot) table).Reachable Fresh staging ∧
      Shows c (place cwd (questdbStaging signalkConfigRoot)) table staging s.state :=
  (reachable_recovers hparse h).tables table htable

end Runs

/-! ## A first round -/

/-- What a file of a table directory holds. -/
inductive Body
  | manifest (m : Manifest)
  | rows (text : List Char)

def bodyCodec : Codec Body where
  stringify := .manifest
  parse
    | .manifest m => some m
    | .rows _ => none
  length
    | .manifest _ => 0
    | .rows text => text.length

def signalkRoot : List Char := "/signalk".toList

def questdbRoot : List Seg :=
  ["signalk".toList, "plugin-config-data".toList, "signalk-backup".toList, "database-exports".toList,
    "signalk-questdb".toList]

def unusedRounds : TableRounds Body :=
  { state :=
      { disk := { fs := fun p => if p = [] then some .dir else none, written := [] }, clock := 0 }
    program := none }

theorem place_questdbRoot : place ['/'] (questdbStaging signalkRoot) = questdbRoot := by
  decide

theorem unusedRounds_idle :
    Calling.Idle (Unused bodyCodec ['/'] (questdbStaging signalkRoot)) unusedRounds := by
  refine ⟨rfl, ⟨fun p _ dest h => ?_, le_rfl, fun table _ => ?_⟩⟩
  · simp only [unusedRounds] at h
    split at h <;> cases h
  · have hfilled : tablePlace (place ['/'] (questdbStaging signalkRoot)) table MANIFEST_JSON ≠ [] := by
      simp [tablePlace]
    simp only [unusedRounds, if_neg hfilled]
    rfl

theorem safeTable_signalk : SAFE_TABLE_NAME SIGNALK = true := by
  decide

abbrev RoundAction := CallerAction Enabled (Outcome Body)

/-- The list of tables, which is asked for twice. -/
def listing : List RoundAction :=
  [.settles (.responds { status := 200, body := none }),
    .settles (.parses (.object [("tables", .array [.string (String.ofList SIGNALK)])]))]

/-- A round up to the loop over the weeks of the only table. -/
def beginning : List RoundAction :=
  [.begins { questdb := true, grafana := false, signalkDatabase := false }, .settles .resolves] ++ listing ++
    [.settles (.clock wednesday), .settles .resolves] ++ listing ++
    [.settles .resolves, .settles .resolves, .settles (.rejects "ENOENT"), .settles (.clock wednesday)]

def oneWeek : List RoundAction :=
  [.settles .resolves, .settles (.responds { status := 200, body := some (.rows "PAR1".toList) }),
    .settles .resolves, .settles .resolves]

/-- The process stops when the second week has been written and not been renamed. -/
def crashed : List RoundAction :=
  beginning ++ oneWeek ++ oneWeek.take 3 ++ [.crash]

theorem reachable_recoverable_crashed :
    ∃ s staging, (tableRounds bodyCodec ['/'] signalkRoot).machine.run unusedRounds crashed = some s ∧
      (s.state.disk.fs (tablePlace questdbRoot SIGNALK "signalk_2026-W16.parquet".toList)).isSome ∧
      (s.state.disk.fs (tablePlace questdbRoot SIGNALK "signalk_2026-W17.parquet.partial".toList)).isSome ∧
      (questdb (questdbStaging signalkRoot) SIGNALK).Reachable Fresh staging ∧
      Shows bodyCodec (place ['/'] (questdbStaging signalkRoot)) SIGNALK staging s.state := by
  have hrun : ((tableRounds bodyCodec ['/'] signalkRoot).machine.run unusedRounds crashed).any (fun s =>
      (s.state.disk.fs (tablePlace questdbRoot SIGNALK "signalk_2026-W16.parquet".toList)).isSome &&
      (s.state.disk.fs
        (tablePlace questdbRoot SIGNALK "signalk_2026-W17.parquet.partial".toList)).isSome) = true := by
    decide +kernel
  have hmeets : (tableRounds bodyCodec ['/'] signalkRoot).machine.Meets
      (fun s a => Calling.usual (ordinaryOutcome ['/']) s a) unusedRounds crashed := by decide +kernel
  rcases (Option.any_eq_true _ _).1 hrun with ⟨s, hs, hstate⟩
  rcases reachable_recoverable (c := bodyCodec) (fun _ => rfl)
    (.run (.init unusedRounds_idle) hmeets hs) safeTable_signalk with ⟨staging, hreach, hshows⟩
  simp only [Bool.and_eq_true] at hstate
  exact ⟨s, staging, hs, hstate.1, hstate.2, hreach, hshows⟩

/-! ## Manifests on disk -/

section Consistent

variable {c : Codec β} {cwd stagingDir : List Char}

/-- Every shard that is listed is there. -/
def Present (s : Staging) : Prop :=
  ∀ m ∈ s.manifest, ∀ e ∈ m.shards, (s.shards e.file).isSome

theorem Present.cycle {table : List Char} {cycle : Cycle} {s s' : Staging} {r : Option TableExport}
    (h : Present s) (hinv : Invariant table s) (hclock : s.clock ≤ cycle.now)
    (hrun : exportTable stagingDir table cycle s = (s', r)) : Present s' := by
  rcases exportTable_cases hrun with ⟨p, ok, hloop, _, hshards, ⟨_, hsame⟩ | ⟨⟨result, rfl⟩, rfl, _⟩⟩
  · -- the old manifest, and no shard is removed
    intro m hm e he
    rw [hsame] at hm
    rcases Option.isSome_iff_exists.1 (h m hm e he) with ⟨shard, hshard⟩
    have hrefetched := (Plan.exportWeeks_refetched (le_refl cycle.now) hloop).2
    rcases hrefetched.onDisk hshard with ⟨shard', hdisk, _⟩
    rw [hshards, hdisk]
    rfl
  · intro m hm e he
    rcases exportTable_covers hinv hclock hrun with ⟨m', earliest, hm', hcovers, hlo, hcutoff, hweeks, _⟩
    cases hm'.symm.trans hm
    -- the loop went through the week of the entry
    rcases hcovers.listed he with ⟨k, hfirst, hlast, hlisted⟩
    have hmem : weekAt k ∈ (exportPlan table cycle s).allWeeks := by
      rw [hweeks]
      exact (mem_weeksBetween hcovers.modern hcovers.modern_last).2 ⟨k, hfirst, hlast, rfl⟩
    rcases Plan.exportWeeks_onDisk (le_refl cycle.now) hloop hmem with ⟨shard, hdisk, _⟩
    have hfile : s'.shards e.file = some shard := by
      rw [hshards, hlisted.1]
      exact hdisk
    rw [hfile]
    rfl

theorem reachable_present {table : List Char} {s : Staging}
    (h : (questdb stagingDir table).Reachable Fresh s) : Present s := by
  have hboth : Invariant table s ∧ Present s := by
    refine h.invariant (P := fun s => Invariant table s ∧ Present s)
      (fun s hfresh => ⟨hfresh.invariant, fun m hm => ?_⟩) ?_
    · rw [hfresh.2] at hm
      cases hm
    · rintro s cycle s' ⟨hinv, hpresent⟩ _ hstep
      rcases questdb_step hstep with ⟨hclock, r, hr⟩
      exact ⟨hinv.step hclock hr, hpresent.cycle hinv hclock hr⟩
  exact hboth.2

/-- At any moment of any run: a manifest that can be read from the disk is one the exporter takes, it
lists the weeks without a gap up to one that has begun, and every shard it lists is on disk. -/
theorem reachable_consistent (hparse : ∀ m, c.parse (c.stringify m) = some m)
    {signalkConfigRoot : List Char} {s : TableRounds β} (h : Reached c cwd signalkConfigRoot s)
    {table : List Char} (htable : SAFE_TABLE_NAME table = true) {m : Manifest}
    (hm : manifestAt c (s.state.disk.fs (tablePlace (place cwd (questdbStaging signalkConfigRoot)) table
      MANIFEST_JSON)) = some m) :
    isManifest m = true ∧ (∃ last, WellFormed table m last ∧ weekStartUtc last ≤ s.state.clock) ∧
      ∀ e ∈ m.shards, (s.state.disk.fs (tablePlace (place cwd (questdbStaging signalkConfigRoot)) table
        e.file)).isSome := by
  rcases (reachable_recovers hparse h).tables table htable with ⟨staging, hreach, hshows⟩
  have hmanifest : staging.manifest = some m := hshows.manifest.symm.trans hm
  rcases (reachable_invariant hreach).manifest m hmanifest with ⟨first, last, hlo, hlast, hcovers⟩
  refine ⟨hcovers.isManifest, ⟨weekAt last, hcovers.wellFormed, ?_⟩, fun e he => ?_⟩
  · rw [weekStartUtc_weekAt hcovers.modern_last]
    exact hlast.trans hshows.clock
  · rcases hcovers.listed he with ⟨k, _, _, hlisted⟩
    have hsome := reachable_present hreach m hmanifest e he
    rw [hlisted.1] at hsome ⊢
    rw [(hshows.shards (weekAt k)).there, Option.isSome_map]
    exact hsome

end Consistent

/-- The round ends, and the process stops behind it. -/
def ended : List RoundAction :=
  beginning ++ (List.replicate 5 oneWeek).flatten ++
    [.settles .resolves, .settles .resolves, .settles (.clock wednesday), .crash]

theorem reachable_consistent_ended :
    ∃ s m, (tableRounds bodyCodec ['/'] signalkRoot).machine.run unusedRounds ended = some s ∧
      manifestAt bodyCodec (s.state.disk.fs (tablePlace questdbRoot SIGNALK MANIFEST_JSON)) = some m ∧
      m.shards.length = 5 ∧
      (∃ last, WellFormed SIGNALK m last ∧ weekStartUtc last ≤ s.state.clock) ∧
      ∀ e ∈ m.shards, (s.state.disk.fs (tablePlace questdbRoot SIGNALK e.file)).isSome := by
  have hrun : ((tableRounds bodyCodec ['/'] signalkRoot).machine.run unusedRounds ended).any (fun s =>
      (manifestAt bodyCodec (s.state.disk.fs (tablePlace questdbRoot SIGNALK MANIFEST_JSON))).any fun m =>
        m.shards.length == 5) = true := by decide +kernel
  have hmeets : (tableRounds bodyCodec ['/'] signalkRoot).machine.Meets
      (fun s a => Calling.usual (ordinaryOutcome ['/']) s a) unusedRounds ended := by decide +kernel
  rcases (Option.any_eq_true _ _).1 hrun with ⟨s, hs, hstate⟩
  rcases (Option.any_eq_true _ _).1 hstate with ⟨m, hm, hshards⟩
  have hconsistent := reachable_consistent (c := bodyCodec) (fun _ => rfl)
    (.run (.init unusedRounds_idle) hmeets hs) safeTable_signalk (m := m)
    (place_questdbRoot ▸ hm)
  rw [place_questdbRoot] at hconsistent
  exact ⟨s, m, hs, hm, by simpa using hshards, hconsistent.2.1, hconsistent.2.2⟩

end Export
end SignalKBackup
