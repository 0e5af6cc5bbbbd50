import SignalKBackup.Export.Exporters

/-!
# Atomic — the exporters follow the protocol of whole files

One lemma for each function that makes calls: the three that write files (`exportWeekToShard_allowed`,
`writeManifest_allowed`, `atomicWrite_allowed`), the legacy file that is moved aside, and from these
upwards to `runAllExports_allowed`.
-/

namespace SignalKBackup
namespace Export

open Lib
open Posix
open Protocol (Allowed)

variable {β : Type} {cwd : List Char}

/-! ## Places -/

/-- A path string with a suffix leads to where it led, under a name with the suffix. -/
theorem place_suffix (cwd path : List Char) {w : Seg} (hw : '/' ∉ w) (hlong : 3 ≤ w.length) :
    ∃ (base : List Seg) (s : Seg), '/' ∉ s ∧ s = lastSegment path ∧
      place cwd path = (push false base.reverse s).reverse ∧
        place cwd (path ++ w) = base ++ [s ++ w] := by
  have habs : isAbsolute (path ++ w) = isAbsolute path := by
    cases path with
    | nil =>
        cases w with
        | nil =>
            simp at hlong
        | cons c w =>
            have hc : c ≠ '/' := by
              rintro rfl
              exact hw (by simp)
            simp [isAbsolute, hc]
    | cons c path =>
        rfl
  unfold place
  rw [habs]
  split
  · rcases locate_suffix path hw hlong with ⟨base, s, hs, hlast, hplace, hsuffix, _⟩
    exact ⟨base, s, hs, hlast, hplace, hsuffix⟩
  · rcases locate_suffix (cwd ++ '/' :: path) hw hlong with ⟨base, s, hs, hlast, hplace, hsuffix, _⟩
    rw [lastSegment_append_slash] at hlast
    exact ⟨base, s, hs, hlast, hplace, by simpa using hsuffix⟩

theorem isPartial_place (cwd path : List Char) : IsPartial (place cwd (path ++ PARTIAL)) := by
  rcases place_suffix cwd path (w := PARTIAL) (by decide) (by decide) with ⟨base, s, _, _, _, h⟩
  exact ⟨base, s, h⟩

/-- The rename of a file that was just written. -/
theorem renames_finish (cwd path : List Char) (body : β) :
    Renames (some (place cwd (path ++ PARTIAL), body)) (place cwd (path ++ PARTIAL))
      (place cwd path) := by
  rcases place_suffix cwd path (w := PARTIAL) (by decide) (by decide) with ⟨base, s, hs, _, hp, h⟩
  rw [h, hp]
  by_cases hn : Name s
  · rw [push_name hn, List.reverse_cons, List.reverse_reverse]
    exact .finish rfl
  · -- a trailing slash: the file was written inside the place it should go to
    exact .refused ((push_of_not_name base hs hn).trans (List.prefix_append _ _))

/-- A file is moved aside under its own name with `.legacy`. -/
theorem renames_moveAside (cwd path : List Char) (last : LastWrite β)
    (hname : Name (lastSegment path)) (hfinal : ¬PARTIAL <:+ lastSegment path) :
    Renames last (place cwd path) (place cwd (path ++ LEGACY)) := by
  rcases place_suffix cwd path (w := LEGACY) (by decide) (by decide) with ⟨base, s, _, rfl, hp, h⟩
  rw [h, hp, push_name hname, List.reverse_cons, List.reverse_reverse]
  exact .moveAside hfinal

/-! ## Calls -/

theorem now_allowed : (atomic cwd).Allowed (now : Async β ℤ).run :=
  fun _ => ⟨trivial, fun _ => trivial⟩

theorem existsSync_allowed (path : List Char) :
    (atomic cwd).Allowed (existsSync path : Async β Bool).run :=
  fun _ => ⟨trivial, fun _ => trivial⟩

theorem readFile_allowed (path : List Char) : (atomic cwd).Allowed (readFile path : Async β β).run :=
  .perform fun _ => trivial

theorem fetch_allowed (request : Request) :
    (atomic cwd).Allowed (fetch request : Async β (Response β)).run :=
  .perform fun _ => trivial

theorem text_allowed : (atomic cwd).Allowed (text : Async β (List Char)).run :=
  .perform fun _ => trivial

theorem json_allowed : (atomic cwd).Allowed (json : Async β Json).run :=
  .perform fun _ => trivial

theorem mkdir_allowed (path : List Char) : (atomic cwd).Allowed (mkdir path : Async β Unit).run :=
  .perform fun _ => trivial

theorem rm_allowed (path : List Char) : (atomic cwd).Allowed (rm path : Async β Unit).run :=
  .perform fun _ => trivial

theorem unlinkQuietly_allowed (path : List Char) :
    (atomic cwd).Allowed (unlinkQuietly path : Async β Unit).run :=
  .catches (.perform fun _ => trivial) fun _ => .returns ()

/-- The clean-up after a failure, whatever would have come next. -/
theorem cleanUp_allowed {α : Type} (path : List Char) (err : String) (k : Unit → Async β α) :
    (atomic cwd).Allowed ((do unlinkQuietly path; throw err) >>= k : Async β α).run := by
  intro last
  refine ⟨trivial, fun r => ?_⟩
  cases r with
  | ok u =>
      exact trivial
  | error e =>
      exact trivial

theorem arrayField_allowed (body : Json) (name message : String) :
    (atomic cwd).Allowed (arrayField body name message : Async β (List Json)).run := by
  unfold arrayField
  split
  · exact .returns _
  · exact .throws _

/-! ## Writers -/

theorem writeManifest_allowed (c : Codec β) (tableDir : List Char) (manifest : Manifest) :
    (atomic cwd).Allowed (ManifestFile.writeManifest c tableDir manifest).run := by
  intro last
  refine ⟨isPartial_place cwd _, fun r => ?_⟩
  cases r with
  | ok u =>
      exact ⟨renames_finish cwd _ _, fun _ => trivial⟩
  | error e =>
      exact trivial

theorem exportWeekToShard_allowed (c : Codec β) (table : List Char) (week : IsoWeek)
    (tableDir filename : List Char) :
    (atomic cwd).Allowed (QuestDBExporter.exportWeekToShard c table week tableDir filename).run := by
  refine .andThen (fetch_allowed _) fun res => ?_
  split
  · -- the stream, and the rename right behind it
    intro last
    refine ⟨isPartial_place cwd _, fun r => ?_⟩
    cases r with
    | ok u =>
        refine ⟨renames_finish cwd _ _, fun r' => ?_⟩
        cases r' with
        | ok u =>
            exact trivial
        | error e =>
            exact cleanUp_allowed _ e _ _
    | error e =>
        exact cleanUp_allowed _ e _ _
  · exact .andThen (.catches text_allowed fun _ => .returns _) fun _ => .throws _

theorem atomicWrite_allowed (c : Codec β) (body : β) (finalPath : List Char) :
    (atomic cwd).Allowed (atomicWrite c body finalPath).run := by
  have hcleanUp : ∀ err, (atomic cwd).Allowed
      (do unlinkQuietly (finalPath ++ PARTIAL); throw err : Async β ℕ).run :=
    fun err => .andThen (unlinkQuietly_allowed _) fun _ => .throws err
  intro last
  refine ⟨isPartial_place cwd _, fun r => ?_⟩
  cases r with
  | ok u =>
      refine ⟨renames_finish cwd _ _, fun r' => ?_⟩
      cases r' with
      | ok u =>
          exact trivial
      | error e =>
          exact hcleanUp e _
  | error e =>
      exact hcleanUp e _

/-! ## QuestDB -/

namespace QuestDBExporter

theorem readManifest_allowed (c : Codec β) (tableDir : List Char) :
    (atomic cwd).Allowed (ManifestFile.readManifest c tableDir).run :=
  .catches (.andThen (readFile_allowed _) fun _ => .returns _) fun _ => .returns _

theorem listTables_allowed : (atomic cwd).Allowed (listTables : Async β (List (List Char))).run := by
  refine .andThen (fetch_allowed _) fun res => ?_
  split
  · exact .andThen text_allowed fun _ => .throws _
  · refine .andThen json_allowed fun body => ?_
    exact .andThen (arrayField_allowed _ _ _) fun _ => .returns _

theorem detect_allowed : (atomic cwd).Allowed (detect : Async β Bool).run :=
  .catches (.andThen listTables_allowed fun _ => .returns _) fun _ => .returns _

theorem migrateLegacyFlatFile_allowed (stagingDir : List Char) {table : List Char}
    (htable : '/' ∉ table) :
    (atomic cwd).Allowed (migrateLegacyFlatFile stagingDir table : Async β Unit).run := by
  have hlast : lastSegment (join [stagingDir, table ++ PARQUET]) = table ++ PARQUET :=
    lastSegment_join [stagingDir] (name_suffix htable (by decide) (by decide))
  have hname : Name (lastSegment (join [stagingDir, table ++ PARQUET])) := by
    rw [hlast]
    exact name_suffix htable (by decide) (by decide)
  have hfinal : ¬PARTIAL <:+ lastSegment (join [stagingDir, table ++ PARQUET]) := by
    rw [hlast]
    exact not_partial_suffix table (w := PARQUET) rfl (by decide)
  refine .andThen (existsSync_allowed _) fun there => ?_
  split
  · refine .andThen (existsSync_allowed _) fun aside => ?_
    split
    · exact .catches (.perform fun last => renames_moveAside cwd _ last hname hfinal)
        fun _ => .returns _
    · exact .returns _
  · exact .returns _

theorem exportWeek_allowed (c : Codec β) (table tableDir : List Char) (existing : Option Manifest)
    (nowIso : ℤ) (t : Tally) (week : IsoWeek) :
    (atomic cwd).Allowed (exportWeek c table tableDir existing nowIso t week).run := by
  refine .andThen (existsSync_allowed _) fun onDisk => ?_
  split
  · exact .returns _
  · exact .andThen (exportWeekToShard_allowed c _ _ _ _) fun _ => .returns _

theorem exportTable_allowed (c : Codec β) {table : List Char} (htable : '/' ∉ table)
    (stagingDir : List Char) : (atomic cwd).Allowed (exportTable c table stagingDir).run := by
  refine .andThen (mkdir_allowed _) fun _ => ?_
  refine .andThen (migrateLegacyFlatFile_allowed stagingDir htable) fun _ => ?_
  refine .andThen (readManifest_allowed c _) fun existing => ?_
  refine .andThen now_allowed fun nowIso => ?_
  refine .andThen (.foldlM (fun t week _ => exportWeek_allowed c _ _ _ _ t week) _) fun t => ?_
  exact .andThen (writeManifest_allowed c _ _) fun _ => .returns _

theorem noSlash_of_safe {table : List Char} (h : SAFE_TABLE_NAME table = true) : '/' ∉ table := by
  cases table with
  | nil =>
      simp
  | cons c rest =>
      simp only [SAFE_TABLE_NAME, Bool.and_eq_true, List.all_eq_true] at h
      intro hmem
      rcases List.mem_cons.1 hmem with rfl | hrest
      · exact absurd h.1 (by decide)
      · exact absurd (h.2 '/' hrest) (by decide)

theorem exportAll_allowed (c : Codec β) (stagingDir : List Char) :
    (atomic cwd).Allowed (exportAll c stagingDir).run := by
  refine .andThen now_allowed fun startedAt => ?_
  refine .andThen (mkdir_allowed _) fun _ => ?_
  refine .andThen listTables_allowed fun tables => ?_
  refine .andThen (.foldlM (fun exports table _ => ?_) _) fun exports => ?_
  · split
    case isTrue hsafe =>
        refine .catches (.andThen (exportTable_allowed c (noSlash_of_safe hsafe) _) fun _ => ?_) ?_
        · exact .returns _
        · exact fun _ => .returns _
    case isFalse =>
        exact .returns _
  · exact .andThen now_allowed fun _ => .returns _

end QuestDBExporter

/-! ## Grafana -/

namespace GrafanaExporter

theorem detect_allowed : (atomic cwd).Allowed (detect : Async β Bool).run := by
  refine .catches (.andThen (fetch_allowed _) fun res => ?_) fun _ => .returns _
  split
  · exact .returns _
  · refine .andThen json_allowed fun body => ?_
    split
    · exact .returns _
    · exact .returns _

theorem dropPriorFile_allowed (finalPath : List Char) :
    (atomic cwd).Allowed (dropPriorFile finalPath : Async β Unit).run := by
  refine .andThen (existsSync_allowed _) fun there => ?_
  split
  · exact unlinkQuietly_allowed _
  · exact .returns _

theorem exportDb_allowed (c : Codec β) (stagingDir : List Char) :
    (atomic cwd).Allowed (exportDb c stagingDir).run := by
  refine .andThen (dropPriorFile_allowed _) fun _ => ?_
  refine .andThen (fetch_allowed _) fun res => ?_
  split
  · exact .andThen text_allowed fun _ => .throws _
  · split
    · exact .throws _
    · exact atomicWrite_allowed c _ _

theorem fetchDashboardFile_allowed (c : Codec β) (entry : DashboardEntry)
    (dashboardsDir : List Char) :
    (atomic cwd).Allowed (fetchDashboardFile c entry dashboardsDir).run := by
  refine .andThen (fetch_allowed _) fun res => ?_
  split
  · exact atomicWrite_allowed c _ _
  · exact .throws _

theorem fetchProvisioningFile_allowed (c : Codec β) (entry : ProvisioningEntry)
    (provisioningDir : List Char) :
    (atomic cwd).Allowed (fetchProvisioningFile c entry provisioningDir).run := by
  refine .andThen (fetch_allowed _) fun res => ?_
  split
  · exact .andThen (mkdir_allowed _) fun _ => atomicWrite_allowed c _ _
  · exact .throws _

theorem resetStagingDir_allowed (root : List Char) :
    (atomic cwd).Allowed (resetStagingDir root : Async β Unit).run :=
  .andThen (rm_allowed _) fun _ => mkdir_allowed _

theorem exportEntries_allowed {ε : Type} {parse : Json → Option ε} {fetchFile : ε → Async β ℕ}
    (hfetch : ∀ entry, (atomic cwd).Allowed (fetchFile entry).run) (raws : List Json) :
    (atomic cwd).Allowed (exportEntries parse fetchFile raws).run := by
  refine .foldlM (fun t raw _ => ?_) _
  split
  · exact .returns _
  · exact .catches (.andThen (hfetch _) fun _ => .returns _) fun _ => .returns _

theorem exportDashboards_allowed (c : Codec β) (stagingDir : List Char) :
    (atomic cwd).Allowed (exportDashboards c stagingDir).run := by
  refine .andThen (fetch_allowed _) fun res => ?_
  split
  · exact .throws _
  · refine .andThen json_allowed fun body => ?_
    refine .andThen (arrayField_allowed _ _ _) fun dashboards => ?_
    refine .andThen (resetStagingDir_allowed _) fun _ => ?_
    exact exportEntries_allowed (fun entry => fetchDashboardFile_allowed c entry _) _

theorem exportProvisioning_allowed (c : Codec β) (stagingDir : List Char) :
    (atomic cwd).Allowed (exportProvisioning c stagingDir).run := by
  refine .andThen (fetch_allowed _) fun res => ?_
  split
  · exact .throws _
  · refine .andThen json_allowed fun body => ?_
    refine .andThen (arrayField_allowed _ _ _) fun files => ?_
    refine .andThen (resetStagingDir_allowed _) fun _ => ?_
    exact exportEntries_allowed (fun entry => fetchProvisioningFile_allowed c entry _) _

theorem sectionExport_allowed (table tableDir : List Char) {counts : Async β Counts}
    (hcounts : (atomic cwd).Allowed counts.run) :
    (atomic cwd).Allowed (sectionExport table tableDir counts).run :=
  .catches (.andThen hcounts fun _ => .returns _) fun _ => .returns _

theorem exportAll_allowed (c : Codec β) (stagingDir : List Char) :
    (atomic cwd).Allowed (exportAll c stagingDir).run := by
  have hdb : (atomic cwd).Allowed (exportDb c stagingDir).run := exportDb_allowed c stagingDir
  refine .andThen now_allowed fun startedAt => ?_
  refine .andThen (mkdir_allowed _) fun _ => ?_
  refine .andThen (sectionExport_allowed _ _ (.andThen hdb fun _ => .returns _)) fun db => ?_
  refine .andThen (sectionExport_allowed _ _ (exportDashboards_allowed c _)) fun dashboards => ?_
  refine .andThen (sectionExport_allowed _ _ (exportProvisioning_allowed c _)) fun provisioning => ?_
  exact .andThen now_allowed fun _ => .returns _

end GrafanaExporter

/-! ## Signal K databases -/

namespace SignalKDatabaseExporter

theorem fetchManifest_allowed :
    (atomic cwd).Allowed (fetchManifest : Async β (List DatabaseEntry)).run := by
  refine .andThen (fetch_allowed _) fun res => ?_
  split
  · exact .throws _
  · refine .andThen json_allowed fun body => ?_
    exact .andThen (arrayField_allowed _ _ _) fun _ => .returns _

theorem detect_allowed : (atomic cwd).Allowed (detect : Async β Bool).run :=
  .catches (.andThen fetchManifest_allowed fun _ => .returns _) fun _ => .returns _

theorem exportOne_allowed (c : Codec β) (entry : DatabaseEntry) (stagingDir : List Char) :
    (atomic cwd).Allowed (exportOne c entry stagingDir).run := by
  refine .andThen (mkdir_allowed _) fun _ => ?_
  refine .andThen (fetch_allowed _) fun res => ?_
  split
  · exact .andThen text_allowed fun _ => .throws _
  · split
    · exact .throws _
    · exact atomicWrite_allowed c _ _

theorem exportAll_allowed (c : Codec β) (stagingDir : List Char) :
    (atomic cwd).Allowed (exportAll c stagingDir).run := by
  refine .andThen now_allowed fun startedAt => ?_
  refine .andThen (mkdir_allowed _) fun _ => ?_
  refine .andThen (rm_allowed _) fun _ => ?_
  refine .andThen (mkdir_allowed _) fun _ => ?_
  refine .andThen fetchManifest_allowed fun manifest => ?_
  refine .andThen (.foldlM (fun exports entry _ => ?_) _) fun exports => ?_
  · split
    · exact .returns _
    · exact .catches (.andThen (exportOne_allowed c _ _) fun _ => .returns _) fun _ => .returns _
  · exact .andThen now_allowed fun _ => .returns _

end SignalKDatabaseExporter

/-! ## All exporters -/

theorem runExporter_allowed (root : List Char) (results : List ExportResult)
    {exporter : DatabaseExporter β} (hdetect : (atomic cwd).Allowed exporter.detect.run)
    (hexport : ∀ dir, (atomic cwd).Allowed (exporter.exportAll dir).run) :
    (atomic cwd).Allowed (runExporter root results exporter).run := by
  refine .andThen (.catches hdetect fun _ => .returns _) fun detected => ?_
  split
  · exact .returns _
  · exact .catches (.andThen (hexport _) fun _ => .returns _) fun _ => .returns _

theorem exporters_allowed (c : Codec β) (enabled : Enabled) :
    ∀ exporter ∈ exporters c enabled, (atomic cwd).Allowed exporter.detect.run ∧
      ∀ dir, (atomic cwd).Allowed (exporter.exportAll dir).run := by
  intro exporter hmem
  simp only [exporters, List.mem_append, List.mem_ite_nil_right, List.mem_singleton] at hmem
  rcases hmem with (⟨_, rfl⟩ | ⟨_, rfl⟩) | ⟨_, rfl⟩
  · exact ⟨QuestDBExporter.detect_allowed, QuestDBExporter.exportAll_allowed c⟩
  · exact ⟨GrafanaExporter.detect_allowed, GrafanaExporter.exportAll_allowed c⟩
  · exact ⟨SignalKDatabaseExporter.detect_allowed, SignalKDatabaseExporter.exportAll_allowed c⟩

theorem runAllExports_allowed (c : Codec β) (signalkConfigRoot : List Char) (enabled : Enabled) :
    (atomic cwd).Allowed (runAllExports c signalkConfigRoot enabled).run := by
  refine .andThen (mkdir_allowed _) fun _ => .foldlM (fun results exporter hmem => ?_) _
  rcases exporters_allowed c enabled exporter hmem with ⟨hdetect, hexport⟩
  exact runExporter_allowed _ results hdetect hexport

end Export
end SignalKBackup
