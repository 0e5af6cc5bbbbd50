import SignalKBackup.Export.Sections

/-!
# Unmixed — the Grafana directories in any run, with crashes at any moment

The three sections of `GrafanaExporter.exportAll` come one behind another, and each can fail without
the others.

* The calls of a section keep to the places of its item (`exportDashboards_owned` and its siblings), so
  what one section leaves in its directory the others keep.
* `Ended` describes a directory and the rows about it when a round has ended.
* `reachable_unmixed`: at any moment the files of a directory came in one round.
* `ended_directory`: when a round has ended, a directory with a row is new and has the files that the
  row counts; one without a row has nothing that it had not before.
-/

namespace SignalKBackup
namespace Export

open Lib
open Posix
open FileTree
open GrafanaExporter
open Protocol (Allowed)

variable {β : Type}

/-! ## Calls of a section -/

section Owned

variable {cwd : List Char} {root : List Seg} {item stagingDir : List Char}

theorem own_below {p : List Seg} (hitem : '.' ∉ item) (h : root ++ [item] <+: p) : Own root item p := by
  rcases h with ⟨below, rfl⟩
  exact ⟨item, below, by simp, takeWhile_noDot hitem⟩

theorem fetch_owned (request : Request) :
    (owned cwd root item).Allowed (fetch request : Async β (Response β)).run :=
  .perform (quiet_owned rfl)

theorem atomicWrite_owned (c : Codec β) (body : β) {finalPath : List Char}
    (hfinal : Own root item (place cwd finalPath)) (hsuffix : Own root item (place cwd (finalPath ++ PARTIAL))) :
    (owned cwd root item).Allowed (atomicWrite c body finalPath).run := by
  refine .catches ?_ fun err => cleanUp_owned hsuffix err
  refine .andThen (.perform (path_owned rfl hsuffix)) fun _ => ?_
  exact .andThen (rename_owned hsuffix hfinal) fun _ => .returns _

theorem arrayField_owned (body : Json) (name message : String) :
    (owned cwd root item).Allowed (arrayField body name message : Async β (List Json)).run := by
  unfold arrayField
  split
  · exact .returns _
  · exact .throws _

theorem resetStagingDir_owned {dir : List Char} (h : Own root item (place cwd dir)) :
    (owned cwd root item).Allowed (resetStagingDir dir : Async β Unit).run :=
  .andThen (.perform (path_owned rfl h)) fun _ => .perform (path_owned rfl h)

theorem exportEntries_owned {ε : Type} {parse : Json → Option ε} {fetchFile : ε → Async β ℕ}
    (hfetch : ∀ raw entry, parse raw = some entry → (owned cwd root item).Allowed (fetchFile entry).run)
    (raws : List Json) : (owned cwd root item).Allowed (exportEntries parse fetchFile raws).run := by
  refine .foldlM (fun t raw _ => ?_) _
  split
  case h_1 =>
      exact .returns _
  case h_2 entry hparse =>
      exact .catches (.andThen (hfetch raw entry hparse) fun _ => .returns _) fun _ => .returns _

theorem exportDb_owned (c : Codec β) :
    (owned cwd (place cwd stagingDir) "grafana".toList).Allowed (exportDb c stagingDir).run := by
  have hname : Name "grafana.db".toList := ⟨by decide, by decide, by decide, by decide⟩
  have hfinal : Own (place cwd stagingDir) "grafana".toList
      (place cwd (join [stagingDir, "grafana.db".toList])) := by
    rw [place_join_name stagingDir hname]
    exact ⟨_, [], rfl, by decide⟩
  have hsuffix : Own (place cwd stagingDir) "grafana".toList
      (place cwd (join [stagingDir, "grafana.db".toList] ++ PARTIAL)) := by
    rw [place_join_suffix cwd stagingDir hname (by decide) (by decide)]
    exact ⟨_, [], rfl, by decide⟩
  have hdrop : (owned cwd (place cwd stagingDir) "grafana".toList).Allowed
      (dropPriorFile (join [stagingDir, "grafana.db".toList]) : Async β Unit).run := by
    refine .andThen (existsSync_owned hfinal) fun there => ?_
    split
    · exact unlinkQuietly_owned hfinal
    · exact .returns _
  refine .andThen hdrop fun _ => ?_
  refine .andThen (fetch_owned _) fun res => ?_
  split
  · exact .andThen (.perform (quiet_owned rfl)) fun _ => .throws _
  · split
    · exact .throws _
    · exact atomicWrite_owned c _ hfinal hsuffix

theorem exportDashboards_owned (c : Codec β) :
    (owned cwd (place cwd stagingDir) "dashboards".toList).Allowed (exportDashboards c stagingDir).run := by
  have hbelow : ∀ {p}, place cwd (join [stagingDir, "dashboards".toList]) <+: p →
      Own (place cwd stagingDir) "dashboards".toList p := fun h =>
    own_below (by decide) (place_dashboards cwd stagingDir ▸ h)
  refine .andThen (fetch_owned _) fun res => ?_
  split
  · exact .throws _
  · refine .andThen (.perform (quiet_owned rfl)) fun body => ?_
    refine .andThen (arrayField_owned _ _ _) fun dashboards => ?_
    refine .andThen (resetStagingDir_owned (hbelow (List.prefix_refl _))) fun _ => ?_
    refine exportEntries_owned (fun raw entry hparse => ?_) _
    refine .andThen (fetch_owned _) fun res => ?_
    split
    case h_1 file _ _ =>
        have hname := (parseDashboardEntry_accepted hparse).2
        refine atomicWrite_owned c file (hbelow ?_) (hbelow ?_)
        · rw [place_join_name _ hname]
          exact List.prefix_append _ _
        · rw [place_join_suffix cwd _ hname (by decide) (by decide)]
          exact List.prefix_append _ _
    case h_2 =>
        exact .throws _

theorem exportProvisioning_owned (c : Codec β) :
    (owned cwd (place cwd stagingDir) "provisioning".toList).Allowed
      (exportProvisioning c stagingDir).run := by
  have hbelow : ∀ {p}, place cwd (join [stagingDir, "provisioning".toList]) <+: p →
      Own (place cwd stagingDir) "provisioning".toList p := fun h =>
    own_below (by decide) (place_provisioning cwd stagingDir ▸ h)
  refine .andThen (fetch_owned _) fun res => ?_
  split
  · exact .throws _
  · refine .andThen (.perform (quiet_owned rfl)) fun body => ?_
    refine .andThen (arrayField_owned _ _ _) fun files => ?_
    refine .andThen (resetStagingDir_owned (hbelow (List.prefix_refl _))) fun _ => ?_
    refine exportEntries_owned (fun raw entry hparse => ?_) _
    have hfile := provisioning_below cwd stagingDir (parseProvisioningEntry_accepted hparse)
    refine .andThen (fetch_owned _) fun res => ?_
    split
    case h_1 file _ _ =>
        refine .andThen (.perform (path_owned rfl (hbelow ?_))) fun _ => ?_
        · -- the directory of the file is `provisioning` or below it
          rcases hfile with ⟨⟨⟨below, hbelow⟩, hne⟩, hdir⟩
          have hfilled : below ≠ [] := by
            rintro rfl
            exact hne (by rw [← hbelow, List.append_nil])
          rw [hdir, ← hbelow, List.dropLast_append_of_ne_nil hfilled]
          exact List.prefix_append _ _
        · exact atomicWrite_owned c file (hbelow hfile.1.1) (hbelow hfile.1.partialPath)
    case h_2 =>
        exact .throws _

end Owned

/-! ## A directory and the rows about it -/

def rowsOf (table : List Char) (rows : List TableExport) : List TableExport :=
  rows.filter fun row => row.table == table

@[simp] theorem rowsOf_append (table : List Char) (rows more : List TableExport) :
    rowsOf table (rows ++ more) = rowsOf table rows ++ rowsOf table more :=
  List.filter_append ..

/-- The rows that a round reports about a table of the exporter. -/
def rowsIn (table : List Char) (results : List ExportResult) : List TableExport :=
  (results.filter fun r => r.pluginId == pluginId).flatMap fun r => rowsOf table r.tables

/-- There is no row, and the directory is old. -/
def Untold (dir : List Seg) (ok : List Seg → β → Prop) (rows : List TableExport) (s : Gathering β) : Prop :=
  rows = [] ∧ IsOld dir ok s

/-- With a row the directory has been renewed, and the row counts its files. -/
def Ended (cwd stagingDir : List Char) (d : Directory) (ok : List Seg → β → Prop)
    (rows : List TableExport) (s : Gathering β) : Prop :=
  Untold (d.root cwd stagingDir) ok rows s ∨
    ∃ row, rows = [row] ∧ Counted cwd stagingDir d row.shardsWritten s

section Triples

variable {cwd stagingDir : List Char} {d : Directory} {ok : List Seg → β → Prop} {dir : List Seg}

theorem Directory.noDot (d : Directory) : '.' ∉ d.table := by
  cases d <;> decide

theorem Directory.root_eq (cwd stagingDir : List Char) (d : Directory) :
    d.root cwd stagingDir = place cwd stagingDir ++ [d.table] := by
  cases d with
  | dashboards =>
      exact place_dashboards cwd stagingDir
  | provisioning =>
      exact place_provisioning cwd stagingDir

/-- What the steps beside a directory keep. -/
def Lasts (cwd stagingDir : List Char) (dir : List Seg) (I : Gathering β → Prop) : Prop :=
  ∀ op : Op β, Beside cwd dir op → ∀ s t r, I s → gathers cwd stagingDir s op t r → I t

theorem lasts_old : Lasts cwd stagingDir dir (IsOld (β := β) dir ok) :=
  fun _ hop _ _ _ hs hstep => hs.beside hop hstep

theorem lasts_untold (rows : List TableExport) : Lasts cwd stagingDir dir (Untold (β := β) dir ok rows) :=
  fun _ hop _ _ _ hs hstep => ⟨hs.1, hs.2.beside hop hstep⟩

theorem lasts_ended (rows : List TableExport) :
    Lasts cwd stagingDir (d.root cwd stagingDir) (Ended (β := β) cwd stagingDir d ok rows) := by
  rintro op hop s t r (hs | ⟨row, hrows, body, raws, done, hanswer, hlist, hsub, hdone, hs⟩) hstep
  · exact Or.inl (lasts_untold rows op hop s t r hs hstep)
  · exact Or.inr ⟨row, hrows, body, raws, done, answers_kept s op t r hanswer hstep, hlist, hsub, hdone,
      hs.beside hop hstep⟩

theorem Lasts.quiet {I : Gathering β → Prop} (h : Lasts cwd stagingDir dir I) :
    Quiet (gathers cwd stagingDir) I :=
  quiet_beside h

/-- A section about something else. -/
theorem sectionExport_beside {I : Gathering β → Prop} (hI : Lasts cwd stagingDir (d.root cwd stagingDir) I)
    {item table : List Char} {counts : Async β Counts}
    (hcounts : (owned cwd (place cwd stagingDir) item).Allowed counts.run) (hitem : item ≠ d.table)
    (htable : table ≠ d.table) (tableDir : List Char) {E : Gathering β → Prop} :
    Triple (gathers cwd stagingDir) I (sectionExport table tableDir counts)
      (fun rows s => rowsOf d.table rows = [] ∧ I s) E := by
  refine .catches (H := I) (.andThen (M := fun _ => I) ?_ fun t => .returns fun s hs => ⟨?_, hs⟩)
    fun _ => .returns fun s hs => ⟨rfl, hs⟩
  · refine .of_ensures fun s hs => .of_obeys (P := owned cwd (place cwd stagingDir) item)
      (fun _ op hop => hI op fun p hp => ?_) (hcounts ()) hs
    exact apart_of_owned (Ne.symm hitem) (own_below d.noDot (d.root_eq cwd stagingDir ▸ hp)) hop
  · simp [rowsOf, htable]

/-- The section of the directory itself. -/
theorem sectionExport_ended {counts : Async β Counts}
    (hcounts : Triple (gathers cwd stagingDir) (IsOld (d.root cwd stagingDir) ok) counts
      (fun counts => Counted cwd stagingDir d counts.count) (IsOld (d.root cwd stagingDir) ok))
    (table tableDir : List Char) {E : Gathering β → Prop} :
    Triple (gathers cwd stagingDir) (IsOld (d.root cwd stagingDir) ok)
      (sectionExport table tableDir counts)
      (fun rows => Ended cwd stagingDir d ok (rowsOf table rows)) E := by
  refine .catches (H := IsOld (d.root cwd stagingDir) ok) (.andThen hcounts fun t => .returns fun s hs => ?_)
    fun _ => .returns fun s hs => Or.inl ⟨rfl, hs⟩
  refine Or.inr ⟨⟨table, tableDir, t.count, t.skipped, t.totalBytes⟩, ?_, hs⟩
  simp [rowsOf]

theorem exportDb_section (c : Codec β) {I : Gathering β → Prop}
    (hI : Lasts cwd stagingDir (d.root cwd stagingDir) I) {E : Gathering β → Prop} :
    Triple (gathers cwd stagingDir) I
      (sectionExport "grafana.db".toList stagingDir do
        let dbBytes ← exportDb c stagingDir
        return { count := 1, totalBytes := dbBytes })
      (fun rows s => rowsOf d.table rows = [] ∧ I s) E := by
  refine sectionExport_beside hI (.andThen (exportDb_owned c) fun _ => .returns _) ?_ ?_ _
  · cases d <;> decide
  · cases d <;> decide

theorem exportAll_ended (c : Codec β) (d : Directory) :
    Triple (gathers cwd stagingDir) (IsOld (d.root cwd stagingDir) ok)
      (GrafanaExporter.exportAll c stagingDir)
      (fun r => Ended cwd stagingDir d ok (rowsOf d.table r.tables))
      (IsOld (d.root cwd stagingDir) ok) := by
  refine .andThen quiet_old.now fun startedAt => ?_
  refine .andThen (.of_ensures fun s hs => .perform (IsOld (d.root cwd stagingDir) ok) hs
    (fun _ _ ht => ht.mkdir) fun _ _ _ ht => ht.mkdir) fun _ => ?_
  refine .andThen (exportDb_section c lasts_old) fun db => .of_fact fun hdb => ?_
  cases d with
  | dashboards =>
      refine .andThen (sectionExport_ended (exportDashboards_counted c) _ _) fun dashboards => ?_
      refine .andThen (sectionExport_beside (d := .dashboards) (lasts_ended _) (exportProvisioning_owned c)
        (by decide) (by decide) _) fun provisioning => .of_fact fun hprovisioning => ?_
      refine .andThen (lasts_ended _).quiet.now fun _ => .returns fun s hs => ?_
      rw [rowsOf_append, rowsOf_append, hdb, hprovisioning, List.nil_append, List.append_nil]
      exact hs
  | provisioning =>
      refine .andThen (sectionExport_beside (d := .provisioning) lasts_old (exportDashboards_owned c)
        (by decide) (by decide) _) fun dashboards => .of_fact fun hdashboards => ?_
      refine .andThen (sectionExport_ended (exportProvisioning_counted c) _ _) fun provisioning => ?_
      refine .andThen (lasts_ended _).quiet.now fun _ => .returns fun s hs => ?_
      rw [rowsOf_append, rowsOf_append, hdb, hdashboards, List.nil_append, List.nil_append]
      exact hs

end Triples

/-! ## A round -/

section Rounds

variable {cwd signalkConfigRoot : List Char} {d : Directory} {ok : List Seg → β → Prop} {c : Codec β}
  {enabled : Enabled}

/-- Every result carries the id of its plugin. -/
theorem exportAll_pluginId {σ : Type} (R : Steps (Op β) Res σ) {exporter : DatabaseExporter β}
    (hmem : exporter ∈ exporters c enabled) (stagingDir : List Char) :
    Triple R (fun _ => True) (exporter.exportAll stagingDir) (fun r _ => r.pluginId = exporter.pluginId)
      fun _ => True := by
  have hany : ∀ {α : Type} (x : Async β α), Triple R (fun _ => True) x (fun _ _ => True) fun _ => True :=
    fun x => .of_ensures fun _ _ => .always (fun _ _ _ _ _ _ => trivial) trivial
  simp only [exporters, List.mem_append, List.mem_ite_nil_right, List.mem_singleton] at hmem
  rcases hmem with (⟨_, rfl⟩ | ⟨_, rfl⟩) | ⟨_, rfl⟩
  · refine .andThen (hany _) fun _ => .andThen (hany _) fun _ => .andThen (hany _) fun _ => ?_
    exact .andThen (hany _) fun _ => .andThen (hany _) fun _ => .returns fun _ _ => rfl
  · refine .andThen (hany _) fun _ => .andThen (hany _) fun _ => .andThen (hany _) fun _ => ?_
    refine .andThen (hany _) fun _ => .andThen (hany _) fun _ => ?_
    exact .andThen (hany _) fun _ => .returns fun _ _ => rfl
  · refine .andThen (hany _) fun _ => .andThen (hany _) fun _ => .andThen (hany _) fun _ => ?_
    refine .andThen (hany _) fun _ => .andThen (hany _) fun _ => .andThen (hany _) fun _ => ?_
    exact .andThen (hany _) fun _ => .returns fun _ _ => rfl

theorem exportAll_named {σ : Type} {R : Steps (Op β) Res σ} {exporter : DatabaseExporter β}
    (hmem : exporter ∈ exporters c enabled) {stagingDir : List Char} {P E : σ → Prop}
    {Q : ExportResult → σ → Prop} (h : Triple R P (exporter.exportAll stagingDir) Q E) :
    Triple R P (exporter.exportAll stagingDir) (fun r s => r.pluginId = exporter.pluginId ∧ Q r s) E := by
  intro s hs
  refine ((exportAll_pluginId R hmem _ s trivial).and (h s hs)).mono fun r t hr => ?_
  cases r with
  | ok r =>
      exact hr
  | error e =>
      exact hr.2

theorem rowsIn_concat (table : List Char) (results : List ExportResult) (r : ExportResult) :
    rowsIn table (results ++ [r]) =
      rowsIn table results ++ if r.pluginId = pluginId then rowsOf table r.tables else [] := by
  by_cases h : r.pluginId = pluginId <;> simp [rowsIn, h]

/-- The rounds of the loop for the other exporters. -/
theorem runExporter_beside {I : List TableExport → Gathering β → Prop}
    (hI : ∀ rows, Lasts cwd (grafanaStaging signalkConfigRoot) (d.root cwd (grafanaStaging signalkConfigRoot))
      (I rows)) {exporter : DatabaseExporter β} (hmem : exporter ∈ exporters c enabled)
    (hother : exporter.pluginId ≠ pluginId) (results : List ExportResult) {E : Gathering β → Prop} :
    Triple (gathers cwd (grafanaStaging signalkConfigRoot)) (I (rowsIn d.table results))
      (runExporter (stagingRoot signalkConfigRoot) results exporter)
      (fun results => I (rowsIn d.table results)) E := by
  have hkeeps : Triple (gathers cwd (grafanaStaging signalkConfigRoot)) (I (rowsIn d.table results))
      (exporter.exportAll (join [stagingRoot signalkConfigRoot, exporter.pluginId]))
      (fun _ => I (rowsIn d.table results)) (I (rowsIn d.table results)) := by
    refine exportAll_apart cwd hmem name_grafana hother _ fun op hop s t r hs hstep => ?_
    refine hI _ op (fun p hp => hop p ?_) s t r hs hstep
    rw [d.root_eq] at hp
    exact (List.prefix_append _ _).trans hp
  refine .andThen (.catches (detect_keeps (hI _).quiet hmem) fun _ => .returns fun _ hs => hs)
    fun detected => ?_
  split
  · exact .returns fun _ hs => hs
  · refine .catches (.andThen (exportAll_named hmem hkeeps) fun r => .of_fact fun hr => .returns fun s hs => ?_)
      fun _ => .returns fun _ hs => hs
    rw [rowsIn_concat, if_neg (hr ▸ hother), List.append_nil]
    exact hs

/-- The round of the loop for the exporter itself. -/
theorem runExporter_ended {results : List ExportResult} (hresults : rowsIn d.table results = [])
    {E : Gathering β → Prop} :
    Triple (gathers cwd (grafanaStaging signalkConfigRoot))
      (IsOld (d.root cwd (grafanaStaging signalkConfigRoot)) ok)
      (runExporter (stagingRoot signalkConfigRoot) results
        ⟨pluginId, GrafanaExporter.detect, GrafanaExporter.exportAll c⟩)
      (fun results => Ended cwd (grafanaStaging signalkConfigRoot) d ok (rowsIn d.table results))
      E := by
  have hold : ∀ s, IsOld (d.root cwd (grafanaStaging signalkConfigRoot)) ok s →
      Ended cwd (grafanaStaging signalkConfigRoot) d ok (rowsIn d.table results) s :=
    fun s hs => Or.inl ⟨hresults, hs⟩
  have hmem : ⟨pluginId, GrafanaExporter.detect, GrafanaExporter.exportAll c⟩ ∈
      exporters c { questdb := false, grafana := true, signalkDatabase := false } := by
    simp [exporters]
  refine .andThen (.catches (GrafanaExporter.detect_keeps quiet_old) fun _ => .returns fun _ hs => hs)
    fun detected => ?_
  split
  · exact .returns hold
  · refine .catches (.andThen (exportAll_named hmem (exportAll_ended c d)) fun r => .of_fact fun hr =>
      .returns fun s hs => ?_) fun _ => .returns hold
    rw [rowsIn_concat, if_pos hr, hresults, List.nil_append]
    exact hs

/-- An exporter that may be enabled. -/
theorem runExporter_enabled {σ : Type} {R : Steps (Op β) Res σ} {b : Bool} {exporter : DatabaseExporter β}
    {root : List Char} {P Q : List ExportResult → σ → Prop} {E : σ → Prop}
    (hoff : ∀ results s, P results s → Q results s)
    (hon : b = true → ∀ results, Triple R (P results) (runExporter root results exporter) Q E)
    (results : List ExportResult) :
    Triple R (P results) ((if b then [exporter] else []).foldlM (runExporter root) results) Q E := by
  split
  case isTrue h =>
      rw [List.foldlM_cons]
      exact .andThen (hon h results) fun _ => .returns fun _ hs => hs
  case isFalse =>
      exact .returns (hoff results)

theorem runAllExports_ended (c : Codec β) (signalkConfigRoot : List Char) (enabled : Enabled)
    (d : Directory) :
    Triple (gathers cwd (grafanaStaging signalkConfigRoot))
      (IsOld (d.root cwd (grafanaStaging signalkConfigRoot)) ok)
      (runAllExports c signalkConfigRoot enabled)
      (fun results => Ended cwd (grafanaStaging signalkConfigRoot) d ok (rowsIn d.table results))
      (IsOld (d.root cwd (grafanaStaging signalkConfigRoot)) ok) := by
  refine .andThen (.of_ensures fun s hs => .perform
    (IsOld (d.root cwd (grafanaStaging signalkConfigRoot)) ok) hs (fun _ _ ht => ht.mkdir)
    fun _ _ _ ht => ht.mkdir) fun _ => ?_
  have hquestdb : QuestDBExporter.pluginId ≠ pluginId := by decide
  have hdatabase : SignalKDatabaseExporter.pluginId ≠ pluginId := by decide
  -- the exporter itself comes between the others
  rw [exporters, List.foldlM_append, List.foldlM_append, bind_assoc]
  refine .consequence (P := Untold (d.root cwd (grafanaStaging signalkConfigRoot)) ok (rowsIn d.table []))
    ?_ (fun s hs => ⟨rfl, hs⟩) (fun _ _ hs => hs) fun _ hs => hs
  refine .andThen (M := fun results =>
    Untold (d.root cwd (grafanaStaging signalkConfigRoot)) ok (rowsIn d.table results)) ?_ fun before => ?_
  · refine runExporter_enabled (P := fun results =>
      Untold (d.root cwd (grafanaStaging signalkConfigRoot)) ok (rowsIn d.table results))
      (fun _ _ hs => hs) (fun henabled results => ?_) []
    have hmem : ⟨QuestDBExporter.pluginId, QuestDBExporter.detect, QuestDBExporter.exportAll c⟩ ∈
        exporters c enabled := by
      simp [exporters, henabled]
    exact runExporter_beside lasts_untold hmem hquestdb results
  · refine .andThen (M := fun results => Ended cwd (grafanaStaging signalkConfigRoot) d ok
      (rowsIn d.table results)) ?_ fun results => ?_
    · exact runExporter_enabled (P := fun results =>
        Untold (d.root cwd (grafanaStaging signalkConfigRoot)) ok (rowsIn d.table results))
        (fun _ _ hs => Or.inl hs) (fun _ results => .of_fact fun hrows =>
          runExporter_ended hrows) before
    · refine runExporter_enabled (P := fun results => Ended cwd (grafanaStaging signalkConfigRoot) d ok
        (rowsIn d.table results)) (fun _ _ hs => hs) (fun henabled results => ?_) results
      have hmem : ⟨SignalKDatabaseExporter.pluginId, SignalKDatabaseExporter.detect,
          SignalKDatabaseExporter.exportAll c⟩ ∈ exporters c enabled := by
        simp [exporters, henabled]
      exact runExporter_beside lasts_ended hmem hdatabase results

end Rounds

/-! ## Runs -/

abbrev SectionRounds (β : Type) :=
  Caller (Gathering β) (Op β) Res (Except String (List ExportResult))

/-- The directory has no file yet, and nothing has come. -/
structure Bare (cwd signalkConfigRoot : List Char) (d : Directory) (s : Gathering β) : Prop where
  noLinks : NoLinks s.disk.fs []
  empty : FilesIn (d.root cwd (grafanaStaging signalkConfigRoot)) (fun _ _ => False) s.disk.fs

/-- Rounds with any outcomes, from states that `I` describes. -/
def Gathered (c : Codec β) (cwd signalkConfigRoot : List Char) (I : Gathering β → Prop) :
    SectionRounds β → Prop :=
  (sectionRounds c cwd signalkConfigRoot).machine.Reachable (Calling.Idle I)

section Runs

variable {c : Codec β} {cwd signalkConfigRoot : List Char} {d : Directory}

theorem steps_gathers (c : Codec β) (cwd signalkConfigRoot : List Char) :
    (sectionRounds c cwd signalkConfigRoot).steps (fun _ _ _ => true) =
      gathers cwd (grafanaStaging signalkConfigRoot) := by
  funext s op t r
  refine propext ⟨?_, ?_⟩
  · rintro ⟨o, hsettle, _⟩
    rcases Option.map_eq_some_iff.1 hsettle with ⟨⟨disk, x⟩, hdisk, heq⟩
    cases heq
    exact ⟨o, hdisk, rfl, rfl, rfl, rfl, rfl⟩
  · rintro ⟨o, hsettle, hfetched, hstart, hpast, hasking, hanswers⟩
    refine ⟨o, Option.map_eq_some_iff.2 ⟨_, hsettle, ?_⟩, rfl⟩
    rw [← hfetched, ← hstart, ← hpast, ← hasking, ← hanswers]

theorem gathers_still {stagingDir : List Char} (s : Gathering β) (op : Op β) :
    ∃ x, gathers cwd stagingDir s op s (some x) := by
  have hno : fileOf cwd stagingDir op (.rejects "") = [] := by
    cases op <;> rfl
  have hkept : s.fetched = s.fetched ++ fileOf cwd stagingDir op (.rejects "") := by
    rw [hno, List.append_nil]
  have hnone := (List.append_nil s.answers).symm
  cases op with
  | now =>
      exact ⟨0, .clock 0, rfl, (List.append_nil _).symm, rfl, rfl, rfl, hnone⟩
  | existsSync path =>
      exact ⟨_, .resolves, rfl, (List.append_nil _).symm, rfl, rfl, rfl, hnone⟩
  | _ =>
      exact ⟨.error "", .rejects "", rfl, hkept, rfl, rfl, rfl, hnone⟩

/-- The files of a directory came in one round. -/
def Unmixed (cwd signalkConfigRoot : List Char) (d : Directory) (s : Gathering β) : Prop :=
  NoLinks s.disk.fs [] ∧ ∃ batch ∈ s.fetched :: s.past,
    FilesIn (d.root cwd (grafanaStaging signalkConfigRoot)) (fun p bytes => (p, bytes) ∈ batch) s.disk.fs

theorem runAllExports_unmixed (c : Codec β) (signalkConfigRoot : List Char) (d : Directory)
    (enabled : Enabled) {s : Gathering β} (hs : Unmixed cwd signalkConfigRoot d s) :
    Program.Ensures (gathers cwd (grafanaStaging signalkConfigRoot))
      (fun _ => Unmixed cwd signalkConfigRoot d) (runAllExports c signalkConfigRoot enabled).run
      s.enter := by
  rcases hs with ⟨hlinks, batch, hbatch, hfiles⟩
  have hpast : Program.Ensures (gathers cwd (grafanaStaging signalkConfigRoot))
      (fun _ t => t.past = s.fetched :: s.past) (runAllExports c signalkConfigRoot enabled).run s.enter := by
    refine .always (fun t op t' r ht hstep => ?_) rfl
    rcases hstep with ⟨_, _, _, _, hpast, _⟩
    rw [hpast, ht]
  have hended := runAllExports_ended c signalkConfigRoot enabled d s.enter
    (show IsOld _ (fun p bytes => (p, bytes) ∈ batch) s.enter from ⟨hlinks, hfiles⟩)
  have hold : ∀ {t : Gathering β}, IsOld (d.root cwd (grafanaStaging signalkConfigRoot))
      (fun p bytes => (p, bytes) ∈ batch) t → t.past = s.fetched :: s.past →
      Unmixed cwd signalkConfigRoot d t := by
    intro t ht hpast
    exact ⟨ht.1, batch, by rw [hpast]; exact List.mem_cons_of_mem _ hbatch, ht.2⟩
  refine (hended.and hpast).mono fun r t ht => ?_
  cases r with
  | error e =>
      exact hold ht.1 ht.2
  | ok results =>
      rcases ht.1 with hnone | ⟨row, _, _, _, done, _, _, _, _, hrenewed⟩
      · exact hold hnone.2 ht.2
      · exact ⟨hrenewed.noLinks, t.fetched, List.mem_cons_self ..,
          hrenewed.files.mono fun _ _ hfile => hfile.1⟩

/-- At any moment of any run, whatever fails and wherever it crashes: the files of a directory, but
for those with `.partial` names, came for their places in one and the same round. -/
theorem reachable_unmixed {s : SectionRounds β}
    (h : Gathered c cwd signalkConfigRoot (Bare cwd signalkConfigRoot d) s) :
    ∃ batch ∈ s.state.fetched :: s.state.past, ∀ p bytes,
      d.root cwd (grafanaStaging signalkConfigRoot) <+: p → s.state.disk.fs p = some (.file bytes) →
        IsPartial p ∨ (p, bytes) ∈ batch := by
  have hrecovers : Calling.Recovers (sectionRounds c cwd signalkConfigRoot) (fun _ _ _ => true)
      (Unmixed cwd signalkConfigRoot d) (fun _ => Unmixed cwd signalkConfigRoot d) s := by
    refine Calling.recovers (fun s a _ => Calling.usual_always s a) (fun s hs => ?_)
      (fun enabled s hs => ?_) (fun _ s hs => ?_) ?_ h
    · exact ⟨hs.noLinks, s.fetched, List.mem_cons_self .., hs.empty.mono fun _ _ hno => hno.elim⟩
    · rw [steps_gathers]
      exact runAllExports_unmixed c signalkConfigRoot d enabled hs
    · exact hs
    · rw [steps_gathers]
      exact gathers_still
  exact hrecovers.1.2

/-- What a round leaves, seen from where it began. -/
def LeftBy (cwd signalkConfigRoot : List Char) (d : Directory) :
    Except String (List ExportResult) → Gathering β → Prop
  | .ok results, s => Ended cwd (grafanaStaging signalkConfigRoot) d
      (fun p bytes => s.start p = some (.file bytes)) (rowsIn d.table results) s
  | .error _, s => NoLinks s.disk.fs []

theorem LeftBy.noLinks {r : Except String (List ExportResult)} {s : Gathering β}
    (h : LeftBy cwd signalkConfigRoot d r s) : NoLinks s.disk.fs [] := by
  cases r with
  | error e =>
      exact h
  | ok results =>
      rcases h with hnone | ⟨row, _, _, _, done, _, _, _, _, hrenewed⟩
      · exact hnone.2.1
      · exact hrenewed.noLinks

theorem runAllExports_leaves (c : Codec β) (signalkConfigRoot : List Char) (d : Directory)
    (enabled : Enabled) {s : Gathering β} (hs : NoLinks s.disk.fs []) :
    Program.Ensures (gathers cwd (grafanaStaging signalkConfigRoot)) (LeftBy cwd signalkConfigRoot d)
      (runAllExports c signalkConfigRoot enabled).run s.enter := by
  have hstart : Program.Ensures (gathers cwd (grafanaStaging signalkConfigRoot))
      (fun _ t => t.start = s.disk.fs) (runAllExports c signalkConfigRoot enabled).run s.enter := by
    refine .always (fun t op t' r ht hstep => ?_) rfl
    rcases hstep with ⟨_, _, _, hstart, _⟩
    rw [hstart, ht]
  -- every file was there when the round began
  have hended := runAllExports_ended c signalkConfigRoot enabled d s.enter
    (show IsOld (d.root cwd (grafanaStaging signalkConfigRoot))
      (fun p bytes => s.disk.fs p = some (.file bytes)) s.enter from ⟨hs, fun _ _ _ hfile => Or.inr hfile⟩)
  refine (hended.and hstart).mono fun r t ht => ?_
  cases r with
  | error e =>
      exact ht.1.1
  | ok results =>
      simp only [LeftBy, ht.2]
      exact ht.1

/-- What a row says of a directory behind a round: it was emptied and filled in the round, with files
of entries of the list that came, and the row counts them. -/
structure Tells (cwd stagingDir : List Char) (d : Directory) (row : TableExport) (s : Gathering β)
    (raws : List Json) (done : List (List Seg)) : Prop where
  answer : ∃ body, (d.request, body) ∈ s.answers ∧ d.list body = some raws
  entries : done.Sublist (raws.filterMap (d.placeOf cwd stagingDir))
  shardsWritten : row.shardsWritten = done.length
  renewed : Renewed (d.root cwd stagingDir) s.fetched done s.disk.fs
  count : (raws.filterMap (d.placeOf cwd stagingDir)).Nodup →
    (∀ p ∈ raws.filterMap (d.placeOf cwd stagingDir), ¬IsPartial p) →
      row.shardsWritten = (raws.filterMap (d.placeOf cwd stagingDir)).countP (holdsFile s.disk.fs)

/-- A round that has ended, whatever happened in it and before: a directory without a row has no file
that it had not when the round began; one with a row has been emptied in the round, its files came in
the round for entries of its list, and the row counts those whose file is there. -/
theorem ended_directory {s : SectionRounds β}
    (h : Gathered c cwd signalkConfigRoot (fun s => NoLinks s.disk.fs []) s) {results : List ExportResult}
    (hend : s.program = some (.pure (.ok results))) (d : Directory) :
    (rowsIn d.table results = [] ∧ ∀ p bytes, d.root cwd (grafanaStaging signalkConfigRoot) <+: p →
        s.state.disk.fs p = some (.file bytes) → IsPartial p ∨ s.state.start p = some (.file bytes)) ∨
      ∃ row raws done, rowsIn d.table results = [row] ∧
        Tells cwd (grafanaStaging signalkConfigRoot) d row s.state raws done := by
  have hrecovers : Calling.Recovers (sectionRounds c cwd signalkConfigRoot) (fun _ _ _ => true)
      (fun s => NoLinks s.disk.fs []) (LeftBy cwd signalkConfigRoot d) s := by
    refine Calling.recovers (fun s a _ => Calling.usual_always s a) (fun s hs => ?_)
      (fun enabled s hs => ?_) (fun _ s hs => ?_) ?_ h
    · exact hs
    · rw [steps_gathers]
      exact runAllExports_leaves c signalkConfigRoot d enabled hs
    · exact hs.noLinks
    · rw [steps_gathers]
      exact gathers_still
  have hleft : LeftBy cwd signalkConfigRoot d (.ok results) s.state := hrecovers.ended hend
  rcases hleft with ⟨hrows, hold⟩ | ⟨row, hrows, body, raws, done, hanswer, hlist, hsub, hdone, hrenewed⟩
  · exact Or.inl ⟨hrows, hold.2⟩
  · refine Or.inr ⟨row, raws, done, hrows, ⟨body, hanswer, hlist⟩, hsub, hdone.symm, hrenewed, ?_⟩
    intro hnodup hpartial
    rw [← hdone]
    refine Renewed.count hrenewed hsub (fun p hp => ?_) hnodup hpartial
    rcases List.mem_filterMap.1 hp with ⟨raw, _, hplace⟩
    exact placeOf_below hplace

end Runs

/-! ## A round with a dashboard -/

def grafanaRoot : List Seg :=
  ["signalk".toList, "plugin-config-data".toList, "signalk-backup".toList, "database-exports".toList,
    "signalk-grafana".toList]

def bareRounds : SectionRounds (List Char) :=
  { state :=
      { disk := { fs := fun p => if p = [] then some .dir else none, written := [] }
        start := fun _ => none
        fetched := []
        past := []
        asking := none
        answers := [] }
    program := none }

theorem place_grafanaRoot (d : Directory) :
    d.root ['/'] (grafanaStaging "/signalk".toList) = grafanaRoot ++ [d.table] := by
  cases d <;> decide

theorem bareRounds_noLinks : NoLinks bareRounds.state.disk.fs [] := by
  intro p _ dest h
  simp only [bareRounds] at h
  split at h <;> cases h

theorem bareRounds_bare (d : Directory) : Bare ['/'] "/signalk".toList d bareRounds.state := by
  refine ⟨bareRounds_noLinks, fun p bytes _ hfile => ?_⟩
  simp only [bareRounds] at hfile
  split at hfile <;> cases hfile

abbrev SectionAction := CallerAction Enabled (Outcome (List Char))

def answer (body : Json) : List SectionAction :=
  [.settles (.responds { status := 200, body := none }), .settles (.parses body)]

def dashboardsAnswer : Json :=
  .object [("dashboards", .array [.object [("name", .string "boat.json"), ("sha256", .string ""),
    ("bytes", .number "2")]])]

/-- The only dashboard comes, and is written. -/
def dashboardComes : List SectionAction :=
  [.begins { questdb := false, grafana := true, signalkDatabase := false }, .settles .resolves] ++
    answer dashboardsAnswer ++
    [.settles (.clock 0), .settles .resolves, .settles .resolves, .settles (.rejects "ECONNREFUSED")] ++
    answer dashboardsAnswer ++
    [.settles .resolves, .settles .resolves,
      .settles (.responds { status := 200, body := some "hi".toList }), .settles .resolves]

def boatPlace : List Seg :=
  grafanaRoot ++ ["dashboards".toList] ++ ["boat.json".toList]

theorem boatPlace_not_partial : ¬IsPartial boatPlace := by
  unfold boatPlace
  rw [isPartial_iff_suffix]
  decide

theorem reachable_unmixed_dashboard :
    ∃ s, (sectionRounds plainCodec ['/'] "/signalk".toList).machine.run bareRounds
        (dashboardComes ++ [.settles .resolves, .crash]) = some s ∧
      s.state.disk.fs boatPlace = some (.file "hi".toList) ∧
      ∃ batch ∈ s.state.fetched :: s.state.past, (boatPlace, "hi".toList) ∈ batch := by
  have hrun : ((sectionRounds plainCodec ['/'] "/signalk".toList).machine.run bareRounds
      (dashboardComes ++ [.settles .resolves, .crash])).any (fun s =>
        s.state.disk.fs boatPlace == some (.file "hi".toList)) = true := by decide +kernel
  rcases (Option.any_eq_true _ _).1 hrun with ⟨s, hs, hfile⟩
  have hfile : s.state.disk.fs boatPlace = some (.file "hi".toList) := by simpa using hfile
  rcases reachable_unmixed (c := plainCodec) (d := .dashboards)
    (Machine.Reachable.run (.init ⟨rfl, bareRounds_bare .dashboards⟩) hs) with ⟨batch, hbatch, hfiles⟩
  refine ⟨s, hs, hfile, batch, hbatch, (hfiles boatPlace _ ?_ hfile).resolve_left boatPlace_not_partial⟩
  rw [place_grafanaRoot]
  exact List.prefix_append _ _

/-- The provisioning files cannot be listed, and the round ends. -/
def provisioningFails : List SectionAction :=
  [.settles (.rejects "ECONNREFUSED"), .settles (.clock 1)]

/-- What a program has returned. -/
def returned {α : Type} : Option (Program (Op (List Char)) Res α) → Option α
  | some (.pure a) => some a
  | _ => none

theorem returned_eq_some {α : Type} {m : Option (Program (Op (List Char)) Res α)} {a : α}
    (h : returned m = some a) : m = some (.pure a) := by
  unfold returned at h
  split at h
  · cases h
    rfl
  · cases h

theorem ended_directory_dashboard :
    ∃ s results row raws done, (sectionRounds plainCodec ['/'] "/signalk".toList).machine.run bareRounds
        (dashboardComes ++ .settles .resolves :: provisioningFails) = some s ∧
      s.program = some (.pure (.ok results)) ∧ rowsIn "dashboards".toList results = [row] ∧
      Tells ['/'] (grafanaStaging "/signalk".toList) .dashboards row s.state raws done := by
  have hrun : ((sectionRounds plainCodec ['/'] "/signalk".toList).machine.run bareRounds
      (dashboardComes ++ .settles .resolves :: provisioningFails)).any (fun s =>
        (returned s.program : Option (Except String (List ExportResult))).any fun r =>
          r.toOption.any fun results => (rowsIn "dashboards".toList results).length == 1) = true := by
    decide +kernel
  rcases (Option.any_eq_true _ _).1 hrun with ⟨s, hs, hended⟩
  rcases (Option.any_eq_true _ _).1 hended with ⟨r, hreturned, hsome⟩
  rcases (Option.any_eq_true _ _).1 hsome with ⟨results, hok, hone⟩
  cases r with
  | error _ =>
      cases hok
  | ok results' =>
      cases hok
      have hend := returned_eq_some hreturned
      rcases ended_directory (c := plainCodec)
        (Machine.Reachable.run (.init ⟨rfl, bareRounds_noLinks⟩) hs) hend .dashboards with
          ⟨hnone, _⟩ | ⟨row, raws, done, hrow, htells⟩
      · rw [show rowsIn "dashboards".toList results = [] from hnone] at hone
        cases hone
      · exact ⟨s, results, row, raws, done, hs, hend, hrow, htells⟩

end Export
end SignalKBackup
