import SignalKBackup.Export.Places
import SignalKBackup.Lib.Machine

/-!
# Confined — no answer leads an exporter out of its staging directory

* `confined` is the protocol: every path string of a call leads to the staging directory or below
  it, and a file or a database is fetched only under a name that the exporter's check accepts.
* One lemma for each function that makes calls, up to `exportAll_allowed` of each exporter; the
  answers are any JSON.
* `calls` is the machine of one program on a disk; what lies outside the staging directory stays as
  it was in all its runs.
-/

namespace SignalKBackup
namespace Export

open Lib
open Posix
open FileTree
open Protocol (Allowed)

variable {β : Type} {cwd : List Char} {root : List Seg}

/-! ## The protocol -/

/-- The path strings of a call. -/
def Op.paths : Op β → List (List Char)
  | .existsSync path => [path]
  | .readFile path => [path]
  | .mkdir path => [path]
  | .rm path => [path]
  | .unlink path => [path]
  | .rename src dst => [src, dst]
  | .write path _ => [path]
  | _ => []

/-- What is asked for passes the name check of the exporter that asks. -/
def Request.accepted : Request → Bool
  | .shard table _ _ => SAFE_TABLE_NAME table
  | .dashboard name => SAFE_FILENAME name && name != dot && name != dotdot
  | .provisioningFile relPath =>
      let segs := (segments relPath).filter fun s => s != []
      segs != [] && segs.all fun s => s != dotdot && s != dot && SAFE_FILENAME s
  | .database id => SignalKDatabaseExporter.SAFE_ID id && id != dot && id != dotdot
  | _ => true

def Op.accepted : Op β → Bool
  | .fetch request => request.accepted
  | _ => true

/-- The calls stay at or below a place, and ask for checked names only. -/
def confined (cwd : List Char) (root : List Seg) : Protocol (Op β) Res Unit where
  allowed _ op := (∀ path ∈ op.paths, root <+: place cwd path) ∧ op.accepted = true
  after _ _ _ := ()

/-- A path string leads below a place. -/
def Below (cwd : List Char) (root : List Seg) (path : List Char) : Prop :=
  root <+: place cwd path ∧ place cwd path ≠ root

theorem Below.of_append {path : List Char} (names : List Seg) (hne : names ≠ [])
    (h : place cwd path = root ++ names) : Below cwd root path := by
  refine ⟨⟨names, h.symm⟩, ?_⟩
  rw [h]
  simpa using hne

theorem Below.suffix {path : List Char} (h : Below cwd root path) {w : Seg} (hw : '/' ∉ w)
    (hlong : 3 ≤ w.length) : root <+: place cwd (path ++ w) :=
  prefix_place_suffix hw hlong h.1 h.2

theorem Below.partialPath {path : List Char} (h : Below cwd root path) :
    root <+: place cwd (path ++ PARTIAL) :=
  h.suffix (by decide) (by decide)

/-! ## Names -/

theorem name_of_safe {s : List Char} (hsafe : SAFE_FILENAME s = true) (hdot : s ≠ dot)
    (hup : s ≠ dotdot) : Name s := by
  simp only [SAFE_FILENAME, Bool.and_eq_true, bne_iff_ne, List.all_eq_true] at hsafe
  exact ⟨hsafe.1, hdot, hup, fun hmem => absurd (hsafe.2 '/' hmem) (by decide)⟩

theorem name_of_safeTable {table : List Char} (h : SAFE_TABLE_NAME table = true) : Name table := by
  have hslash := QuestDBExporter.noSlash_of_safe h
  refine ⟨?_, ?_, ?_, hslash⟩
  · rintro rfl
    cases h
  · rintro rfl
    exact absurd h (by decide)
  · rintro rfl
    exact absurd h (by decide)

theorem intText_letters (n : ℤ) : ∀ c ∈ intText n, c = '-' ∨ c.isDigit = true := by
  intro c hc
  cases n with
  | ofNat n =>
      exact Or.inr (Nat.isDigit_of_mem_toDigits (by decide) (by decide) hc)
  | negSucc n =>
      rcases List.mem_cons.1 hc with rfl | hdigit
      · exact Or.inl rfl
      · exact Or.inr (Nat.isDigit_of_mem_toDigits (by decide) (by decide) hdigit)

theorem formatIsoWeek_noSlash (week : IsoWeek) : '/' ∉ formatIsoWeek week := by
  have htext : ∀ n, '/' ∉ intText n := by
    intro n hmem
    rcases intText_letters n _ hmem with hc | hc
    · exact absurd hc (by decide)
    · exact absurd hc (by decide)
  simp [formatIsoWeek, padStart, htext]

theorem name_shardFile {table : List Char} (htable : '/' ∉ table) (week : IsoWeek) :
    Name (shardFile table week) := by
  have hfront : '/' ∉ table ++ '_' :: formatIsoWeek week := by
    simp [htable, formatIsoWeek_noSlash week]
  have hname := name_suffix hfront (w := PARQUET) (by decide) (by decide)
  simpa [shardFile] using hname

/-! ## Calls -/

theorem quiet_confined {op : Op β} (hpaths : op.paths = []) (haccepted : op.accepted = true) (s : Unit) :
    (confined cwd root).allowed s op := by
  refine ⟨fun path hmem => ?_, haccepted⟩
  rw [hpaths] at hmem
  cases hmem

theorem path_confined {op : Op β} {path : List Char} (hpaths : op.paths = [path])
    (haccepted : op.accepted = true) (h : root <+: place cwd path) (s : Unit) :
    (confined cwd root).allowed s op := by
  refine ⟨fun path' hmem => ?_, haccepted⟩
  rw [hpaths, List.mem_singleton] at hmem
  exact hmem ▸ h

section Calls

variable {path : List Char} (h : root <+: place cwd path)

theorem now_confined : (confined cwd root).Allowed (now : Async β ℤ).run :=
  fun s => ⟨quiet_confined rfl rfl s, fun _ => trivial⟩

theorem text_confined : (confined cwd root).Allowed (text : Async β (List Char)).run :=
  .perform (quiet_confined rfl rfl)

theorem json_confined : (confined cwd root).Allowed (json : Async β Json).run :=
  .perform (quiet_confined rfl rfl)

theorem fetch_confined {request : Request} (haccepted : request.accepted = true) :
    (confined cwd root).Allowed (fetch request : Async β (Response β)).run :=
  .perform (quiet_confined rfl haccepted)

include h

theorem existsSync_confined : (confined cwd root).Allowed (existsSync path : Async β Bool).run :=
  fun s => ⟨path_confined rfl rfl h s, fun _ => trivial⟩

theorem readFile_confined : (confined cwd root).Allowed (readFile path : Async β β).run :=
  .perform (path_confined rfl rfl h)

theorem mkdir_confined : (confined cwd root).Allowed (mkdir path : Async β Unit).run :=
  .perform (path_confined rfl rfl h)

theorem rm_confined : (confined cwd root).Allowed (rm path : Async β Unit).run :=
  .perform (path_confined rfl rfl h)

theorem unlinkQuietly_confined :
    (confined cwd root).Allowed (unlinkQuietly path : Async β Unit).run :=
  .catches (.perform (path_confined rfl rfl h)) fun _ => .returns ()

theorem write_confined (body : β) : (confined cwd root).Allowed (write path body : Async β Unit).run :=
  .perform (path_confined rfl rfl h)

theorem rename_confined {dst : List Char} (hdst : root <+: place cwd dst) :
    (confined cwd root).Allowed (rename path dst : Async β Unit).run := by
  refine .perform fun _ => ⟨fun p hp => ?_, rfl⟩
  rcases List.mem_cons.1 hp with rfl | hp
  · exact h
  · exact List.mem_singleton.1 hp ▸ hdst

end Calls

theorem arrayField_confined (body : Json) (name message : String) :
    (confined cwd root).Allowed (arrayField body name message : Async β (List Json)).run := by
  unfold arrayField
  split
  · exact .returns _
  · exact .throws _

/-! ## Writers -/

/-- The clean-up of a writer. -/
theorem cleanUp_confined {α : Type} {path : List Char} (h : root <+: place cwd path) (err : String) :
    (confined cwd root).Allowed (do unlinkQuietly path; throw err : Async β α).run :=
  .andThen (unlinkQuietly_confined h) fun _ => .throws err

theorem atomicWrite_confined (c : Codec β) (body : β) {finalPath : List Char}
    (h : Below cwd root finalPath) : (confined cwd root).Allowed (atomicWrite c body finalPath).run := by
  refine .catches ?_ fun err => cleanUp_confined h.partialPath err
  -- written beside the final path, then renamed over it
  refine .andThen (write_confined h.partialPath body) fun _ => ?_
  exact .andThen (rename_confined h.partialPath h.1) fun _ => .returns _

/-! ## QuestDB -/

namespace QuestDBExporter

variable {stagingDir table : List Char}

theorem below_tableDir (htable : Name table) {s : Seg} (hs : Name s) :
    Below cwd (place cwd stagingDir) (join [join [stagingDir, table], s]) := by
  refine .of_append [table, s] (by simp) ?_
  rw [place_join_name _ hs, place_join_name _ htable, List.append_assoc]
  rfl

theorem exportWeekToShard_confined (c : Codec β) (htable : SAFE_TABLE_NAME table = true) (week : IsoWeek)
    {tableDir filename : List Char} (h : Below cwd root (join [tableDir, filename])) :
    (confined cwd root).Allowed (exportWeekToShard c table week tableDir filename).run := by
  refine .andThen (fetch_confined htable) fun res => ?_
  split
  -- each of the two steps has a clean-up of its own
  · refine .andThen (.catches (write_confined h.partialPath _) (cleanUp_confined h.partialPath)) fun _ => ?_
    refine .andThen (.catches ?_ (cleanUp_confined h.partialPath)) fun _ => .returns _
    exact rename_confined h.partialPath h.1
  · exact .andThen (.catches text_confined fun _ => .returns _) fun _ => .throws _

theorem readManifest_confined (c : Codec β) {tableDir : List Char}
    (h : Below cwd root (join [tableDir, "MANIFEST.json".toList])) :
    (confined cwd root).Allowed (ManifestFile.readManifest c tableDir).run :=
  .catches (.andThen (readFile_confined h.1) fun _ => .returns _) fun _ => .returns _

theorem writeManifest_confined (c : Codec β) {tableDir : List Char}
    (h : Below cwd root (join [tableDir, "MANIFEST.json".toList])) (manifest : Manifest) :
    (confined cwd root).Allowed (ManifestFile.writeManifest c tableDir manifest).run :=
  .andThen (write_confined h.partialPath _) fun _ => rename_confined h.partialPath h.1

theorem listTables_confined :
    (confined cwd root).Allowed (listTables : Async β (List (List Char))).run := by
  refine .andThen (fetch_confined rfl) fun res => ?_
  split
  · exact .andThen text_confined fun _ => .throws _
  · refine .andThen json_confined fun body => ?_
    exact .andThen (arrayField_confined _ _ _) fun _ => .returns _

theorem migrateLegacyFlatFile_confined (htable : '/' ∉ table) :
    (confined cwd (place cwd stagingDir)).Allowed
      (migrateLegacyFlatFile stagingDir table : Async β Unit).run := by
  have hname : Name (table ++ PARQUET) := name_suffix htable (by decide) (by decide)
  have hflat : Below cwd (place cwd stagingDir) (join [stagingDir, table ++ PARQUET]) :=
    .of_append _ (by simp) (place_join_name stagingDir hname)
  have hlegacy := hflat.suffix (w := LEGACY) (by decide) (by decide)
  refine .andThen (existsSync_confined hflat.1) fun there => ?_
  split
  · refine .andThen (existsSync_confined hlegacy) fun aside => ?_
    split
    -- a flat file is moved aside unless there is one already
    · exact .catches (rename_confined hflat.1 hlegacy) fun _ => .returns _
    · exact .returns _
  · exact .returns _

theorem exportWeek_confined (c : Codec β) (htable : SAFE_TABLE_NAME table = true)
    (existing : Option Manifest) (nowIso : ℤ) (t : Tally) (week : IsoWeek) :
    (confined cwd (place cwd stagingDir)).Allowed
      (exportWeek c table (join [stagingDir, table]) existing nowIso t week).run := by
  have hname := name_of_safeTable htable
  have hfile : Below cwd (place cwd stagingDir) (join [join [stagingDir, table], shardFile table week]) :=
    below_tableDir hname (name_shardFile hname.noSlash week)
  refine .andThen (existsSync_confined hfile.1) fun onDisk => ?_
  split
  · exact .returns _
  · exact .andThen (exportWeekToShard_confined c htable week hfile) fun _ => .returns _

theorem exportTable_confined (c : Codec β) (htable : SAFE_TABLE_NAME table = true) :
    (confined cwd (place cwd stagingDir)).Allowed (exportTable c table stagingDir).run := by
  have hname := name_of_safeTable htable
  have hmanifest : Name "MANIFEST.json".toList := ⟨by decide, by decide, by decide, by decide⟩
  have hdir : place cwd (join [stagingDir, table]) = place cwd stagingDir ++ [table] :=
    place_join_name stagingDir hname
  refine .andThen (mkdir_confined ⟨_, hdir.symm⟩) fun _ => ?_
  refine .andThen (migrateLegacyFlatFile_confined hname.noSlash) fun _ => ?_
  refine .andThen (readManifest_confined c (below_tableDir hname hmanifest)) fun existing => ?_
  refine .andThen now_confined fun nowIso => ?_
  -- one round for each week, the table being fixed
  refine .andThen (.foldlM (fun t week _ => exportWeek_confined c htable _ _ t week) _) fun t => ?_
  exact .andThen (writeManifest_confined c (below_tableDir hname hmanifest) _) fun _ => .returns _

theorem exportAll_confined (c : Codec β) (stagingDir : List Char) :
    (confined cwd (place cwd stagingDir)).Allowed (exportAll c stagingDir).run := by
  refine .andThen now_confined fun startedAt => ?_
  refine .andThen (mkdir_confined (List.prefix_refl _)) fun _ => ?_
  refine .andThen listTables_confined fun tables => ?_
  refine .andThen (.foldlM (fun exports table _ => ?_) _) fun exports => ?_
  · split
    case isTrue hsafe =>
        -- only here the name goes into path strings
        refine .catches (.andThen (exportTable_confined c hsafe) fun _ => ?_) ?_
        · exact .returns _
        · exact fun _ => .returns _
    case isFalse =>
        exact .returns _
  · exact .andThen now_confined fun _ => .returns _

end QuestDBExporter

/-! ## Grafana -/

namespace GrafanaExporter

variable {stagingDir : List Char}

theorem parseDashboardEntry_accepted {raw : Json} {entry : DashboardEntry}
    (h : parseDashboardEntry raw = some entry) :
    (Request.dashboard entry.name).accepted = true ∧ Name entry.name := by
  unfold parseDashboardEntry at h
  split at h
  case h_1 =>
      dsimp only at h
      split at h
      case isTrue hsafe =>
          cases h
          simp only [Bool.and_eq_true, bne_iff_ne] at hsafe
          exact ⟨by simp [Request.accepted, hsafe], name_of_safe hsafe.1.1 hsafe.1.2 hsafe.2⟩
      case isFalse =>
          cases h
  case h_2 =>
      cases h

/-- The segments of a relative path that is let through are names, and there is one. -/
theorem parseProvisioningEntry_accepted {raw : Json} {entry : ProvisioningEntry}
    (h : parseProvisioningEntry raw = some entry) :
    (Request.provisioningFile entry.relPath).accepted = true := by
  unfold parseProvisioningEntry at h
  split at h
  case h_1 =>
      dsimp only at h
      split at h
      case isTrue hsafe =>
          cases h
          simp only [Bool.and_eq_true] at hsafe ⊢
          simp only [Request.accepted, Bool.and_eq_true]
          exact ⟨hsafe.1.2, hsafe.2⟩
      case isFalse =>
          cases h
  case h_2 =>
      cases h

/-- Where an accepted relative path leads: to names below the directory, without going up. -/
theorem names_of_accepted {relPath : List Char}
    (h : (Request.provisioningFile relPath).accepted = true) :
    dotdot ∉ segments relPath ∧ namesIn relPath ≠ [] ∧ ∀ s ∈ namesIn relPath, Name s := by
  simp only [Request.accepted, Bool.and_eq_true, bne_iff_ne, List.all_eq_true] at h
  rcases h with ⟨hne, hall⟩
  -- what is not empty has passed the check
  have hdot : ∀ s ∈ segments relPath, s ≠ [] → Name s := by
    intro s hs hfilled
    rcases hall s (List.mem_filter.2 ⟨hs, by simpa using hfilled⟩) with ⟨⟨hup, hdot⟩, hsafe⟩
    exact name_of_safe hsafe hdot hup
  -- so that nothing is left out as a dot
  have hnames : namesIn relPath = (segments relPath).filter fun s => s != [] := by
    refine List.filter_congr fun s hs => ?_
    by_cases hfilled : s = []
    · simp [hfilled]
    · simp [hfilled, (hdot s hs hfilled).ne_dot]
  refine ⟨fun hup => (hdot dotdot hup (by decide)).ne_dotdot rfl, ?_, ?_⟩
  · rw [hnames]
    exact hne
  · intro s hs
    rw [hnames] at hs
    rcases List.mem_filter.1 hs with ⟨hmem, hfilled⟩
    exact hdot s hmem (by simpa using hfilled)

theorem place_dashboards (cwd stagingDir : List Char) :
    place cwd (join [stagingDir, "dashboards".toList]) = place cwd stagingDir ++ ["dashboards".toList] :=
  place_join_name stagingDir ⟨by decide, by decide, by decide, by decide⟩

theorem place_provisioning (cwd stagingDir : List Char) :
    place cwd (join [stagingDir, "provisioning".toList]) =
      place cwd stagingDir ++ ["provisioning".toList] :=
  place_join_name stagingDir ⟨by decide, by decide, by decide, by decide⟩

theorem exportDb_confined (c : Codec β) :
    (confined cwd (place cwd stagingDir)).Allowed (exportDb c stagingDir).run := by
  have hfile : Below cwd (place cwd stagingDir) (join [stagingDir, "grafana.db".toList]) :=
    .of_append ["grafana.db".toList] (by simp)
      (place_join_name stagingDir ⟨by decide, by decide, by decide, by decide⟩)
  have hdrop : (confined cwd (place cwd stagingDir)).Allowed
      (dropPriorFile (join [stagingDir, "grafana.db".toList]) : Async β Unit).run := by
    refine .andThen (existsSync_confined hfile.1) fun there => ?_
    split
    · exact unlinkQuietly_confined hfile.1
    · exact .returns _
  -- the prior file goes before the request
  refine .andThen hdrop fun _ => ?_
  refine .andThen (fetch_confined rfl) fun res => ?_
  split
  · exact .andThen text_confined fun _ => .throws _
  · split
    · exact .throws _
    · exact atomicWrite_confined c _ hfile

theorem fetchDashboardFile_confined (c : Codec β) {entry : DashboardEntry}
    (haccepted : (Request.dashboard entry.name).accepted = true) (hname : Name entry.name) :
    (confined cwd (place cwd stagingDir)).Allowed
      (fetchDashboardFile c entry (join [stagingDir, "dashboards".toList])).run := by
  refine .andThen (fetch_confined haccepted) fun res => ?_
  split
  · refine atomicWrite_confined c _ (.of_append ["dashboards".toList, entry.name] (by simp) ?_)
    rw [place_join_name _ hname, place_dashboards, List.append_assoc]
    rfl
  · exact .throws _

theorem fetchProvisioningFile_confined (c : Codec β) {entry : ProvisioningEntry}
    (haccepted : (Request.provisioningFile entry.relPath).accepted = true) :
    (confined cwd (place cwd stagingDir)).Allowed
      (fetchProvisioningFile c entry (join [stagingDir, "provisioning".toList])).run := by
  rcases names_of_accepted haccepted with ⟨hup, hne, hnames⟩
  have hfilled : entry.relPath ≠ [] := by
    intro hnil
    rw [hnil] at hne
    exact hne rfl
  have hplace : place cwd (join [join [stagingDir, "provisioning".toList], entry.relPath]) =
      place cwd stagingDir ++ "provisioning".toList :: namesIn entry.relPath := by
    rw [place_join (join_ne_nil _) hfilled hup, place_provisioning, List.append_assoc]
    rfl
  refine .andThen (fetch_confined haccepted) fun res => ?_
  split
  · refine .andThen (mkdir_confined ?_) fun _ => ?_
    · -- the directory of the file is `provisioning` or below it
      rcases List.eq_nil_or_concat (namesIn entry.relPath) with hnil | ⟨init, s, hlast⟩
      · exact absurd hnil hne
      · rw [List.concat_eq_append] at hlast
        have hbase := basename_join (join_ne_nil [stagingDir, "provisioning".toList]) hfilled hup hlast
        have hs : Name s := hnames s (by simp [hlast])
        rw [place_dirname (hbase.symm ▸ hs), hplace, hlast]
        refine ⟨"provisioning".toList :: init, ?_⟩
        rw [← List.cons_append, ← List.append_assoc, List.dropLast_concat]
    · exact atomicWrite_confined c _ (.of_append _ (by simp) hplace)
  · exact .throws _

theorem resetStagingDir_confined {root : List Seg} {dir : List Char} (h : root <+: place cwd dir) :
    (confined cwd root).Allowed (resetStagingDir dir : Async β Unit).run :=
  .andThen (rm_confined h) fun _ => mkdir_confined h

theorem exportEntries_confined {root : List Seg} {ε : Type} {parse : Json → Option ε}
    {fetchFile : ε → Async β ℕ}
    (hfetch : ∀ raw entry, parse raw = some entry →
      (confined cwd root).Allowed (fetchFile entry).run) (raws : List Json) :
    (confined cwd root).Allowed (exportEntries parse fetchFile raws).run := by
  refine .foldlM (fun t raw _ => ?_) _
  split
  case h_1 =>
      exact .returns _
  case h_2 entry hparse =>
      exact .catches (.andThen (hfetch raw entry hparse) fun _ => .returns _) fun _ => .returns _

theorem exportDashboards_confined (c : Codec β) :
    (confined cwd (place cwd stagingDir)).Allowed (exportDashboards c stagingDir).run := by
  refine .andThen (fetch_confined rfl) fun res => ?_
  split
  · exact .throws _
  · refine .andThen json_confined fun body => ?_
    refine .andThen (arrayField_confined _ _ _) fun dashboards => ?_
    refine .andThen (resetStagingDir_confined ⟨_, (place_dashboards cwd stagingDir).symm⟩) fun _ => ?_
    refine exportEntries_confined (fun raw entry hparse => ?_) _
    rcases parseDashboardEntry_accepted hparse with ⟨haccepted, hname⟩
    exact fetchDashboardFile_confined c haccepted hname

theorem exportProvisioning_confined (c : Codec β) :
    (confined cwd (place cwd stagingDir)).Allowed (exportProvisioning c stagingDir).run := by
  refine .andThen (fetch_confined rfl) fun res => ?_
  split
  · exact .throws _
  · refine .andThen json_confined fun body => ?_
    refine .andThen (arrayField_confined _ _ _) fun files => ?_
    refine .andThen (resetStagingDir_confined ⟨_, (place_provisioning cwd stagingDir).symm⟩) fun _ => ?_
    exact exportEntries_confined
      (fun raw entry hparse => fetchProvisioningFile_confined c (parseProvisioningEntry_accepted hparse)) _

theorem sectionExport_confined {root : List Seg} (table tableDir : List Char) {counts : Async β Counts}
    (hcounts : (confined cwd root).Allowed counts.run) :
    (confined cwd root).Allowed (sectionExport table tableDir counts).run :=
  .catches (.andThen hcounts fun _ => .returns _) fun _ => .returns _

theorem exportAll_confined (c : Codec β) (stagingDir : List Char) :
    (confined cwd (place cwd stagingDir)).Allowed (exportAll c stagingDir).run := by
  have hdb : (confined cwd (place cwd stagingDir)).Allowed (exportDb c stagingDir).run :=
    exportDb_confined c
  refine .andThen now_confined fun startedAt => ?_
  refine .andThen (mkdir_confined (List.prefix_refl _)) fun _ => ?_
  refine .andThen (sectionExport_confined _ _ (.andThen hdb fun _ => .returns _)) fun db => ?_
  refine .andThen (sectionExport_confined _ _ (exportDashboards_confined c)) fun dashboards => ?_
  refine .andThen (sectionExport_confined _ _ (exportProvisioning_confined c)) fun provisioning => ?_
  exact .andThen now_confined fun _ => .returns _

end GrafanaExporter

/-! ## Signal K databases -/

namespace SignalKDatabaseExporter

variable {stagingDir : List Char}

theorem fetchManifest_confined :
    (confined cwd root).Allowed (fetchManifest : Async β (List DatabaseEntry)).run := by
  refine .andThen (fetch_confined rfl) fun res => ?_
  split
  · exact .throws _
  · refine .andThen json_confined fun body => ?_
    exact .andThen (arrayField_confined _ _ _) fun _ => .returns _

/-- An id that the loop does not skip. -/
theorem name_of_id {id : List Char} (h : ¬(!SAFE_ID id || id == dot || id == dotdot) = true) :
    (Request.database id).accepted = true ∧ Name id := by
  simp only [Bool.or_eq_true, Bool.not_eq_true', beq_iff_eq, not_or, Bool.not_eq_false] at h
  exact ⟨by simp [Request.accepted, h], name_of_safe h.1.1 h.1.2 h.2⟩

theorem place_database (cwd stagingDir : List Char) {id : List Char} (hid : Name id) :
    place cwd (join [join [stagingDir, id], "db.sqlite".toList]) =
      place cwd stagingDir ++ [id, "db.sqlite".toList] := by
  have hfile : Name "db.sqlite".toList := ⟨by decide, by decide, by decide, by decide⟩
  rw [place_join_name _ hfile, place_join_name _ hid, List.append_assoc]
  rfl

theorem exportOne_confined (c : Codec β) {entry : DatabaseEntry}
    (haccepted : (Request.database entry.id).accepted = true) (hid : Name entry.id) :
    (confined cwd (place cwd stagingDir)).Allowed (exportOne c entry stagingDir).run := by
  refine .andThen (mkdir_confined ⟨_, (place_join_name stagingDir hid).symm⟩) fun _ => ?_
  refine .andThen (fetch_confined haccepted) fun res => ?_
  split
  · exact .andThen text_confined fun _ => .throws _
  · split
    · exact .throws _
    · exact atomicWrite_confined c _ (.of_append _ (by simp) (place_database cwd stagingDir hid))

theorem exportAll_confined (c : Codec β) (stagingDir : List Char) :
    (confined cwd (place cwd stagingDir)).Allowed (exportAll c stagingDir).run := by
  have hroot : place cwd stagingDir <+: place cwd stagingDir := List.prefix_refl _
  refine .andThen now_confined fun startedAt => ?_
  refine .andThen (mkdir_confined hroot) fun _ => ?_
  refine .andThen (rm_confined hroot) fun _ => ?_
  refine .andThen (mkdir_confined hroot) fun _ => ?_
  refine .andThen fetchManifest_confined fun manifest => ?_
  refine .andThen (.foldlM (fun exports entry _ => ?_) _) fun exports => ?_
  · split
    case isTrue =>
        exact .returns _
    case isFalse hsafe =>
        -- an id that is not skipped is a name
        rcases name_of_id hsafe with ⟨haccepted, hid⟩
        exact .catches (.andThen (exportOne_confined c haccepted hid) fun _ => .returns _)
          fun _ => .returns _
  · exact .andThen now_confined fun _ => .returns _

end SignalKDatabaseExporter

theorem exporter_confined (c : Codec β) {enabled : Enabled} (stagingDir : List Char)
    {exporter : DatabaseExporter β} (h : exporter ∈ exporters c enabled) :
    (confined cwd (place cwd stagingDir)).Allowed (exporter.exportAll stagingDir).run := by
  -- one exporter for each setting that is on
  simp only [exporters, List.mem_append, List.mem_ite_nil_right, List.mem_singleton] at h
  rcases h with (⟨_, rfl⟩ | ⟨_, rfl⟩) | ⟨_, rfl⟩
  · exact QuestDBExporter.exportAll_confined c stagingDir
  · exact GrafanaExporter.exportAll_confined c stagingDir
  · exact SignalKDatabaseExporter.exportAll_confined c stagingDir

/-! ## What a call changes -/

/-- What a step of a call does to the tree, at or below the places of its path strings. -/
inductive Effect (cwd : List Char) (fs : FileTree Seg β) : Op β → FileTree Seg β → Prop where
  | same {op : Op β} : Effect cwd fs op fs
  | mkdirs {path : List Char} {q : List Seg} :
      q <+: place cwd path → Effect cwd fs (.mkdir path) (fs.mkdirs q)
  | rm {path : List Char} {q : List Seg} :
      place cwd path <+: q → Effect cwd fs (.rm path) (fs.remove q)
  | unlinks {path : List Char} : Effect cwd fs (.unlink path) (fs.remove (place cwd path))
  | renames {src dst : List Char} {fs' : FileTree Seg β} :
      fs.rename (place cwd src) (place cwd dst) = some fs' → Effect cwd fs (.rename src dst) fs'
  | puts {path : List Char} {body : β} {p : List Seg} (bytes : β) :
      Restore.opens fs (place cwd path) = some p →
        Effect cwd fs (.write path body) (fs.put p (.file bytes))

section Effects

variable {d d' : Disk β} {op : Op β} {o : Outcome β} {r : Option (Res op)}

theorem Effect.of_settle (h : settle cwd d op o = some (d', r)) : Effect cwd d.fs op d'.fs := by
  cases op with
  | mkdir path =>
      cases o with
      | made q =>
          simp only [settle] at h
          split at h
          case isTrue hmade =>
              cases h
              exact .mkdirs hmade.1
          case isFalse =>
              cases h
      | resolves =>
          simp only [settle] at h
          split at h
          · cases h
            exact .mkdirs (List.prefix_refl _)
          · cases h
      | rejects message =>
          cases h
          exact .same
      | _ =>
          cases h
  | rm path =>
      cases o with
      | removed q =>
          simp only [settle] at h
          split at h
          case isTrue hbelow =>
              cases h
              exact .rm hbelow
          case isFalse =>
              cases h
      | resolves =>
          cases h
          exact .rm (List.prefix_refl _)
      | rejects message =>
          cases h
          exact .same
      | _ =>
          cases h
  | unlink path =>
      cases o with
      | resolves =>
          simp only [settle] at h
          split at h
          · cases h
            exact .unlinks
          · cases h
      | rejects message =>
          cases h
          exact .same
      | _ =>
          cases h
  | rename src dst =>
      cases o with
      | resolves =>
          rcases Option.map_eq_some_iff.1 h with ⟨fs, hfs, heq⟩
          cases heq
          exact .renames hfs
      | rejects message =>
          cases h
          exact .same
      | _ =>
          cases h
  | write path body =>
      cases o with
      | holds bytes =>
          rcases Option.map_eq_some_iff.1 h with ⟨q, hq, heq⟩
          cases heq
          exact .puts bytes hq
      | resolves =>
          simp only [settle, Disk.write, Option.map_map] at h
          rcases Option.map_eq_some_iff.1 h with ⟨q, hq, heq⟩
          cases heq
          exact .puts body hq
      | rejects message =>
          cases h
          exact .same
      | _ =>
          cases h
  | _ =>
      rw [settle_reads rfl h]
      exact .same

variable {fs fs' : FileTree Seg β}

theorem Effect.noLinks (h : Effect cwd fs op fs') (hlinks : NoLinks fs []) : NoLinks fs' [] := by
  cases h with
  | same =>
      exact hlinks
  | mkdirs _ =>
      exact hlinks.mkdirs _
  | rm _ =>
      exact hlinks.remove _
  | unlinks =>
      exact hlinks.remove _
  | renames hrename =>
      -- a file takes the place of its target, a directory moves as a whole
      rcases rename_eq_some hrename with ⟨_, ⟨bytes, _, rfl⟩ | ⟨_, rfl⟩⟩
      · exact (hlinks.remove _).put (by simp)
      · exact hlinks.move _ _
  | puts bytes _ =>
      exact hlinks.put (by simp)

/-- Every directory on the way to a place is there. -/
def Reaches (fs : FileTree Seg β) (root : List Seg) : Prop :=
  ∀ p, p <+: root → p ≠ root → fs p = some .dir

/-- A confined call leaves alone what is not at the root or below it. -/
theorem Effect.outside (h : Effect cwd fs op fs') (hlinks : NoLinks fs []) (hreaches : Reaches fs root)
    (hop : (confined cwd root).allowed () op) {p : List Seg} (hp : ¬root <+: p) : fs' p = fs p := by
  have hbelow : ∀ {q : List Seg}, root <+: q → ¬q <+: p := fun hq hqp => hp (hq.trans hqp)
  have hput : ∀ {q : List Seg}, root <+: q → p ≠ q := by
    rintro q hq rfl
    exact hp hq
  cases h with
  | same =>
      rfl
  | @mkdirs path q hq =>
      unfold FileTree.mkdirs
      split
      case isTrue hmade =>
          -- a directory on the way to the root is there already
          have hroot : root <+: place cwd path := hop.1 path (List.mem_singleton_self path)
          rcases List.prefix_or_prefix_of_prefix (hmade.1.trans hq) hroot with hup | hdown
          · have hdir := hreaches p hup fun heq => hp (heq ▸ List.prefix_refl _)
            rw [hmade.2] at hdir
            cases hdir
          · exact absurd hdown hp
      case isFalse =>
          rfl
  | @rm path q hq =>
      have hroot : root <+: place cwd path := hop.1 path (List.mem_singleton_self path)
      rw [FileTree.remove, if_neg (hbelow (hroot.trans hq))]
  | @unlinks path =>
      have hroot : root <+: place cwd path := hop.1 path (List.mem_singleton_self path)
      rw [FileTree.remove, if_neg (hbelow hroot)]
  | @renames src dst _ hrename =>
      have hsrc : root <+: place cwd src := hop.1 src (by simp [Op.paths])
      have hdst : root <+: place cwd dst := hop.1 dst (by simp [Op.paths])
      rcases rename_eq_some hrename with ⟨_, ⟨bytes, _, rfl⟩ | ⟨_, rfl⟩⟩
      · rw [FileTree.put, if_neg (hput hdst), FileTree.remove, if_neg (hbelow hsrc)]
      · rw [FileTree.move, if_neg (hbelow hdst), if_neg (hbelow hsrc)]
  | @puts path _ q bytes hopens =>
      -- without links a path string leads to its own place
      have hq : q = place cwd path :=
        Option.some.inj ((Restore.follow_of_opens hopens).symm.trans (hlinks.follow 39 List.nil_prefix))
      have hroot : root <+: place cwd path := hop.1 path (List.mem_singleton_self path)
      rw [FileTree.put, if_neg (hput (hq ▸ hroot))]

end Effects

/-! ## One program on a disk -/

structure Running (β α : Type) where
  disk : Disk β
  /-- What is left to do. -/
  program : Program (Op β) Res α

/-- The call that is waited for goes on, or settles. -/
def Running.settles {α : Type} (cwd : List Char) (s : Running β α) (o : Outcome β) :
    Option (Running β α) :=
  match s.program with
  | .pure _ => none
  | .call op k =>
      (settle cwd s.disk op o).map fun (disk, r) => { disk, program := s.program.next k r }

def calls (cwd : List Char) (β α : Type) : Machine (Running β α) (Outcome β) where
  step := Running.settles cwd

theorem settles_eq_some {α : Type} {s s' : Running β α} {o : Outcome β}
    (h : s.settles cwd o = some s') : ∃ op k disk r, s.program = .call op k ∧
      settle cwd s.disk op o = some (disk, r) ∧ s' = { disk, program := s.program.next k r } := by
  unfold Running.settles at h
  split at h
  case h_1 =>
      cases h
  case h_2 op k hprogram =>
      rcases Option.map_eq_some_iff.1 h with ⟨⟨disk, r⟩, hsettle, rfl⟩
      exact ⟨op, k, disk, r, hprogram, hsettle, rfl⟩

/-- The invariant of a confined program. -/
structure StaysInside (cwd : List Char) (root : List Seg) (fs : FileTree Seg β) {α : Type}
    (s : Running β α) : Prop where
  obeys : (confined cwd root).Obeys () s.program
  noLinks : NoLinks s.disk.fs []
  outside : ∀ p, ¬root <+: p → s.disk.fs p = fs p

theorem StaysInside.settles {α : Type} {fs : FileTree Seg β} (hreaches : Reaches fs root)
    {s s' : Running β α} {o : Outcome β} (h : StaysInside cwd root fs s)
    (hstep : s.settles cwd o = some s') : StaysInside cwd root fs s' := by
  rcases settles_eq_some hstep with ⟨op, k, disk, r, hprogram, hsettle, rfl⟩
  have heffect := Effect.of_settle hsettle
  have hobeys := h.obeys
  rw [hprogram] at hobeys ⊢
  -- the way to the root lies outside of it, so that it is as it was
  have hthere : Reaches s.disk.fs root := by
    intro p hp hne
    have hout : ¬root <+: p := fun hroot =>
      hne (hp.eq_of_length (Nat.le_antisymm hp.length_le hroot.length_le))
    rw [h.outside p hout]
    exact hreaches p hp hne
  refine ⟨?_, heffect.noLinks h.noLinks, fun p hp => ?_⟩
  · cases r with
    | none =>
        exact hobeys
    -- the answer is any, and the rest of the program is allowed for each
    | some x =>
        exact hobeys.2 x
  · exact (heffect.outside h.noLinks hthere hobeys.1 hp).trans (h.outside p hp)

/-- The start of a call of `exportAll`. -/
def Begins (d : Disk β) (exporter : DatabaseExporter β) (stagingDir : List Char)
    (s : Running β (Except String ExportResult)) : Prop :=
  s = { disk := d, program := (exporter.exportAll stagingDir).run }

/-- Whatever the source plugins answer: every path string of `exportAll` leads to the staging
directory or below it, only checked names are fetched, and nothing outside the directory changes. -/
theorem exporters_stay_inside (c : Codec β) {enabled : Enabled} {exporter : DatabaseExporter β}
    (h : exporter ∈ exporters c enabled) (cwd stagingDir : List Char) :
    (confined cwd (place cwd stagingDir)).Allowed (exporter.exportAll stagingDir).run ∧
      ∀ d : Disk β, NoLinks d.fs [] → Reaches d.fs (place cwd stagingDir) →
        ∀ s, (calls cwd β _).Reachable (Begins d exporter stagingDir) s →
          ∀ p, ¬place cwd stagingDir <+: p → s.disk.fs p = d.fs p := by
  have hallowed : (confined cwd (place cwd stagingDir)).Allowed (exporter.exportAll stagingDir).run :=
    exporter_confined c stagingDir h
  refine ⟨hallowed, fun d hlinks hreaches s hs => ?_⟩
  have hinside : StaysInside cwd (place cwd stagingDir) d.fs s := by
    refine hs.invariant (fun t ht => ?_) fun t o t' ht _ hstep => ht.settles hreaches hstep
    rw [ht]
    exact ⟨hallowed (), hlinks, fun _ _ => rfl⟩
  exact hinside.outside

/-! ## A table called like a path -/

/-- `/` and `/exports`. -/
def exportsDisk : Disk (List Char) :=
  { fs := fun p => if p = [] ∨ p = ["exports".toList] then some .dir else none, written := [] }

theorem exportsDisk_noLinks : NoLinks exportsDisk.fs [] := by
  intro p _ dest h
  simp only [exportsDisk] at h
  split at h <;> cases h

theorem exportsDisk_reaches : Reaches exportsDisk.fs ["exports".toList, "questdb".toList] := by
  intro p hp hne
  have hcases : p = [] ∨ p = ["exports".toList] := by
    cases p with
    | nil =>
        exact Or.inl rfl
    | cons a p =>
        rcases List.cons_prefix_cons.1 hp with ⟨rfl, hrest⟩
        cases p with
        | nil =>
            exact Or.inr rfl
        | cons b p =>
            rcases List.cons_prefix_cons.1 hrest with ⟨rfl, hnil⟩
            rw [List.prefix_nil.1 hnil] at hne
            exact absurd rfl hne
  simp only [exportsDisk, if_pos hcases]

def plainCodec : Codec (List Char) :=
  { stringify := Manifest.tableName, parse := fun _ => none, length := List.length }

def questdbExporter : DatabaseExporter (List Char) :=
  { pluginId := QuestDBExporter.pluginId, detect := QuestDBExporter.detect
    exportAll := QuestDBExporter.exportAll plainCodec }

/-- The list of tables holds a path. -/
def tablesAnswer : List (Outcome (List Char)) :=
  [.clock 0, .resolves, .responds { status := 200, body := none },
    .parses (.object [("tables", .array [.string "../../etc"])]), .clock 1]

theorem exporters_stay_inside_tables :
    ∃ s, (calls ['/'] (List Char) _).run
        { disk := exportsDisk, program := (questdbExporter.exportAll "/exports/questdb".toList).run }
        tablesAnswer = some s ∧
      s.disk.fs ["exports".toList, "questdb".toList] = some .dir ∧ s.disk.fs ["etc".toList] = none := by
  obtain ⟨s, hs, hdir⟩ : ∃ s, (calls ['/'] (List Char) _).run
      { disk := exportsDisk, program := (questdbExporter.exportAll "/exports/questdb".toList).run }
      tablesAnswer = some s ∧
        s.disk.fs ["exports".toList, "questdb".toList] = some .dir := ⟨_, rfl, rfl⟩
  have hmem : questdbExporter ∈
      exporters plainCodec { questdb := true, grafana := false, signalkDatabase := false } :=
    List.mem_singleton_self _
  have hinside := exporters_stay_inside plainCodec hmem ['/'] "/exports/questdb".toList
  have hsame := hinside.2 exportsDisk exportsDisk_noLinks exportsDisk_reaches s (.run (.init rfl) hs)
  exact ⟨s, hs, hdir, hsame ["etc".toList] (by decide)⟩

end Export
end SignalKBackup
