import SignalKBackup.Export.Disk
import SignalKBackup.Export.Questdb
import SignalKBackup.Lib.Letters

/-!
# Exporters — the three exporters as programs of awaited calls

`runAllExports` and what it calls, await by await and with every way an await can fail.  File contents
are of any type; what is done with them (the text of a manifest, the length of a body) is a `Codec`.
What only goes to the log is left out.

Three functions write files, each to a `.partial` name that it then renames: `exportWeekToShard`,
`writeManifest` and `atomicWrite`.
-/

namespace SignalKBackup
namespace Export

open Lib
open Posix

abbrev Async (β α : Type) := ExceptT String (Program (Op β) Res) α

/-- What is read from and written to file contents. -/
structure Codec (β : Type) where
  /-- `JSON.stringify` of a manifest. -/
  stringify : Manifest → β
  /-- `JSON.parse` of a manifest, with the types of its fields checked. -/
  parse : β → Option Manifest
  length : β → ℕ

structure ExportResult where
  pluginId : List Char
  tables : List TableExport
  totalBytes : ℕ
  durationMs : ℤ
  deriving DecidableEq

structure DatabaseExporter (β : Type) where
  pluginId : List Char
  detect : Async β Bool
  exportAll : List Char → Async β ExportResult

variable {β : Type}

/-! ## Calls -/

def call (op : Op β) : Program (Op β) Res (Res op) :=
  Program.perform op

def now : Async β ℤ := ExceptT.lift (call Op.now)

def existsSync (path : List Char) : Async β Bool := ExceptT.lift (call (.existsSync path))

def readFile (path : List Char) : Async β β := ExceptT.mk (call (.readFile path))

def fetch (request : Request) : Async β (Response β) :=
  ExceptT.mk (call (.fetch request))

def text : Async β (List Char) := ExceptT.mk (call Op.text)

def json : Async β Json := ExceptT.mk (call Op.json)

def mkdir (path : List Char) : Async β Unit := ExceptT.mk (call (.mkdir path))

def rm (path : List Char) : Async β Unit := ExceptT.mk (call (.rm path))

def unlink (path : List Char) : Async β Unit := ExceptT.mk (call (.unlink path))

def rename (src dst : List Char) : Async β Unit := ExceptT.mk (call (.rename src dst))

def write (path : List Char) (body : β) : Async β Unit :=
  ExceptT.mk (call (.write path body))

/-- `unlink(path).catch(() => undefined)` -/
def unlinkQuietly (path : List Char) : Async β Unit :=
  tryCatch (unlink path) fun _ => pure ()

/-! ## Answers -/

/-- `/^[a-zA-Z_][a-zA-Z0-9_]*$/` -/
def SAFE_TABLE_NAME : List Char → Bool
  | [] => false
  | c :: rest => (isLetter c || c == '_') && rest.all fun c => isLetter c || isDigit c || c == '_'

/-- `/^[a-zA-Z0-9._-]+$/` -/
def SAFE_FILENAME (s : List Char) : Bool :=
  s != [] && s.all fun c => isLetter c || isDigit c || c == '.' || c == '_' || c == '-'

/-- The array in a field of an answer. -/
def arrayField (body : Json) (name message : String) : Async β (List Json) :=
  match body.field name with
  | some (.array items) => pure items
  | _ => throw message

def httpError (what : String) (status : ℕ) : String :=
  what ++ "HTTP " ++ toString status

/-- An error with the first 200 characters of the answer. -/
def withText (message : String) (text : List Char) : String :=
  message ++ ": " ++ String.ofList (text.take 200)

/-! ## QuestDB -/

namespace ManifestFile

def readManifest (c : Codec β) (tableDir : List Char) : Async β (Option Manifest) :=
  tryCatch
    (do
      let raw ← readFile (join [tableDir, "MANIFEST.json".toList])
      return Export.readManifest (c.parse raw))
    fun _ => pure none

def writeManifest (c : Codec β) (tableDir : List Char) (manifest : Manifest) : Async β Unit := do
  let finalPath := join [tableDir, "MANIFEST.json".toList]
  let tempPath := finalPath ++ PARTIAL
  write tempPath (c.stringify manifest)
  rename tempPath finalPath

end ManifestFile

namespace QuestDBExporter

def pluginId : List Char := "signalk-questdb".toList

def listTables : Async β (List (List Char)) := do
  let res ← fetch .tables
  if !res.ok then
    let text ← text
    throw (withText (httpError "tables " res.status) text)
  else
    let body ← json
    let tables ← arrayField body "tables" "tables response missing 'tables' array"
    return tables.filterMap fun t =>
      match t with
      | .string s => some s.toList
      | _ => none

def detect : Async β Bool :=
  tryCatch
    (do
      let tables : List (List Char) ← listTables
      return decide (0 < tables.length))
    fun _ => pure false

def exportWeekToShard (c : Codec β) (table : List Char) (week : IsoWeek)
    (tableDir filename : List Char) : Async β ℕ := do
  let finalPath := join [tableDir, filename]
  let tempPath := finalPath ++ PARTIAL
  let res ← fetch (.shard table (weekStartUtc week) (weekEndUtc week))
  match res.ok, res.body with
  | true, some body =>
      tryCatch (write tempPath body) fun err => do
        unlinkQuietly tempPath
        throw err
      tryCatch (rename tempPath finalPath) fun err => do
        unlinkQuietly tempPath
        throw err
      return c.length body
  | _, _ =>
      let text ← tryCatch text fun _ => pure []
      throw (withText (httpError "" res.status ++ " for " ++ String.ofList filename) text)

def migrateLegacyFlatFile (stagingDir table : List Char) : Async β Unit := do
  let flat := join [stagingDir, table ++ PARQUET]
  let legacy := flat ++ LEGACY
  if ← existsSync flat then
    if !(← existsSync legacy) then
      tryCatch (rename flat legacy) fun _ => pure ()

/-- What the loop over the weeks collects. -/
structure Tally where
  newShards : List ShardEntry := []
  shardsWritten : ℕ := 0
  shardsSkipped : ℕ := 0
  bytesWritten : ℕ := 0

/-- One round of the loop of `exportTable`. -/
def exportWeek (c : Codec β) (table tableDir : List Char) (existing : Option Manifest) (nowIso : ℤ)
    (t : Tally) (week : IsoWeek) : Async β Tally := do
  let file := shardFile table week
  let isOpen := compareIsoWeek week (isoWeekOf nowIso) == 0
  let inChurnWindow := decide (0 ≤ compareIsoWeek week (churnCutoffWeek (isoWeekOf nowIso)))
  let onDisk ← existsSync (join [tableDir, file])
  match existingShards existing file, isOpen || inChurnWindow || !onDisk with
  | some known, false =>
      return { t with newShards := t.newShards ++ [known], shardsSkipped := t.shardsSkipped + 1 }
  | _, _ =>
      let bytes ← exportWeekToShard c table week tableDir file
      let entry : ShardEntry :=
        { file, weekStart := weekStartUtc week, bytes, exportedAt := nowIso }
      return {
        newShards := t.newShards ++ [entry]
        shardsWritten := t.shardsWritten + 1
        shardsSkipped := t.shardsSkipped
        bytesWritten := t.bytesWritten + bytes }

def exportTable (c : Codec β) (table stagingDir : List Char) : Async β TableExport := do
  let tableDir := join [stagingDir, table]
  mkdir tableDir
  migrateLegacyFlatFile stagingDir table
  let existing ← ManifestFile.readManifest c tableDir
  let nowIso ← now
  let currentWeek := isoWeekOf nowIso
  let allWeeks := weeksBetween (earliestWeek existing (churnCutoffWeek currentWeek)) currentWeek
  let t ← allWeeks.foldlM (exportWeek c table tableDir existing nowIso) {}
  ManifestFile.writeManifest c tableDir
    { tableName := table
      schemaVersion := MANIFEST_SCHEMA_VERSION
      shards := t.newShards
      openShard := some (shardFile table currentWeek)
      lastExportRun := nowIso }
  return {
    table, tableDir
    shardsWritten := t.shardsWritten
    shardsSkipped := t.shardsSkipped
    bytes := t.bytesWritten }

def exportAll (c : Codec β) (stagingDir : List Char) : Async β ExportResult := do
  let startedAt ← now
  mkdir stagingDir
  let tables ← listTables
  let exports ← tables.foldlM
    (fun exports table =>
      if SAFE_TABLE_NAME table then
        tryCatch
          (do
            let e ← exportTable c table stagingDir
            return exports ++ [e])
          fun _ => pure exports
      else pure exports) []
  let endedAt ← now
  return {
    pluginId
    tables := exports
    totalBytes := (exports.map TableExport.bytes).sum
    durationMs := endedAt - startedAt }

end QuestDBExporter

/-! ## Grafana -/

/-- The same function in both exporters below. -/
def atomicWrite (c : Codec β) (body : β) (finalPath : List Char) : Async β ℕ := do
  let partialPath := finalPath ++ PARTIAL
  tryCatch
    (do
      write partialPath body
      rename partialPath finalPath
      return c.length body)
    fun err => do
      unlinkQuietly partialPath
      throw err

namespace GrafanaExporter

def pluginId : List Char := "signalk-grafana".toList

structure DashboardEntry where
  name : List Char
  sha256 : String
  /-- The number, by its text. -/
  bytes : String

structure ProvisioningEntry extends DashboardEntry where
  relPath : List Char

/-- What the export of a directory counts. -/
structure Counts where
  count : ℕ := 0
  skipped : ℕ := 0
  totalBytes : ℕ := 0

def detect : Async β Bool :=
  tryCatch
    (do
      let res ← fetch .dashboards
      if !res.ok then
        return false
      else
        let body ← json
        match body.field "dashboards" with
        | some (.array _) => return true
        | _ => return false)
    fun _ => pure false

def dropPriorFile (finalPath : List Char) : Async β Unit := do
  if ← existsSync finalPath then
    unlinkQuietly finalPath

def exportDb (c : Codec β) (stagingDir : List Char) : Async β ℕ := do
  let finalPath := join [stagingDir, "grafana.db".toList]
  dropPriorFile finalPath
  let res ← fetch .grafanaDb
  if !res.ok then
    let text ← text
    throw (withText (httpError "db " res.status) text)
  else
    match res.body with
    | none => throw "db response body is empty"
    | some body => atomicWrite c body finalPath

def parseDashboardEntry (raw : Json) : Option DashboardEntry :=
  match raw.field "name", raw.field "sha256", Json.numberText (raw.field "bytes") with
  | some (.string text), some (.string sha256), some bytes =>
      let name := text.toList
      if SAFE_FILENAME name && name != dot && name != dotdot then some { name, sha256, bytes }
      else none
  | _, _, _ => none

def parseProvisioningEntry (raw : Json) : Option ProvisioningEntry :=
  match raw.field "name", raw.field "relPath", raw.field "sha256",
    Json.numberText (raw.field "bytes") with
  | some (.string text), some (.string path), some (.string sha256), some bytes =>
      let name := text.toList
      let relPath := path.toList
      let segs := (segments relPath).filter fun s => s != []
      if SAFE_FILENAME name && segs != [] &&
          segs.all fun s => s != dotdot && s != dot && SAFE_FILENAME s then
        some { name, sha256, bytes, relPath }
      else none
  | _, _, _, _ => none

def fetchDashboardFile (c : Codec β) (entry : DashboardEntry) (dashboardsDir : List Char) :
    Async β ℕ := do
  let res ← fetch (.dashboard entry.name)
  match res.ok, res.body with
  | true, some body => atomicWrite c body (join [dashboardsDir, entry.name])
  | _, _ => throw (httpError "" res.status)

def fetchProvisioningFile (c : Codec β) (entry : ProvisioningEntry) (provisioningDir : List Char) :
    Async β ℕ := do
  let res ← fetch (.provisioningFile entry.relPath)
  match res.ok, res.body with
  | true, some body =>
      let finalPath := join [provisioningDir, entry.relPath]
      mkdir (dirname finalPath)
      atomicWrite c body finalPath
  | _, _ => throw (httpError "" res.status)

def resetStagingDir (root : List Char) : Async β Unit := do
  rm root
  mkdir root

/-- The loop over the entries of an answer: those that are refused or fail are counted. -/
def exportEntries {ε : Type} (parse : Json → Option ε) (fetchFile : ε → Async β ℕ)
    (raws : List Json) : Async β Counts :=
  raws.foldlM
    (fun t raw =>
      match parse raw with
      | none => pure { t with skipped := t.skipped + 1 }
      | some entry =>
          tryCatch
            (do
              let bytes ← fetchFile entry
              return { t with count := t.count + 1, totalBytes := t.totalBytes + bytes })
            fun _ => pure { t with skipped := t.skipped + 1 }) {}

def exportDashboards (c : Codec β) (stagingDir : List Char) : Async β Counts := do
  let res ← fetch .dashboards
  if !res.ok then
    throw (httpError "dashboards manifest " res.status)
  else
    let body ← json
    let dashboards ← arrayField body "dashboards" "dashboards manifest missing 'dashboards' array"
    let dashboardsDir := join [stagingDir, "dashboards".toList]
    resetStagingDir dashboardsDir
    exportEntries parseDashboardEntry (fun entry => fetchDashboardFile c entry dashboardsDir)
      dashboards

def exportProvisioning (c : Codec β) (stagingDir : List Char) : Async β Counts := do
  let res ← fetch .provisioning
  if !res.ok then
    throw (httpError "provisioning manifest " res.status)
  else
    let body ← json
    let files ← arrayField body "files" "provisioning manifest missing 'files' array"
    let provisioningDir := join [stagingDir, "provisioning".toList]
    resetStagingDir provisioningDir
    exportEntries parseProvisioningEntry (fun entry => fetchProvisioningFile c entry provisioningDir)
      files

/-- The row of a section, or none when the section failed. -/
def sectionExport (table tableDir : List Char) (counts : Async β Counts) :
    Async β (List TableExport) :=
  tryCatch
    (do
      let t ← counts
      return [{ table, tableDir, shardsWritten := t.count, shardsSkipped := t.skipped
                bytes := t.totalBytes }])
    fun _ => pure []

def exportAll (c : Codec β) (stagingDir : List Char) : Async β ExportResult := do
  let startedAt ← now
  mkdir stagingDir
  let db ← sectionExport "grafana.db".toList stagingDir do
    let dbBytes ← exportDb c stagingDir
    return { count := 1, totalBytes := dbBytes }
  let dashboards ← sectionExport "dashboards".toList (join [stagingDir, "dashboards".toList])
    (exportDashboards c stagingDir)
  let provisioning ← sectionExport "provisioning".toList (join [stagingDir, "provisioning".toList])
    (exportProvisioning c stagingDir)
  let exports := db ++ dashboards ++ provisioning
  let endedAt ← now
  return {
    pluginId
    tables := exports
    totalBytes := (exports.map TableExport.bytes).sum
    durationMs := endedAt - startedAt }

end GrafanaExporter

/-! ## Signal K databases -/

namespace SignalKDatabaseExporter

def pluginId : List Char := "signalk-database".toList

/-- `/^[A-Za-z0-9._-]+$/` -/
def SAFE_ID (id : List Char) : Bool :=
  SAFE_FILENAME id

structure DatabaseEntry where
  id : List Char
  /-- The number, by its text. -/
  bytes : String
  modifiedAt : String

def parseEntry (raw : Json) : Option DatabaseEntry :=
  match raw.field "id", Json.numberText (raw.field "bytes"), raw.field "modifiedAt" with
  | some (.string id), some bytes, some (.string modifiedAt) =>
      some { id := id.toList, bytes, modifiedAt }
  | _, _, _ => none

def fetchManifest : Async β (List DatabaseEntry) := do
  let res ← fetch .databases
  if !res.ok then
    throw (httpError "manifest " res.status)
  else
    let body ← json
    let databases ← arrayField body "databases" "manifest missing 'databases' array"
    return databases.filterMap parseEntry

def detect : Async β Bool :=
  tryCatch
    (do
      let _manifest : List DatabaseEntry ← fetchManifest
      return true)
    fun _ => pure false

def exportOne (c : Codec β) (entry : DatabaseEntry) (stagingDir : List Char) : Async β ℕ := do
  let dir := join [stagingDir, entry.id]
  mkdir dir
  let finalPath := join [dir, "db.sqlite".toList]
  let res ← fetch (.database entry.id)
  if !res.ok then
    let text ← text
    throw (withText (httpError "" res.status) text)
  else
    match res.body with
    | none => throw "response body is empty"
    | some body => atomicWrite c body finalPath

def resetStagingDir (root : List Char) : Async β Unit :=
  rm root

def exportAll (c : Codec β) (stagingDir : List Char) : Async β ExportResult := do
  let startedAt ← now
  mkdir stagingDir
  resetStagingDir stagingDir
  mkdir stagingDir
  let manifest ← fetchManifest
  let exports ← manifest.foldlM
    (fun exports entry =>
      if !SAFE_ID entry.id || entry.id == dot || entry.id == dotdot then pure exports
      else
        tryCatch
          (do
            let bytes ← exportOne c entry stagingDir
            return exports ++
              [{ table := entry.id, tableDir := join [stagingDir, entry.id], shardsWritten := 1
                 shardsSkipped := 0, bytes }])
          fun _ => pure exports) ([] : List TableExport)
  let endedAt ← now
  return {
    pluginId
    tables := exports
    totalBytes := (exports.map TableExport.bytes).sum
    durationMs := endedAt - startedAt }

end SignalKDatabaseExporter

/-! ## All exporters -/

structure Enabled where
  questdb : Bool
  grafana : Bool
  signalkDatabase : Bool
  deriving DecidableEq

def exporters (c : Codec β) (enabled : Enabled) : List (DatabaseExporter β) :=
  (if enabled.questdb then
    [{ pluginId := QuestDBExporter.pluginId, detect := QuestDBExporter.detect
       exportAll := QuestDBExporter.exportAll c }] else []) ++
  (if enabled.grafana then
    [{ pluginId := GrafanaExporter.pluginId, detect := GrafanaExporter.detect
       exportAll := GrafanaExporter.exportAll c }] else []) ++
  (if enabled.signalkDatabase then
    [{ pluginId := SignalKDatabaseExporter.pluginId, detect := SignalKDatabaseExporter.detect
       exportAll := SignalKDatabaseExporter.exportAll c }] else [])

def stagingRoot (signalkConfigRoot : List Char) : List Char :=
  join [signalkConfigRoot, "plugin-config-data".toList, "signalk-backup".toList,
    "database-exports".toList]

/-- One round of the loop of `runAllExports`. -/
def runExporter (root : List Char) (results : List ExportResult) (exporter : DatabaseExporter β) :
    Async β (List ExportResult) := do
  let detected ← tryCatch exporter.detect fun _ => pure false
  if !detected then
    return results
  else
    tryCatch
      (do
        let r ← exporter.exportAll (join [root, exporter.pluginId])
        return results ++ [r])
      fun _ => pure results

def runAllExports (c : Codec β) (signalkConfigRoot : List Char) (enabled : Enabled) :
    Async β (List ExportResult) := do
  mkdir (stagingRoot signalkConfigRoot)
  (exporters c enabled).foldlM (runExporter (stagingRoot signalkConfigRoot)) []

end Export
end SignalKBackup
