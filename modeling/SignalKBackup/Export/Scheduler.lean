import SignalKBackup.Export.Atomic
import SignalKBackup.Lib.Slot
import SignalKBackup.Plugin.Lifecycle

/-!
# Scheduler — export cycles next to the plugin

The plugin's machine, with the export cycles its interval and `POST /api/backups` begin, the staging
tree they write to, and a snapshot that copies files out of it, one after another and whenever it
likes.  An export cycle is what `runDbExportTick` stores in `dbExportInFlight`; who calls it while one
is in flight waits for that one.

* `Orderly` is the invariant: one cycle at most is in flight, what it has yet to do follows the
  protocol, and the disk is whole.
* `snapshot_whole`: one export runs at a time, and at every instant every file that is not `.partial`
  holds the complete body of one write, in the staging tree and in the snapshot.
-/

namespace SignalKBackup
namespace Export

open Lib
open Posix
open Plugin (SCHEMA_DEFAULTS pluginStep)
open Protocol (Allowed)

/-- What does not change while the server runs. -/
structure Setup (β : Type) where
  cwd : List Char
  SIGNALK_NODE_CONFIG_DIR : Option (List Char)
  /-- `app.getDataDirPath()` -/
  dataDirPath : List Char
  codec : Codec β

variable {β : Type}

def Setup.resolveSignalkConfigRoot (e : Setup β) : List Char :=
  match e.SIGNALK_NODE_CONFIG_DIR with
  | some (c :: fromEnv) => c :: fromEnv
  | _ => dirname (dirname e.dataDirPath)

def runDbExportOnce (e : Setup β) (s : Plugin.State) : Async β Unit :=
  -- external mode
  if s.settings.any fun c => !c.managedContainer then pure ()
  else do
    let dbCfg := (s.settings.getD SCHEMA_DEFAULTS).databaseExport
    let _results : List ExportResult ← runAllExports e.codec e.resolveSignalkConfigRoot
      { questdb := dbCfg.questdb, grafana := dbCfg.grafana, signalkDatabase := dbCfg.signalkDatabase }
    return ()

structure ExportCycle (β : Type) where
  /-- What is left to do. -/
  program : Program (Op β) Res (Except String Unit)
  /-- The `finally` has run. -/
  cleared : Bool

/-- The export is waiting for a call. -/
def ExportCycle.running (c : ExportCycle β) : Bool :=
  c.program.waits

def ExportCycle.inFlight (c : ExportCycle β) : Bool :=
  !c.cleared

/-- A task of the plugin that waits for an export cycle. -/
structure Caller where
  task : ℕ
  cycle : ℕ

structure System (β : Type) where
  plugin : Plugin.System
  dbExportInFlight : Option ℕ
  cycles : List (ExportCycle β)
  callers : List Caller
  disk : Disk β
  /-- What the snapshot has copied: the place, and the bytes. -/
  snapshot : List (List Seg × β)

/-- The tick that the task at this position waits for. -/
def System.runDbExportTick (s : System β) (e : Setup β) (task : ℕ) : System β :=
  match s.dbExportInFlight with
  | some i => { s with callers := s.callers ++ [{ task, cycle := i }] }
  | none =>
      let once := tryCatch (runDbExportOnce e s.plugin.state) fun _ => pure ()
      { s with
        dbExportInFlight := some s.cycles.length
        cycles := s.cycles ++ [{ program := once.run, cleared := false }]
        callers := s.callers ++ [{ task, cycle := s.cycles.length }] }

/-- The task waits for a cycle that is still in flight. -/
def System.blocked (s : System β) (task : ℕ) : Bool :=
  s.callers.any fun caller => caller.task == task && (s.cycles[caller.cycle]?).any ExportCycle.inFlight

inductive Action (β : Type)
  | plugin (a : Plugin.Action)
  /-- The call that a cycle waits for goes on, or settles. -/
  | call (cycle : ℕ) (o : Outcome β)
  /-- The `finally` of a cycle. -/
  | finish (cycle : ℕ)
  /-- The snapshot copies a file. -/
  | copy (path : List Seg)

/-- The steps of the plugin that call `runDbExportTick`. -/
def ticks (s : Plugin.State) : Plugin.Action → Bool
  | .backup => s.exports
  | .exportTick => true
  | _ => false

/-- A task that waits for a cycle does not go on before it. -/
def System.held (s : System β) : Plugin.Action → Bool
  | .settle i _ => s.blocked i
  | _ => false

def exportStep (e : Setup β) (s : System β) : Action β → Option (System β)
  | .plugin a =>
      if s.held a then none
      else
        (pluginStep s.plugin a).map fun plugin =>
          if ticks s.plugin.state a then
            { s with plugin }.runDbExportTick e s.plugin.tasks.length
          else { s with plugin }
  | .call i o =>
      match s.cycles[i]? with
      | some { program := .call op k, cleared } =>
          (settle e.cwd s.disk op o).map fun (disk, r) =>
            match r with
            | some x => { s with disk, cycles := s.cycles.set i { program := k x, cleared } }
            | none => { s with disk }
      | _ => none
  | .finish i =>
      match s.cycles[i]? with
      | some { program := .pure r, cleared := false } =>
          some { s with
            dbExportInFlight := none
            cycles := s.cycles.set i { program := .pure r, cleared := true } }
      | _ => none
  | .copy path =>
      match s.disk.fs path with
      | some (.file bytes) => some { s with snapshot := s.snapshot ++ [(path, bytes)] }
      | _ => none

def exports (e : Setup β) : Machine (System β) (Action β) where
  step := exportStep e

/-- The server has just come up; what lies on the disk is whole. -/
structure Started (s : System β) : Prop where
  loaded : Plugin.Loaded s.plugin
  idle : s.dbExportInFlight = none
  noCycles : s.cycles = []
  noCallers : s.callers = []
  whole : Whole s.disk
  noSnapshot : s.snapshot = []

/-! ## The invariant -/

/-- What a cycle has yet to do follows the protocol. -/
def ExportCycle.Follows (cwd : List Char) (d : Disk β) (c : ExportCycle β) : Prop :=
  ∃ last, (atomic cwd).Obeys last c.program ∧ Kept last d

structure Orderly (e : Setup β) (s : System β) : Prop where
  exclusive : Exclusive ExportCycle.inFlight s.dbExportInFlight.isSome s.cycles
  finished : ∀ (i : ℕ) (c : ExportCycle β), s.cycles[i]? = some c → c.inFlight = false → c.running = false
  follows : ∀ (i : ℕ) (c : ExportCycle β), s.cycles[i]? = some c → c.running = true →
    c.Follows e.cwd s.disk
  whole : Whole s.disk
  copied : ∀ f ∈ s.snapshot, IsPartial f.1 ∨ Complete s.disk.written f.1 f.2

theorem runDbExportOnce_allowed {cwd : List Char} (e : Setup β) (s : Plugin.State) :
    (atomic cwd).Allowed (runDbExportOnce e s).run := by
  unfold runDbExportOnce
  split
  · exact .returns ()
  · exact .andThen (runAllExports_allowed _ _ _) fun _ => .returns ()

theorem Started.orderly {e : Setup β} {s : System β} (h : Started s) : Orderly e s := by
  refine ⟨?_, ?_, ?_, h.whole, ?_⟩
  · rw [h.noCycles]
    exact .of_free (by simp)
  · rw [h.noCycles]
    simp
  · rw [h.noCycles]
    simp
  · rw [h.noSnapshot]
    simp

section Steps

variable {e : Setup β} {s s' : System β}

/-- A cycle that runs is in flight. -/
theorem Orderly.inFlight_of_running (h : Orderly e s) {i : ℕ} {c : ExportCycle β}
    (hc : s.cycles[i]? = some c) (hrunning : c.running = true) : c.inFlight = true := by
  cases hflight : c.inFlight with
  | true =>
      rfl
  | false =>
      rw [h.finished i c hc hflight] at hrunning
      cases hrunning

theorem Orderly.runDbExportTick (h : Orderly e s) (task : ℕ) :
    Orderly e (s.runDbExportTick e task) := by
  unfold System.runDbExportTick
  split
  case h_1 i hi =>
      exact ⟨h.exclusive, h.finished, h.follows, h.whole, h.copied⟩
  case h_2 hidle =>
      refine ⟨?_, ?_, ?_, h.whole, h.copied⟩
      · exact h.exclusive.append (by rw [hidle]; rfl) fun _ => rfl
      · intro i c hc hflight
        rcases getElem?_concat_cases hc with hold | ⟨_, rfl⟩
        · exact h.finished i c hold hflight
        · cases hflight
      · intro i c hc hrunning
        rcases getElem?_concat_cases hc with hold | ⟨_, rfl⟩
        · exact h.follows i c hold hrunning
        · have honce : (atomic e.cwd).Allowed
              (tryCatch (runDbExportOnce e s.plugin.state) fun _ => pure ()).run :=
            .catches (runDbExportOnce_allowed e _) fun _ => .returns ()
          exact ⟨none, honce none, kept_none _⟩

theorem Orderly.plugin (h : Orderly e s) {a : Plugin.Action}
    (hs : exportStep e s (.plugin a) = some s') : Orderly e s' := by
  simp only [exportStep] at hs
  split at hs
  case isTrue =>
      cases hs
  case isFalse =>
      rcases Option.map_eq_some_iff.1 hs with ⟨plugin, _, rfl⟩
      have hsame : Orderly e { s with plugin } :=
        ⟨h.exclusive, h.finished, h.follows, h.whole, h.copied⟩
      split
      · exact hsame.runDbExportTick _
      · exact hsame

/-- One cycle runs at a time. -/
theorem Orderly.running_unique (h : Orderly e s) {i j : ℕ} {a b : ExportCycle β}
    (ha : s.cycles[i]? = some a) (hb : s.cycles[j]? = some b) (hra : a.running = true)
    (hrb : b.running = true) : j = i :=
  (h.exclusive i a ha (h.inFlight_of_running ha hra)).2 j b hb (h.inFlight_of_running hb hrb)

theorem Orderly.call (h : Orderly e s) {i : ℕ} {o : Outcome β}
    (hs : exportStep e s (.call i o) = some s') : Orderly e s' := by
  simp only [exportStep] at hs
  split at hs
  case h_2 =>
      cases hs
  case h_1 op k cleared hc =>
      rcases Option.map_eq_some_iff.1 hs with ⟨⟨disk, r⟩, hsettle, rfl⟩
      have honly : ∀ (j : ℕ) (c : ExportCycle β), s.cycles[j]? = some c → c.running = true → j = i :=
        fun j c hj hrunning => h.running_unique hc hj rfl hrunning
      rcases h.follows i _ hc rfl with ⟨last, hobeys, hkept⟩
      have hchange := Change.of_settle hsettle
      have hwhole := hchange.whole hobeys.1 hkept h.whole
      have hcopied : ∀ f ∈ s.snapshot, IsPartial f.1 ∨ Complete disk.written f.1 f.2 :=
        fun f hf => (h.copied f hf).imp_right (Complete.mono hchange.written)
      cases r with
      | none =>
          refine ⟨h.exclusive, h.finished, ?_, hwhole, hcopied⟩
          intro j c hj hrunning
          cases honly j c hj hrunning
          cases hc.symm.trans hj
          exact ⟨none, obeys_pending hsettle hobeys, kept_none _⟩
      | some x =>
          have hflight := h.inFlight_of_running hc rfl
          refine ⟨?_, ?_, ?_, hwhole, hcopied⟩
          · refine h.exclusive.set hc (fun hno => ?_) fun _ _ => (h.exclusive i _ hc hflight).1
            rw [hflight] at hno
            cases hno
          · intro j c hj hno
            rcases getElem?_set_cases hj with ⟨_, rfl⟩ | ⟨_, hold⟩
            · cases hflight.symm.trans hno
            · exact h.finished j c hold hno
          · intro j c hj hrunning
            rcases getElem?_set_cases hj with ⟨_, rfl⟩ | ⟨hne, hold⟩
            · exact ⟨_, hobeys.2 x, settle_kept hsettle h.whole⟩
            · exact absurd (honly j c hold hrunning) hne

theorem Orderly.finish (h : Orderly e s) {i : ℕ} (hs : exportStep e s (.finish i) = some s') :
    Orderly e s' := by
  simp only [exportStep] at hs
  split at hs
  case h_2 =>
      cases hs
  case h_1 r hc =>
      cases hs
      refine ⟨?_, ?_, ?_, h.whole, h.copied⟩
      · refine h.exclusive.set hc (fun hno => ?_) fun _ hyes => ?_
        · cases hno
        · cases hyes
      · intro j c hj hno
        rcases getElem?_set_cases hj with ⟨_, rfl⟩ | ⟨_, hold⟩
        · rfl
        · exact h.finished j c hold hno
      · intro j c hj hrunning
        rcases getElem?_set_cases hj with ⟨_, rfl⟩ | ⟨_, hold⟩
        · cases hrunning
        · exact h.follows j c hold hrunning

theorem Orderly.copy (h : Orderly e s) {path : List Seg}
    (hs : exportStep e s (.copy path) = some s') : Orderly e s' := by
  simp only [exportStep] at hs
  split at hs
  case h_2 =>
      cases hs
  case h_1 bytes hfile =>
      cases hs
      refine ⟨h.exclusive, h.finished, h.follows, h.whole, fun f hf => ?_⟩
      rcases List.mem_append.1 hf with hold | hnew
      · exact h.copied f hold
      · cases List.mem_singleton.1 hnew
        exact h.whole.complete path bytes hfile

theorem Orderly.step (h : Orderly e s) {a : Action β} (hs : exportStep e s a = some s') :
    Orderly e s' := by
  cases a with
  | plugin a =>
      exact h.plugin hs
  | call i o =>
      exact h.call hs
  | finish i =>
      exact h.finish hs
  | copy path =>
      exact h.copy hs

theorem reachable_orderly (h : (exports e).Reachable Started s) : Orderly e s :=
  h.invariant (fun _ hstarted => hstarted.orderly) fun _ _ _ horderly _ hs => horderly.step hs

end Steps

/-- One export runs at a time, and every file that is not `.partial` holds the complete body of one
write, at every instant and in what the snapshot has copied. -/
theorem snapshot_whole {e : Setup β} {s : System β} (h : (exports e).Reachable Started s) :
    (∀ (i j : ℕ) (a b : ExportCycle β), s.cycles[i]? = some a → s.cycles[j]? = some b →
        a.running = true → b.running = true → i = j) ∧
      (∀ p bytes, s.disk.fs p = some (.file bytes) →
        IsPartial p ∨ Complete s.disk.written p bytes) ∧
      ∀ f ∈ s.snapshot, IsPartial f.1 ∨ Complete s.disk.written f.1 f.2 := by
  have horderly := reachable_orderly h
  refine ⟨?_, horderly.whole.complete, horderly.copied⟩
  intro i j a b ha hb hra hrb
  exact horderly.running_unique hb ha hrb hra

/-! ## A backup -/

def onBoard : Setup (List Char) :=
  { cwd := "/home/node".toList
    SIGNALK_NODE_CONFIG_DIR := some "/sk".toList
    dataDirPath := "/sk/plugin-config-data/signalk-backup".toList
    codec := { stringify := Manifest.tableName, parse := fun _ => none, length := List.length } }

def freshSystem : System (List Char) :=
  { plugin := Plugin.unstarted
    dbExportInFlight := none
    cycles := []
    callers := []
    disk := { fs := fun p => if p = [] then some .dir else none, written := [] }
    snapshot := [] }

theorem freshSystem_started : Started freshSystem := by
  refine ⟨Plugin.unstarted_loaded, rfl, rfl, rfl, ⟨?_, ?_⟩, rfl⟩
  · intro p target _ h
    simp only [freshSystem] at h
    split at h <;> cases h
  · intro p bytes h
    simp only [freshSystem] at h
    split at h <;> cases h

/-- Where the database of the answers below goes. -/
def trackPlace : List Seg :=
  ["sk".toList, "plugin-config-data".toList, "signalk-backup".toList, "database-exports".toList,
    "signalk-database".toList, "track".toList, "db.sqlite".toList]

def databases : Json :=
  .object [("databases", .array [.object [("id", .string "track"), ("bytes", .number "6"),
    ("modifiedAt", .string "2026-01-05")]])]

/-- A backup is requested twice, and the snapshot copies the database. -/
def backup : List (Action (List Char)) :=
  [.plugin (.start { signalkDatabase := some true }), .plugin .backup, .call 0 .resolves,
    .plugin .backup,
    -- the source plugin is asked for its databases
    .call 0 (.responds { status := 200, body := none }), .call 0 (.parses databases),
    -- the directory is emptied, and the databases are asked for again
    .call 0 (.clock 0), .call 0 .resolves, .call 0 .resolves, .call 0 .resolves,
    .call 0 (.responds { status := 200, body := none }), .call 0 (.parses databases),
    -- the database comes in two pieces
    .call 0 .resolves, .call 0 (.responds { status := 200, body := some "SQLite".toList }),
    .call 0 (.holds "SQL".toList), .call 0 .resolves, .call 0 .resolves,
    .copy trackPlace, .call 0 (.clock 1), .finish 0]

theorem trackPlace_not_partial : ¬IsPartial trackPlace := by
  have hsplit : trackPlace = trackPlace.dropLast ++ ["db.sqlite".toList] := rfl
  rw [hsplit, isPartial_iff_suffix]
  decide

theorem snapshot_whole_backup :
    ∃ s, (exports onBoard).run freshSystem backup = some s ∧
      s.disk.fs trackPlace = some (.file "SQLite".toList) ∧
      Complete s.disk.written trackPlace "SQLite".toList := by
  obtain ⟨s, hs, hfile⟩ : ∃ s, (exports onBoard).run freshSystem backup = some s ∧
      s.disk.fs trackPlace = some (.file "SQLite".toList) := ⟨_, rfl, rfl⟩
  have hreachable : (exports onBoard).Reachable Started s :=
    Machine.Reachable.run (.init freshSystem_started) hs
  have hcomplete := (snapshot_whole hreachable).2.1 _ _ hfile
  exact ⟨s, hs, hfile, hcomplete.resolve_left trackPlace_not_partial⟩

end Export
end SignalKBackup
