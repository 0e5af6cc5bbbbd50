import SignalKBackup.Export.Apart
import SignalKBackup.Lib.Calling

/-!
# Round — one round over the exporters

`runAllExports` asks each exporter that is enabled whether its plugin is there, and lets it export to a
staging directory of its own.  What an exporter's `detect` and the making of the directory keep, and
each `exportAll` keeps, the round keeps (`runAllExports_keeps`); an exporter keeps what lies in the
staging directory of another one (`exportAll_apart`).

`rounds` are the runs: one round after another, any of the exporters being enabled, each step of each
awaited call, and crashes.
-/

namespace SignalKBackup
namespace Export

open Lib
open Posix
open FileTree

variable {β σ : Type} {R : Steps (Op β) Res σ} {I : σ → Prop}

/-- What every call without a path keeps. -/
def Quiet (R : Steps (Op β) Res σ) (I : σ → Prop) : Prop :=
  ∀ op : Op β, op.paths = [] → ∀ s t r, I s → R s op t r → I t

section Quiet

variable (h : Quiet R I)

include h

theorem Quiet.perform {op : Op β} (hop : op.paths = []) {s : σ} (hs : I s) :
    Program.Ensures R (fun _ => I) (Program.perform op) s :=
  .perform I hs (fun s t hs hstep => h op hop s t none hs hstep)
    fun s t x hs hstep => h op hop s t (some x) hs hstep

theorem Quiet.now {E : σ → Prop} : Triple R I (now : Async β ℤ) (fun _ => I) E := by
  intro s hs
  have hop : (Op.now : Op β).paths = [] := rfl
  exact .bind ((h.perform hop hs).mono fun _ _ ht => ht)

theorem Quiet.fetch (request : Request) : Triple R I (fetch request : Async β (Response β)) (fun _ => I) I :=
  .of_ensures fun _ hs => h.perform rfl hs

theorem Quiet.text : Triple R I (text : Async β (List Char)) (fun _ => I) I :=
  .of_ensures fun _ hs => h.perform rfl hs

theorem Quiet.json : Triple R I (json : Async β Json) (fun _ => I) I :=
  .of_ensures fun _ hs => h.perform rfl hs

omit h in
theorem arrayField_keeps (body : Json) (name message : String) :
    Triple R I (arrayField body name message : Async β (List Json)) (fun _ => I) I := by
  unfold arrayField
  split
  · exact .returns fun _ hs => hs
  · exact .throws fun _ hs => hs

theorem QuestDBExporter.listTables_keeps :
    Triple R I (listTables : Async β (List (List Char))) (fun _ => I) I := by
  refine .andThen (h.fetch _) fun res => ?_
  split
  · exact .andThen h.text fun _ => .throws fun _ hs => hs
  · refine .andThen h.json fun body => ?_
    exact .andThen (arrayField_keeps _ _ _) fun _ => .returns fun _ hs => hs

theorem GrafanaExporter.detect_keeps : Triple R I (detect : Async β Bool) (fun _ => I) I := by
  refine .catches (.andThen (h.fetch _) fun res => ?_) fun _ => .returns fun _ hs => hs
  split
  · exact .returns fun _ hs => hs
  · refine .andThen h.json fun body => ?_
    split
    · exact .returns fun _ hs => hs
    · exact .returns fun _ hs => hs

theorem SignalKDatabaseExporter.fetchManifest_keeps :
    Triple R I (fetchManifest : Async β (List DatabaseEntry)) (fun _ => I) I := by
  refine .andThen (h.fetch _) fun res => ?_
  split
  · exact .throws fun _ hs => hs
  · refine .andThen h.json fun body => ?_
    exact .andThen (arrayField_keeps _ _ _) fun _ => .returns fun _ hs => hs

/-- Whether a plugin is there is found out without a file. -/
theorem detect_keeps {c : Codec β} {enabled : Enabled} {exporter : DatabaseExporter β}
    (hmem : exporter ∈ exporters c enabled) : Triple R I exporter.detect (fun _ => I) I := by
  simp only [exporters, List.mem_append, List.mem_ite_nil_right, List.mem_singleton] at hmem
  rcases hmem with (⟨_, rfl⟩ | ⟨_, rfl⟩) | ⟨_, rfl⟩
  · refine .catches (.andThen (QuestDBExporter.listTables_keeps h) fun _ => ?_) fun _ => ?_
    · exact .returns fun _ hs => hs
    · exact .returns fun _ hs => hs
  · exact GrafanaExporter.detect_keeps h
  · refine .catches (.andThen (SignalKDatabaseExporter.fetchManifest_keeps h) fun _ => ?_) fun _ => ?_
    · exact .returns fun _ hs => hs
    · exact .returns fun _ hs => hs

theorem runAllExports_keeps {c : Codec β} {signalkConfigRoot : List Char} {enabled : Enabled}
    (hdir : ∀ s t r, I s → R s (.mkdir (stagingRoot signalkConfigRoot)) t r → I t)
    (hexport : ∀ exporter ∈ exporters c enabled,
      Triple R I (exporter.exportAll (join [stagingRoot signalkConfigRoot, exporter.pluginId]))
        (fun _ => I) I) :
    Triple R I (runAllExports c signalkConfigRoot enabled) (fun _ => I) I := by
  refine .andThen (.of_ensures fun s hs => .perform I hs (fun s t => hdir s t none)
    fun s t x => hdir s t (some x)) fun _ => ?_
  refine .foldlM (I := fun _ => I) (fun results exporter hmem => ?_) []
  refine .andThen (.catches (detect_keeps h hmem) fun _ => .returns fun _ hs => hs) fun detected => ?_
  split
  · exact .returns fun _ hs => hs
  · refine .catches (.andThen (hexport exporter hmem) fun _ => ?_) fun _ => ?_
    · exact .returns fun _ hs => hs
    · exact .returns fun _ hs => hs

end Quiet

/-! ## Staging directories -/

section Directories

variable {c : Codec β} {enabled : Enabled} {exporter : DatabaseExporter β} {cwd : List Char}

theorem name_questdb : Name QuestDBExporter.pluginId :=
  ⟨by decide, by decide, by decide, by decide⟩

theorem name_grafana : Name GrafanaExporter.pluginId :=
  ⟨by decide, by decide, by decide, by decide⟩

theorem name_signalkDatabase : Name SignalKDatabaseExporter.pluginId :=
  ⟨by decide, by decide, by decide, by decide⟩

theorem name_pluginId (h : exporter ∈ exporters c enabled) : Name exporter.pluginId := by
  simp only [exporters, List.mem_append, List.mem_ite_nil_right, List.mem_singleton] at h
  rcases h with (⟨_, rfl⟩ | ⟨_, rfl⟩) | ⟨_, rfl⟩
  · exact name_questdb
  · exact name_grafana
  · exact name_signalkDatabase

/-- What an exporter does leaves alone what is in the staging directory of another plugin. -/
theorem exportAll_apart (cwd : List Char) (hmem : exporter ∈ exporters c enabled) {pluginId : List Char}
    (hname : Name pluginId) (hne : exporter.pluginId ≠ pluginId) (dir : List Char)
    (hkeeps : ∀ op : Op β, (∀ p, place cwd (join [dir, pluginId]) <+: p → Apart cwd p op) →
      ∀ s t r, I s → R s op t r → I t) :
    Triple R I (exporter.exportAll (join [dir, exporter.pluginId])) (fun _ => I) I := by
  have hapart : Disjoint (place cwd (join [dir, exporter.pluginId])) (place cwd (join [dir, pluginId])) := by
    rw [place_join_name dir (name_pluginId hmem), place_join_name dir hname]
    exact FileTree.Disjoint.siblings hne
  refine .of_ensures fun s hs => .of_obeys (P := confined cwd (place cwd (join [dir, exporter.pluginId])))
    (fun _ op hop => hkeeps op fun p hp => ?_) (exporter_confined c _ hmem ()) hs
  exact apart_of_confined hapart hp hop

end Directories

/-! ## Runs -/

/-- Rounds on a state, with what is noted at the begin of each, and how a call goes on in it. -/
def rounds (c : Codec β) (signalkConfigRoot : List Char) (enter : σ → σ)
    (settle : σ → (op : Op β) → Outcome β → Option (σ × Option (Res op))) :
    Calling σ Enabled (Outcome β) (Op β) Res (Except String (List ExportResult)) where
  program enabled := (runAllExports c signalkConfigRoot enabled).run
  enter _ := enter
  settle := settle

/-- Where a plugin's exports are staged. -/
def stagingDirOf (signalkConfigRoot pluginId : List Char) : List Char :=
  join [stagingRoot signalkConfigRoot, pluginId]

end Export
end SignalKBackup
