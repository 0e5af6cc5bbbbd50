import SignalKBackup.Export.Coverage
import SignalKBackup.Export.Apart
import SignalKBackup.Lib.Triple

/-!
# Shown — what the disk shows of a table

A `Staging` is the table directory as a cycle sees it.  Here it is read off the tree: the manifest is
what `MANIFEST.json` parses to, a shard or a flat file is there or not, with the length of its bytes.

* `Shows` is that relation between a `Staging` and a disk; `Shown` lists the places it speaks of.
* `Apart` is the frame condition: a call that is apart from a place leaves it alone
  (`Effect.apart`), so a call that is apart from the places shown keeps what the disk shows
  (`Shows.step`).
* `Own` says which places belong to a table.  The places of two tables are apart.
-/

namespace SignalKBackup
namespace Export

open Lib
open Posix
open FileTree

variable {β : Type}

/-! ## Places of a table -/

def MANIFEST_JSON : Seg := "MANIFEST.json".toList

def tablePlace (root : List Seg) (table : List Char) (name : Seg) : List Seg :=
  root ++ [table, name]

def flatPlace (root : List Seg) (table : List Char) : List Seg :=
  root ++ [table ++ PARQUET]

def legacyPlace (root : List Seg) (table : List Char) : List Seg :=
  root ++ [table ++ PARQUET ++ LEGACY]

/-- The places a table directory is read from. -/
inductive Shown (root : List Seg) (table : List Char) : List Seg → Prop
  | manifest : Shown root table (tablePlace root table MANIFEST_JSON)
  | shard (week : IsoWeek) : Shown root table (tablePlace root table (shardFile table week))
  | flat : Shown root table (flatPlace root table)
  | legacy : Shown root table (legacyPlace root table)

/-! ## What is on disk -/

/-- The disk, and the last reading of the clock. -/
structure Clocked (β : Type) where
  disk : Disk β
  clock : ℤ

def manifestAt (c : Codec β) : Option (Node Seg β) → Option Manifest
  | some (.file raw) => c.parse raw
  | _ => none

/-- Something is there or not, and a file has the size. -/
structure Sized (c : Codec β) (node : Option (Node Seg β)) (size : Option ℕ) : Prop where
  there : node.isSome = size.isSome
  length : ∀ bytes, node = some (.file bytes) → size = some (c.length bytes)

structure Shows (c : Codec β) (root : List Seg) (table : List Char) (s : Staging) (t : Clocked β) :
    Prop where
  noLinks : NoLinks t.disk.fs []
  clock : s.clock ≤ t.clock
  manifest : manifestAt c (t.disk.fs (tablePlace root table MANIFEST_JSON)) = s.manifest
  shards : ∀ week, Sized c (t.disk.fs (tablePlace root table (shardFile table week)))
    ((s.shards (shardFile table week)).map Shard.bytes)
  flat : Sized c (t.disk.fs (flatPlace root table)) s.flat
  legacy : Sized c (t.disk.fs (legacyPlace root table)) s.legacy

/-! ## Steps of a call -/

/-- The clock does not go back, and a file that is there can be read. -/
def ordinaryOutcome (cwd : List Char) (t : Clocked β) : Op β → Outcome β → Bool
  | .now, .clock now => t.clock ≤ now
  | .readFile path, .rejects _ =>
      match t.disk.fs (place cwd path) with
      | some (.file _) => false
      | _ => true
  | _, _ => true

/-- The last reading of the clock after a step. -/
def reading (clock : ℤ) : Op β → Outcome β → ℤ
  | .now, .clock now => now
  | _, _ => clock

def Clocked.settle (cwd : List Char) (t : Clocked β) (op : Op β) (o : Outcome β) :
    Option (Clocked β × Option (Res op)) :=
  (Export.settle cwd t.disk op o).map fun (disk, r) => ({ disk, clock := reading t.clock op o }, r)

def ordinary (cwd : List Char) : Steps (Op β) Res (Clocked β) :=
  fun t op t' r => ∃ o, settle cwd t.disk op o = some (t'.disk, r) ∧ ordinaryOutcome cwd t op o = true ∧
    t'.clock = reading t.clock op o

/-! ## Frames -/

section Frames

variable {cwd : List Char} {fs fs' : FileTree Seg β} {op : Op β} {p : List Seg}

/-- The clock never goes back. -/
theorem clock_le {t t' : Clocked β} {r : Option (Res op)} (h : ordinary cwd t op t' r) :
    t.clock ≤ t'.clock := by
  rcases h with ⟨o, _, hordinary, hclock⟩
  rw [hclock]
  cases op with
  | now =>
      cases o with
      | clock now =>
          exact of_decide_eq_true hordinary
      | _ =>
          exact le_rfl
  | _ =>
      exact le_rfl

/-- A call that can fail can settle without a change; the others only read. -/
theorem ordinary_still (t : Clocked β) (op : Op β) : ∃ x, ordinary cwd t op t (some x) := by
  cases op with
  | now =>
      exact ⟨t.clock, .clock t.clock, rfl, decide_eq_true le_rfl, rfl⟩
  | existsSync path =>
      exact ⟨_, .resolves, rfl, rfl, rfl⟩
  | readFile path =>
      -- what can be read is read
      by_cases hfile : ∃ bytes, t.disk.fs (place cwd path) = some (.file bytes)
      · rcases hfile with ⟨bytes, hbytes⟩
        exact ⟨.ok bytes, .resolves, by simp only [settle, hbytes], rfl, rfl⟩
      · refine ⟨.error "", .rejects "", rfl, ?_, rfl⟩
        simp only [ordinaryOutcome]
        split
        case h_1 bytes hbytes =>
            exact absurd ⟨bytes, hbytes⟩ hfile
        case h_2 =>
            rfl
  | _ =>
      exact ⟨.error "", .rejects "", rfl, rfl, rfl⟩

end Frames

/-! ## Calls apart from what is shown -/

section Shows

variable {c : Codec β} {cwd : List Char} {root : List Seg} {table : List Char} {s : Staging}
  {t t' : Clocked β} {op : Op β} {r : Option (Res op)}

/-- What the disk shows of a table depends on the places shown only. -/
theorem Shows.of_same (h : Shows c root table s t) (hlinks : NoLinks t'.disk.fs [])
    (hclock : t.clock ≤ t'.clock) (hsame : ∀ p, Shown root table p → t'.disk.fs p = t.disk.fs p) :
    Shows c root table s t' where
  noLinks := hlinks
  clock := h.clock.trans hclock
  manifest := by
    rw [hsame _ .manifest]
    exact h.manifest
  shards week := by
    rw [hsame _ (.shard week)]
    exact h.shards week
  flat := by
    rw [hsame _ .flat]
    exact h.flat
  legacy := by
    rw [hsame _ .legacy]
    exact h.legacy

theorem Shows.step (h : Shows c root table s t) (hop : ∀ p, Shown root table p → Apart cwd p op)
    (hstep : ordinary cwd t op t' r) : Shows c root table s t' := by
  have hclock := clock_le hstep
  rcases hstep with ⟨o, hsettle, _, _⟩
  have heffect := Effect.of_settle hsettle
  refine h.of_same (heffect.noLinks h.noLinks) hclock fun p hp => ?_
  exact heffect.apart h.noLinks (hop p hp)

theorem Shows.perform (h : Shows c root table s t) (hop : ∀ p, Shown root table p → Apart cwd p op) :
    Program.Ensures (ordinary cwd) (fun _ t => Shows c root table s t) (Program.perform op) t :=
  .perform (Shows c root table s) h (fun _ _ ht hstep => ht.step hop hstep)
    fun _ _ _ ht hstep => ht.step hop hstep

end Shows

/-! ## Names below the root -/

section Names

variable {root : List Seg} {table : List Char} {p q : List Seg}

/-- A table name has no dot. -/
theorem noDot_of_safeTable (h : SAFE_TABLE_NAME table = true) : '.' ∉ table := by
  intro hmem
  cases table with
  | nil =>
      cases hmem
  | cons c rest =>
      simp only [SAFE_TABLE_NAME, Bool.and_eq_true, List.all_eq_true] at h
      rcases List.mem_cons.1 hmem with rfl | hrest
      · exact absurd h.1 (by decide)
      · exact absurd (h.2 '.' hrest) (by decide)

theorem Shown.below (hp : Shown root table p) : root <+: p := by
  cases hp <;> exact List.prefix_append _ _

theorem Shown.own (h : '.' ∉ table) (hp : Shown root table p) : Own root table p := by
  cases hp with
  | manifest =>
      exact ⟨table, _, rfl, takeWhile_noDot h⟩
  | shard week =>
      exact ⟨table, _, rfl, takeWhile_noDot h⟩
  | flat =>
      exact ⟨table ++ PARQUET, [], rfl, takeWhile_dot h _⟩
  | legacy =>
      refine ⟨table ++ PARQUET ++ LEGACY, [], rfl, ?_⟩
      rw [List.append_assoc]
      exact takeWhile_dot h _

/-- A name with a suffix lies beside the table directory. -/
theorem suffix_disjoint (root : List Seg) (table : List Char) {w : Seg} (hw : w ≠ [])
    (below : List Seg) : Disjoint (root ++ [table ++ w]) (root ++ table :: below) := by
  refine (Disjoint.names ?_ [] below).below root
  exact fun heq => hw (List.append_right_eq_self.1 heq)

theorem flat_disjoint (root : List Seg) (table : List Char) (name : Seg) :
    Disjoint (flatPlace root table) (tablePlace root table name) :=
  suffix_disjoint root table (w := PARQUET) (by decide) [name]

theorem legacy_disjoint (root : List Seg) (table : List Char) (name : Seg) :
    Disjoint (legacyPlace root table) (tablePlace root table name) := by
  have hapart := suffix_disjoint root table (w := PARQUET ++ LEGACY) (by decide) [name]
  rwa [← List.append_assoc] at hapart

/-- Nothing is shown under a `.partial` name. -/
theorem Shown.disjoint_partial (hp : Shown root table p) (name : Seg) :
    Disjoint (tablePlace root table (name ++ PARTIAL)) p := by
  have hname : ∀ s w : Seg, ∀ ch, w.getLast? = some ch → 'l' ≠ ch → name ++ PARTIAL ≠ s ++ w := by
    intro s w ch hlast hch heq
    exact not_partial_suffix s hlast hch ⟨name, heq⟩
  have hbeside : ∀ s, name ++ PARTIAL ≠ s → Disjoint [table, name ++ PARTIAL] [table, s] := by
    intro s hne
    exact (Disjoint.names hne [] []).below [table]
  cases hp with
  | manifest =>
      refine (hbeside _ ?_).below root
      exact hname [] MANIFEST_JSON 'n' (by decide) (by decide)
  | shard week =>
      refine (hbeside _ ?_).below root
      have hne := hname (table ++ '_' :: formatIsoWeek week) PARQUET 't' (by decide) (by decide)
      simpa [shardFile] using hne
  | flat =>
      exact (flat_disjoint root table _).symm
  | legacy =>
      exact (legacy_disjoint root table _).symm

/-- The table directory is not shown itself, nor is anything above it. -/
theorem Shown.not_above (hp : Shown root table p) : ¬p <+: root ++ [table] := by
  have hbelow : ∀ name : Seg, ¬tablePlace root table name <+: root ++ [table] := by
    intro name hpre
    have hshort := hpre.length_le
    simp [tablePlace] at hshort
  cases hp with
  | manifest =>
      exact hbelow _
  | shard week =>
      exact hbelow _
  | flat =>
      exact (suffix_disjoint root table (w := PARQUET) (by decide) []).1
  | legacy =>
      have hapart := suffix_disjoint root table (w := PARQUET ++ LEGACY) (by decide) []
      rw [← List.append_assoc] at hapart
      exact hapart.1

end Names

end Export
end SignalKBackup
