import SignalKBackup.Export.Confined
import SignalKBackup.Lib.Triple

/-!
# LastGood — what a failed export of the Signal K databases leaves

`exportAll` empties the staging directory before it asks for the list of databases, so what the
cycle before had staged is gone when that request fails, and the call rejects.

* `Fatal` lists the failures that make a call reject, and `Spares` is the condition on a step: once the
  directory has been emptied they come only if nothing was staged when the call began, and a removal
  that fails has removed no database.
* `reachable_lastGood`: under it, a call that rejects leaves the staged databases as they were.  A call
  that resolves leaves exactly those in its result, with the bytes that came in that call.
* `reachable_not_lastGood`: a failed request for the list loses them.
-/

namespace SignalKBackup
namespace Export

open Lib
open Posix
open FileTree
open SignalKDatabaseExporter

variable {β : Type}

/-! ## Calls of `exportAll` -/

/-- A call of `exportAll`, with a record that no step reads. -/
structure ExportCall (β : Type) where
  /-- What is left to do. -/
  program : Program (Op β) Res (Except String ExportResult)
  /-- The tree when the call began. -/
  start : FileTree Seg β
  /-- The databases that came, with their bytes. -/
  fetched : List (List Char × β)
  /-- `rm` has resolved. -/
  emptied : Bool

structure Cycles (β : Type) where
  disk : Disk β
  /-- The last call. -/
  call : Option (ExportCall β)

inductive CycleAction (β : Type)
  | exportAll
  /-- The call that is waited for goes on, or settles. -/
  | settles (o : Outcome β)

/-- A database that comes. -/
def databaseOf : Op β → Outcome β → List (List Char × β)
  | .fetch (.database id), .responds res =>
      match res.ok, res.body with
      | true, some body => [(id, body)]
      | _, _ => []
  | _, _ => []

def empties : Op β → Outcome β → Bool
  | .rm _, .resolves => true
  | _, _ => false

def cycleStep (c : Codec β) (cwd stagingDir : List Char) (s : Cycles β) :
    CycleAction β → Option (Cycles β)
  | .exportAll =>
      -- one call at a time
      if s.call.any fun call => call.program.waits then none
      else some { s with
        call := some {
          program := (exportAll c stagingDir).run
          start := s.disk.fs
          fetched := []
          emptied := false } }
  | .settles o =>
      match s.call with
      | some { program := .call op k, start, fetched, emptied } =>
          (settle cwd s.disk op o).map fun (disk, r) =>
            { disk
              call := some {
                program := Program.next (.call op k) k r
                start
                fetched := fetched ++ databaseOf op o
                emptied := emptied || empties op o } }
      | _ => none

def cycles (c : Codec β) (cwd stagingDir : List Char) : Machine (Cycles β) (CycleAction β) where
  step := cycleStep c cwd stagingDir

/-! ## What was staged before -/

def databaseFile (root : List Seg) (id : List Char) : List Seg :=
  root ++ [id, "db.sqlite".toList]

/-- Every database that was staged is there as it was. -/
def Intact (root : List Seg) (start fs : FileTree Seg β) : Prop :=
  ∀ id bytes, start (databaseFile root id) = some (.file bytes) →
    fs (databaseFile root id) = some (.file bytes)

/-- The databases that are staged are those of the list, each with bytes that came. -/
structure HoldsExactly (root : List Seg) (ids : List (List Char)) (fetched : List (List Char × β))
    (fs : FileTree Seg β) : Prop where
  of_file : ∀ id bytes, fs (databaseFile root id) = some (.file bytes) →
    id ∈ ids ∧ (id, bytes) ∈ fetched
  staged : ∀ id ∈ ids, ∃ bytes, fs (databaseFile root id) = some (.file bytes)

/-- What a call that has ended leaves. -/
def Leaves (root : List Seg) (start : FileTree Seg β) (fetched : List (List Char × β))
    (fs : FileTree Seg β) : Except String ExportResult → Prop
  | .ok result => HoldsExactly root (result.tables.map TableExport.table) fetched fs
  | .error _ => Intact root start fs

def LastGood (root : List Seg) (s : Cycles β) : Prop :=
  ∀ call r, s.call = some call → call.program = .pure r →
    Leaves root call.start call.fetched s.disk.fs r

/-! ## The condition -/

/-- The failures that make a call reject: of the directory, or of the list of databases. -/
def Fatal (stagingDir : List Char) : Op β → Outcome β → Bool
  | .mkdir path, .rejects _ => path == stagingDir
  | .rm _, .rejects _ => true
  | .fetch .databases, .rejects _ => true
  | .fetch .databases, .responds res => !res.ok
  | .json, .rejects _ => true
  | .json, .parses body =>
      match body.field "databases" with
      | some (.array _) => false
      | _ => true
  | _, _ => false

def NoneStaged (root : List Seg) (fs : FileTree Seg β) : Prop :=
  ∀ id bytes, fs (databaseFile root id) ≠ some (.file bytes)

/-- What a failure presupposes: a removal that fails has removed no database so far, and after the
removal a call fails only if there was nothing to remove. -/
def Harmless (root : List Seg) (start fs : FileTree Seg β) (emptied : Bool) : Op β → Prop
  | .rm _ => Intact root start fs
  | _ => emptied = true → NoneStaged root start

def Spares (cwd stagingDir : List Char) (s : Cycles β) : CycleAction β → Prop
  | .exportAll => True
  | .settles o => ∀ call op k, s.call = some call → call.program = .call op k →
      Fatal stagingDir op o = true →
        Harmless (place cwd stagingDir) call.start s.disk.fs call.emptied op

/-! ## Trees of staged databases -/

variable {root : List Seg} {start fs fs' : FileTree Seg β} {ids : List (List Char)}
  {fetched : List (List Char × β)}

/-- The tree while a call goes on, once the directory has been emptied. -/
structure Staged (root : List Seg) (ids : List (List Char)) (fetched : List (List Char × β))
    (fs : FileTree Seg β) : Prop extends HoldsExactly root ids fetched fs where
  noLinks : NoLinks fs root

theorem Staged.of_same (h : Staged root ids fetched fs) (hlinks : NoLinks fs' root)
    (hsame : ∀ id, fs' (databaseFile root id) = fs (databaseFile root id)) :
    Staged root ids fetched fs' where
  of_file id bytes hfile := h.of_file id bytes (by rw [← hsame]; exact hfile)
  staged id hid := by
    rw [hsame]
    exact h.staged id hid
  noLinks := hlinks

theorem Staged.more (h : Staged root ids fetched fs) (more : List (List Char × β)) :
    Staged root ids (fetched ++ more) fs where
  of_file id bytes hfile :=
    ⟨(h.of_file id bytes hfile).1, List.mem_append_left _ (h.of_file id bytes hfile).2⟩
  staged := h.staged
  noLinks := h.noLinks

/-- Where a database is written to before it is renamed. -/
def partialFile (root : List Seg) (id : List Char) : List Seg :=
  root ++ [id, "db.sqlite.partial".toList]

theorem partialFile_not_above (root : List Seg) (id id' : List Char) :
    ¬partialFile root id <+: databaseFile root id' := by
  intro h
  -- below the same directory the names of the two files differ
  have hlast := (List.cons_prefix_cons.1 ((List.prefix_append_right_inj root).1 h)).2
  exact absurd (List.cons_prefix_cons.1 hlast).1 (by decide)

theorem databaseFile_ne_partialFile (id id' : List Char) :
    databaseFile root id' ≠ partialFile root id := by
  intro h
  have hnot := partialFile_not_above root id id'
  rw [h] at hnot
  exact hnot (List.prefix_refl _)

/-- Calls that change no database file: directories above them, and files next to them. -/
def Aside (cwd : List Char) (root : List Seg) : Op β → Prop
  | .mkdir path => ∀ id, ¬databaseFile root id <+: place cwd path
  | .write path _ => ∃ id, place cwd path = partialFile root id
  | .unlink path => ∃ id, place cwd path = partialFile root id
  | op => op.reads = true

theorem Staged.effect {cwd : List Char} {op : Op β} (h : Staged root ids fetched fs)
    (heffect : Effect cwd fs op fs') (hop : Aside cwd root op) : Staged root ids fetched fs' := by
  cases heffect with
  | same =>
      exact h
  | @mkdirs path q hq =>
      refine h.of_same (h.noLinks.mkdirs q) fun id => ?_
      -- a directory on the way to `path` is no database either
      have hnot : ¬databaseFile root id <+: q := fun hpre => hop id (hpre.trans hq)
      simp [FileTree.mkdirs, hnot]
  -- no call of one database removes a directory
  | @rm path q hq =>
      cases hop
  | @unlinks path =>
      rcases hop with ⟨id, hid⟩
      refine h.of_same (h.noLinks.remove _) fun id' => ?_
      -- only the other name of a database goes
      rw [hid, FileTree.remove, if_neg (partialFile_not_above root id id')]
  | @renames src dst fs' hrename =>
      cases hop
  | @puts path body q bytes hopens =>
      rcases hop with ⟨id, hid⟩
      -- without links the write ends where its path leads
      have hq : q = place cwd path := by
        refine Option.some.inj ((Restore.follow_of_opens hopens).symm.trans (h.noLinks.follow 39 ?_))
        exact hid ▸ List.prefix_append _ _
      refine h.of_same (h.noLinks.put (by simp)) fun id' => ?_
      rw [FileTree.put, if_neg]
      rw [hq, hid]
      exact databaseFile_ne_partialFile id id'

/-- Making directories keeps every file. -/
theorem Intact.mkdir {cwd path : List Char} (h : Intact root start fs)
    (heffect : Effect cwd fs (.mkdir path) fs') : Intact root start fs' := by
  cases heffect with
  | same =>
      exact h
  | mkdirs _ =>
      intro id bytes hfile
      have hthere := h id bytes hfile
      simp [FileTree.mkdirs, hthere]

theorem Intact.of_none (h : NoneStaged root start) : Intact root start fs := by
  intro id bytes hfile
  exact absurd hfile (h id bytes)

/-- An emptied directory holds no database. -/
theorem staged_remove (root : List Seg) (fs : FileTree Seg β) (fetched : List (List Char × β)) :
    Staged root [] fetched (fs.remove root) := by
  have hnone : ∀ q, root <+: q → fs.remove root q = none := by
    intro q hq
    rw [FileTree.remove, if_pos hq]
  refine ⟨⟨fun id bytes hfile => ?_, by simp⟩, fun q hq dest hlink => ?_⟩
  · rw [hnone (databaseFile root id) (List.prefix_append _ _)] at hfile
    cases hfile
  · rw [hnone q hq] at hlink
    cases hlink

/-- A database is renamed to its place. -/
theorem Staged.renamed {id : List Char} {body : β} (h : Staged root ids fetched fs)
    (hbody : (id, body) ∈ fetched) (hfile : fs (partialFile root id) = some (.file body))
    (hrename : fs.rename (partialFile root id) (databaseFile root id) = some fs') :
    Staged root (ids ++ [id]) fetched fs' := by
  rcases rename_eq_some hrename with ⟨_, ⟨bytes, hsrc, rfl⟩ | ⟨hsrc, _⟩⟩
  · rw [hfile] at hsrc
    cases hsrc
    have hlinks : NoLinks ((fs.remove (partialFile root id)).put (databaseFile root id) (.file body)) root :=
      (h.noLinks.remove _).put (by simp)
    -- the database itself, and the others
    have hself : ((fs.remove (partialFile root id)).put (databaseFile root id) (.file body))
        (databaseFile root id) = some (.file body) := by simp [FileTree.put]
    have hother : ∀ id', id' ≠ id →
        ((fs.remove (partialFile root id)).put (databaseFile root id) (.file body))
          (databaseFile root id') = fs (databaseFile root id') := by
      intro id' hne
      have hplace : databaseFile root id' ≠ databaseFile root id := by
        simpa [databaseFile] using hne
      rw [FileTree.put, if_neg hplace, FileTree.remove, if_neg (partialFile_not_above root id id')]
    refine ⟨⟨fun id' bytes' hid' => ?_, fun id' hid' => ?_⟩, hlinks⟩
    · by_cases hne : id' = id
      · subst hne
        rw [hself] at hid'
        cases hid'
        exact ⟨by simp, hbody⟩
      · rw [hother id' hne] at hid'
        rcases h.of_file id' bytes' hid' with ⟨hmem, hfetched⟩
        exact ⟨List.mem_append_left _ hmem, hfetched⟩
    · by_cases hne : id' = id
      · exact ⟨body, hne ▸ hself⟩
      · rcases List.mem_append.1 hid' with hmem | hmem
        · rcases h.staged id' hmem with ⟨bytes, hbytes⟩
          exact ⟨bytes, (hother id' hne).trans hbytes⟩
        · exact absurd (List.mem_singleton.1 hmem) hne
  · rw [hfile] at hsrc
    cases hsrc

/-! ## Triples -/

/-- What the calls of an export change: the disk, and what a call records. -/
structure Seen (β : Type) where
  disk : Disk β
  fetched : List (List Char × β)
  emptied : Bool

/-- A call goes on, under the condition. -/
def spared (cwd stagingDir : List Char) (start : FileTree Seg β) : Steps (Op β) Res (Seen β) :=
  fun s op t r => ∃ o, settle cwd s.disk op o = some (t.disk, r) ∧
    t.fetched = s.fetched ++ databaseOf op o ∧ t.emptied = (s.emptied || empties op o) ∧
      (Fatal stagingDir op o = true →
        Harmless (place cwd stagingDir) start s.disk.fs s.emptied op)

def IsStaged (root : List Seg) (ids : List (List Char)) (s : Seen β) : Prop :=
  Staged root ids s.fetched s.disk.fs ∧ s.emptied = true

def IsIntact (root : List Seg) (start : FileTree Seg β) (s : Seen β) : Prop :=
  Intact root start s.disk.fs

section Triples

variable {cwd stagingDir : List Char} {s t : Seen β} {op : Op β} {r : Option (Res op)}

theorem IsStaged.step (h : IsStaged root ids s) (hop : Aside cwd root op)
    (hstep : spared cwd stagingDir start s op t r) : IsStaged root ids t := by
  rcases hstep with ⟨o, hsettle, hfetched, hemptied, _⟩
  refine ⟨?_, by rw [hemptied, h.2, Bool.true_or]⟩
  rw [hfetched]
  exact (h.1.effect (.of_settle hsettle) hop).more _

theorem IsStaged.perform (h : IsStaged root ids s) (hop : Aside cwd root op) :
    Program.Ensures (spared cwd stagingDir start) (fun _ t => IsStaged root ids t)
      (Program.perform op) s :=
  .perform (IsStaged root ids) h (fun _ _ ht hstep => ht.step hop hstep)
    fun _ _ _ ht hstep => ht.step hop hstep

/-- After the removal a failure presupposes that there was nothing to lose. -/
theorem IsStaged.intact (h : IsStaged root ids s)
    (hnone : s.emptied = true → NoneStaged root start) (t : Seen β) : IsIntact root start t :=
  .of_none (hnone h.2)

/-- A call that only reads, and brings no database. -/
theorem spared_quiet (hreads : op.reads = true) (hquiet : ∀ o, databaseOf op o = [])
    (hstep : spared cwd stagingDir start s op t r) : t = s := by
  rcases hstep with ⟨o, hsettle, hfetched, hemptied, _⟩
  have hstill : empties op o = false := by
    cases op with
    | rm path =>
        cases hreads
    | _ =>
        rfl
  rw [hquiet o, List.append_nil] at hfetched
  rw [hstill, Bool.or_false] at hemptied
  rcases s with ⟨disk, fetched, emptied⟩
  rcases t with ⟨disk', fetched', emptied'⟩
  have hdisk : disk' = disk := settle_reads hreads hsettle
  have hsame : fetched' = fetched := hfetched
  have hflag : emptied' = emptied := hemptied
  rw [hdisk, hsame, hflag]

theorem now_keeps (P : Seen β → Prop) (E : Seen β → Prop) :
    Triple (spared cwd stagingDir start) P now (fun _ => P) E := by
  have hquiet : ∀ o : Outcome β, databaseOf .now o = [] := fun _ => rfl
  intro s hs
  refine ⟨P, hs, fun t ht => ⟨fun t' hstep => ?_, fun t' x hstep => ?_⟩⟩
  · rw [spared_quiet rfl hquiet hstep]
    exact ht
  · have hsame := spared_quiet rfl hquiet hstep
    subst hsame
    exact ht

theorem text_staged : Triple (spared cwd stagingDir start) (IsStaged root ids) text
    (fun _ => IsStaged root ids) (IsStaged root ids) :=
  .of_ensures fun _ hs => hs.perform rfl

theorem mkdir_staged {path : List Char} (h : ∀ id, ¬databaseFile root id <+: place cwd path) :
    Triple (spared cwd stagingDir start) (IsStaged root ids) (mkdir path)
      (fun _ => IsStaged root ids) (IsStaged root ids) :=
  .of_ensures fun _ hs => hs.perform h

theorem unlinkQuietly_staged {path : List Char} {id : List Char} (h : place cwd path = partialFile root id)
    (E : Seen β → Prop) : Triple (spared cwd stagingDir start) (IsStaged root ids) (unlinkQuietly path)
      (fun _ => IsStaged root ids) E :=
  .catches (.of_ensures fun _ hs => hs.perform ⟨id, h⟩) fun _ => .returns fun _ hs => hs

/-! ### The directory -/

theorem mkdir_intact {path : List Char} : Triple (spared cwd stagingDir start) (IsIntact root start)
    (mkdir path) (fun _ => IsIntact root start) (IsIntact root start) := by
  have hstep : ∀ s t r, IsIntact root start s → spared cwd stagingDir start s (.mkdir path) t r →
      IsIntact root start t := by
    rintro s t r hs ⟨o, hsettle, _⟩
    exact Intact.mkdir hs (.of_settle hsettle)
  exact .of_ensures fun s hs =>
    .perform (IsIntact root start) hs (fun t t' => hstep t t' none) fun t t' x => hstep t t' (some x)

theorem resetStagingDir_staged :
    Triple (spared cwd stagingDir start) (fun _ => True) (resetStagingDir stagingDir)
      (fun _ => IsStaged (place cwd stagingDir) []) (IsIntact (place cwd stagingDir) start) := by
  intro s _
  refine .perform (fun _ => True) trivial (fun _ _ _ _ => trivial) ?_
  rintro t ⟨disk', fetched', emptied'⟩ x _ ⟨o, hsettle, hfetched, hemptied, hspared⟩
  -- emptied, or the rejection is fatal and the condition speaks
  cases o with
  | resolves =>
      cases hsettle
      refine ⟨staged_remove _ _ _, ?_⟩
      rw [hemptied]
      exact Bool.or_true _
  | rejects message =>
      cases hsettle
      exact hspared rfl
  | removed q =>
      simp only [settle] at hsettle
      split at hsettle
      · cases hsettle
      · cases hsettle
  | _ =>
      cases hsettle

theorem databaseFile_not_prefix_root (id : List Char) : ¬databaseFile root id <+: root := by
  intro h
  have hlength := h.length_le
  simp [databaseFile] at hlength

/-- The directory is made again; if that fails, nothing had been removed. -/
theorem mkdir_again : Triple (spared cwd stagingDir start) (IsStaged (place cwd stagingDir) [])
    (mkdir stagingDir) (fun _ => IsStaged (place cwd stagingDir) [])
      (IsIntact (place cwd stagingDir) start) := by
  intro s hs
  -- while the call is pending the directory stays empty
  have hop : Aside cwd (place cwd stagingDir) (.mkdir stagingDir : Op β) := databaseFile_not_prefix_root
  refine .perform (IsStaged (place cwd stagingDir) []) hs (fun t t' ht hstep => ht.step hop hstep) ?_
  rintro t ⟨disk', fetched', emptied'⟩ x ht hstep
  cases x with
  | ok u =>
      exact ht.step hop hstep
  | error e =>
      rcases hstep with ⟨o, hsettle, _, _, hspared⟩
      cases o with
      | rejects message =>
          exact ht.intact (hspared (beq_self_eq_true stagingDir)) _
      | made q =>
          simp only [settle] at hsettle
          split at hsettle
          · cases hsettle
          · cases hsettle
      | resolves =>
          simp only [settle] at hsettle
          split at hsettle
          · cases hsettle
          · cases hsettle
      | _ =>
          cases hsettle

/-! ### The list of databases -/

theorem quiet_databases (o : Outcome β) : databaseOf (.fetch .databases) o = [] := by
  cases o <;> rfl

theorem quiet_json (o : Outcome β) : databaseOf .json o = [] := by
  cases o <;> rfl

theorem fetch_databases : Triple (spared cwd stagingDir start) (IsStaged (place cwd stagingDir) [])
    (fetch .databases)
    (fun res s => IsStaged (place cwd stagingDir) [] s ∧
      (res.ok = false → IsIntact (place cwd stagingDir) start s))
    (IsIntact (place cwd stagingDir) start) := by
  intro s hs
  have hop : Aside cwd (place cwd stagingDir) (.fetch .databases : Op β) := rfl
  refine .perform (IsStaged (place cwd stagingDir) []) hs (fun t t' ht hstep => ht.step hop hstep) ?_
  intro t t' x ht hstep
  have hsame := spared_quiet rfl quiet_databases hstep
  subst hsame
  rcases hstep with ⟨o, hsettle, _, _, hspared⟩
  cases o with
  | responds res =>
      cases hsettle
      -- an answer that is not ok makes the export reject later, so it counts as fatal here
      exact ⟨ht, fun hbad => ht.intact (hspared (by simp [Fatal, hbad])) t'⟩
  | rejects message =>
      cases hsettle
      exact ht.intact (hspared rfl) t'
  | _ =>
      cases hsettle

/-- What an answer is taken for. -/
def Listed (body : Json) : Prop :=
  ∃ items, body.field "databases" = some (.array items)

theorem json_databases : Triple (spared cwd stagingDir start) (IsStaged (place cwd stagingDir) [])
    json
    (fun body s => IsStaged (place cwd stagingDir) [] s ∧
      (¬Listed body → IsIntact (place cwd stagingDir) start s))
    (IsIntact (place cwd stagingDir) start) := by
  intro s hs
  have hop : Aside cwd (place cwd stagingDir) (.json : Op β) := rfl
  refine .perform (IsStaged (place cwd stagingDir) []) hs (fun t t' ht hstep => ht.step hop hstep) ?_
  intro t t' x ht hstep
  have hsame := spared_quiet rfl quiet_json hstep
  subst hsame
  rcases hstep with ⟨o, hsettle, _, _, hspared⟩
  cases o with
  | parses body =>
      cases hsettle
      -- so does an answer without a list
      refine ⟨ht, fun hbad => ht.intact (hspared ?_) t'⟩
      simp only [Fatal]
      split
      case h_1 items hitems =>
          exact absurd ⟨items, hitems⟩ hbad
      case h_2 =>
          rfl
  | rejects message =>
      cases hsettle
      exact ht.intact (hspared rfl) t'
  | _ =>
      cases hsettle

theorem fetchManifest_staged :
    Triple (spared cwd stagingDir start) (IsStaged (place cwd stagingDir) []) fetchManifest
      (fun _ => IsStaged (place cwd stagingDir) []) (IsIntact (place cwd stagingDir) start) := by
  refine .andThen fetch_databases fun res => ?_
  split
  case isTrue hbad =>
      exact .throws fun s hs => hs.2 (by simpa using hbad)
  case isFalse =>
      -- the answer is ok: only the staged databases matter from here
      refine .consequence ?_ (fun s hs => hs.1) (fun _ _ hs => hs) fun _ hs => hs
      refine .andThen json_databases fun body => ?_
      unfold arrayField
      split
      case h_1 =>
          exact .returns fun s hs => hs.1
      case h_2 hbad =>
          refine .throws fun s hs => hs.2 ?_
          rintro ⟨items, hitems⟩
          exact hbad items hitems

/-! ### One database -/

theorem place_partialFile (cwd stagingDir : List Char) {id : List Char} (hid : Name id) :
    place cwd (join [join [stagingDir, id], "db.sqlite".toList] ++ PARTIAL) =
      partialFile (place cwd stagingDir) id := by
  have hfile : Name "db.sqlite".toList := ⟨by decide, by decide, by decide, by decide⟩
  rcases place_suffix cwd (join [join [stagingDir, id], "db.sqlite".toList]) (w := PARTIAL)
    (by decide) (by decide) with ⟨base, s, _, hlast, hplace, hsuffix⟩
  have hjoin : lastSegment (join [join [stagingDir, id], "db.sqlite".toList]) = "db.sqlite".toList :=
    lastSegment_join [join [stagingDir, id]] hfile
  rw [hlast, hjoin] at hplace hsuffix
  rw [place_database cwd stagingDir hid, push_name hfile, List.reverse_cons, List.reverse_reverse]
    at hplace
  -- the suffix goes to the last name and leaves the directory
  have hbase : base = place cwd stagingDir ++ [id] := by
    have hsame : (place cwd stagingDir ++ [id]) ++ ["db.sqlite".toList] = base ++ ["db.sqlite".toList] := by
      rw [List.append_assoc]
      exact hplace
    exact (List.append_inj_left' hsame rfl).symm
  rw [hsuffix, hbase, partialFile, List.append_assoc]
  rfl

theorem fetch_database (id : List Char) : Triple (spared cwd stagingDir start) (IsStaged root ids)
    (fetch (.database id))
    (fun res s => IsStaged root ids s ∧
      ∀ body, res.ok = true → res.body = some body → (id, body) ∈ s.fetched)
    (IsStaged root ids) := by
  intro s hs
  have hop : Aside cwd root (.fetch (.database id) : Op β) := rfl
  refine .perform (IsStaged root ids) hs (fun t t' ht hstep => ht.step hop hstep) ?_
  rintro t ⟨disk', fetched', emptied'⟩ x ht hstep
  have hstaged := ht.step hop hstep
  rcases hstep with ⟨o, hsettle, hfetched, _⟩
  cases o with
  | responds res =>
      cases hsettle
      refine ⟨hstaged, fun body hok hbody => ?_⟩
      -- the record has the body that came
      have hcame : databaseOf (.fetch (.database id)) (.responds res) = [(id, body)] := by
        simp [databaseOf, hok, hbody]
      rw [hcame] at hfetched
      rw [hfetched]
      simp
  | rejects message =>
      cases hsettle
      exact hstaged
  | _ =>
      cases hsettle

/-- The database is whole under its other name. -/
def IsWritten (root : List Seg) (ids : List (List Char)) (id : List Char) (body : β) (s : Seen β) :
    Prop :=
  IsStaged root ids s ∧ (id, body) ∈ s.fetched ∧
    s.disk.fs (partialFile root id) = some (.file body)

theorem write_beforehand {path : List Char} {id : List Char} (body : β)
    (h : place cwd path = partialFile root id) :
    Triple (spared cwd stagingDir start) (fun s => IsStaged root ids s ∧ (id, body) ∈ s.fetched)
      (write path body) (fun _ => IsWritten root ids id body) (IsStaged root ids) := by
  intro s hs
  have hop : Aside cwd root (.write path body) := ⟨id, h⟩
  have hquiet : ∀ o : Outcome β, databaseOf (.write path body) o = [] := fun o => by cases o <;> rfl
  refine .perform (fun s => IsStaged root ids s ∧ (id, body) ∈ s.fetched) hs ?_ ?_
  · rintro t t' ⟨ht, hbody⟩ hstep
    refine ⟨ht.step hop hstep, ?_⟩
    rcases hstep with ⟨o, _, hfetched, _⟩
    rw [hfetched]
    exact List.mem_append_left _ hbody
  · rintro t ⟨disk', fetched', emptied'⟩ x ⟨ht, hbody⟩ hstep
    have hstaged := ht.step hop hstep
    rcases hstep with ⟨o, hsettle, hfetched, _⟩
    cases o with
    | resolves =>
        simp only [settle, Disk.write, Option.map_map] at hsettle
        rcases Option.map_eq_some_iff.1 hsettle with ⟨q, hq, heq⟩
        cases heq
        -- without links the stream is open on the file itself
        have hself : q = place cwd path := by
          refine Option.some.inj ((Restore.follow_of_opens hq).symm.trans (ht.1.noLinks.follow 39 ?_))
          exact h ▸ List.prefix_append _ _
        refine ⟨hstaged, ?_, ?_⟩
        · rw [hfetched]
          exact List.mem_append_left _ hbody
        · simp [FileTree.put, hself, h]
    | rejects message =>
        cases hsettle
        exact hstaged
    -- half a write does not settle
    | holds bytes =>
        rcases Option.map_eq_some_iff.1 hsettle with ⟨q, _, heq⟩
        cases heq
    | _ =>
        cases hsettle

theorem rename_database {path finalPath : List Char} {id : List Char} (body : β)
    (h : place cwd path = partialFile root id) (hfinal : place cwd finalPath = databaseFile root id) :
    Triple (spared cwd stagingDir start) (IsWritten root ids id body) (rename path finalPath)
      (fun _ => IsStaged root (ids ++ [id])) (IsStaged root ids) := by
  intro s hs
  refine .perform (IsWritten root ids id body) hs ?_ ?_
  · rintro t ⟨disk', fetched', emptied'⟩ ht ⟨o, hsettle, _⟩
    -- a rename settles at once
    cases o with
    | resolves =>
        rcases Option.map_eq_some_iff.1 hsettle with ⟨fs, _, heq⟩
        cases heq
    | _ =>
        cases hsettle
  · rintro t ⟨disk', fetched', emptied'⟩ x ⟨ht, hbody, hfile⟩ ⟨o, hsettle, hfetched, hemptied, _⟩
    have hflag : emptied' = true := hemptied.trans (by rw [ht.2, Bool.true_or])
    cases o with
    | resolves =>
        rcases Option.map_eq_some_iff.1 hsettle with ⟨fs, hfs, heq⟩
        cases heq
        rw [h, hfinal] at hfs
        have hsame : fetched' = t.fetched ++ [] := hfetched
        rw [List.append_nil] at hsame
        subst hsame
        exact ⟨Staged.renamed ht.1 hbody hfile hfs, hflag⟩
    | rejects message =>
        cases hsettle
        have hsame : fetched' = t.fetched ++ [] := hfetched
        rw [List.append_nil] at hsame
        subst hsame
        exact ⟨ht.1, hflag⟩
    | _ =>
        cases hsettle

theorem atomicWrite_staged (c : Codec β) (body : β) {finalPath : List Char} {id : List Char}
    (h : place cwd (finalPath ++ PARTIAL) = partialFile root id)
    (hfinal : place cwd finalPath = databaseFile root id) :
    Triple (spared cwd stagingDir start) (fun s => IsStaged root ids s ∧ (id, body) ∈ s.fetched)
      (atomicWrite c body finalPath) (fun _ => IsStaged root (ids ++ [id])) (IsStaged root ids) := by
  refine .catches ?_ fun err => .andThen (unlinkQuietly_staged h _) fun _ => .throws fun _ hs => hs
  -- written whole under the other name, then renamed: one more database is staged
  refine .andThen (write_beforehand body h) fun _ => ?_
  exact .andThen (rename_database body h hfinal) fun _ => .returns fun _ hs => hs

theorem exportOne_staged (c : Codec β) {entry : DatabaseEntry} (hid : Name entry.id) :
    Triple (spared cwd stagingDir start) (IsStaged (place cwd stagingDir) ids)
      (exportOne c entry stagingDir) (fun _ => IsStaged (place cwd stagingDir) (ids ++ [entry.id]))
      (IsStaged (place cwd stagingDir) ids) := by
  -- the directory of a database is no database
  have hdir : ∀ id, ¬databaseFile (place cwd stagingDir) id <+:
      place cwd (join [stagingDir, entry.id]) := by
    intro id h
    have hlength := h.length_le
    rw [place_join_name stagingDir hid] at hlength
    simp [databaseFile] at hlength
  refine .andThen (mkdir_staged hdir) fun _ => ?_
  refine .andThen (fetch_database entry.id) fun res => ?_
  split
  case isTrue =>
      refine .consequence ?_ (fun s hs => hs.1) (fun _ _ hs => hs) fun _ hs => hs
      exact .andThen text_staged fun _ => .throws fun _ hs => hs
  case isFalse hok =>
      have hok : res.ok = true := by simpa using hok
      split
      case h_1 =>
          exact .throws fun s hs => hs.1
      case h_2 body hbody =>
          refine .consequence
            (atomicWrite_staged c body (place_partialFile cwd stagingDir hid)
              (place_database cwd stagingDir hid))
            (fun s hs => ⟨hs.1, hs.2 body hok hbody⟩) (fun _ _ hs => hs) fun _ hs => hs

/-! ### All databases -/

theorem exportAll_leaves (c : Codec β) :
    Triple (spared cwd stagingDir start) (IsIntact (place cwd stagingDir) start)
      (exportAll c stagingDir)
      (fun result => IsStaged (place cwd stagingDir) (result.tables.map TableExport.table))
      (IsIntact (place cwd stagingDir) start) := by
  refine .andThen (now_keeps _ _) fun startedAt => ?_
  refine .andThen mkdir_intact fun _ => ?_
  -- from the reset on, nothing is known of the old databases
  refine .consequence ?_ (fun _ _ => trivial) (fun _ _ hs => hs) fun _ hs => hs
  refine .andThen resetStagingDir_staged fun _ => ?_
  refine .andThen mkdir_again fun _ => ?_
  refine .andThen fetchManifest_staged fun manifest => ?_
  refine .andThen (.foldlM (I := fun exports => IsStaged (place cwd stagingDir)
    (exports.map TableExport.table)) (fun exports entry _ => ?_) []) fun exports => ?_
  · split
    case isTrue =>
        exact .returns fun _ hs => hs
    case isFalse hsafe =>
        rcases name_of_id hsafe with ⟨_, hid⟩
        -- a database that fails is left out of the result
        refine .catches (.andThen (exportOne_staged c hid) fun bytes => ?_) fun _ => ?_
        · exact .returns fun _ hs => by simpa using hs
        · exact .returns fun _ hs => hs
  · exact .andThen (now_keeps _ _) fun _ => .returns fun _ hs => hs

end Triples

/-! ## Runs -/

section Runs

variable {c : Codec β} {cwd stagingDir : List Char} {s s' : Cycles β}

/-- What is left of the last call ends as it should. -/
def Promises (cwd stagingDir : List Char) (s : Cycles β) : Prop :=
  ∀ call, s.call = some call →
    Program.Ensures (spared cwd stagingDir call.start)
      (EndsWith (fun result => IsStaged (place cwd stagingDir) (result.tables.map TableExport.table))
        (IsIntact (place cwd stagingDir) call.start))
      call.program { disk := s.disk, fetched := call.fetched, emptied := call.emptied }

theorem Promises.step {a : CycleAction β} (h : Promises cwd stagingDir s)
    (hspares : Spares cwd stagingDir s a) (hstep : cycleStep c cwd stagingDir s a = some s') :
    Promises cwd stagingDir s' := by
  cases a with
  | exportAll =>
      simp only [cycleStep] at hstep
      split at hstep
      case isTrue =>
          cases hstep
      case isFalse =>
          cases hstep
          intro call hcall
          cases hcall
          -- a new call begins with its own tree
          exact exportAll_leaves c { disk := s.disk, fetched := [], emptied := false }
            fun id bytes hfile => hfile
  | settles o =>
      simp only [cycleStep] at hstep
      split at hstep
      case h_1 op k start fetched emptied hlast =>
          rcases Option.map_eq_some_iff.1 hstep with ⟨⟨disk, r⟩, hsettle, rfl⟩
          intro call hcall
          cases hcall
          -- the step is one of `spared` by the condition
          refine (h _ hlast).goes_on ⟨o, hsettle, rfl, rfl, ?_⟩
          exact hspares _ op k hlast rfl
      case h_2 =>
          cases hstep

/-- No export has been made yet. -/
def NoCall (s : Cycles β) : Prop :=
  s.call = none

/-- If the calls that fail once the directory has been emptied found nothing staged, and a removal that
fails has removed no database: a call that rejects leaves the staged databases as they were, and one
that resolves leaves those in its result, with bytes that came in that call. -/
theorem reachable_lastGood (h : (cycles c cwd stagingDir).ReachableUnder (Spares cwd stagingDir) NoCall s) :
    LastGood (place cwd stagingDir) s := by
  have hpromises : Promises cwd stagingDir s := by
    refine h.invariant (fun t ht => ?_) fun t a t' ht hspares hstep => ht.step hspares hstep
    -- before the first call there is nothing to promise
    intro call hcall
    rw [ht] at hcall
    cases hcall
  intro call r hcall hended
  have hensures := hpromises call hcall
  -- the program has ended, so that its postcondition holds now
  rw [hended] at hensures
  cases r with
  | ok result =>
      exact hensures.1.toHoldsExactly
  | error e =>
      exact hensures

end Runs

/-! ## A list that does not come -/

def trackList : Json :=
  .object [("databases", .array [.object [("id", .string "track"), ("bytes", .number "6"),
    ("modifiedAt", .string "2026-01-05")]])]

/-- A cycle that stages one database. -/
def goodCycle : List (CycleAction (List Char)) :=
  [.exportAll, .settles (.clock 0), .settles .resolves, .settles .resolves, .settles .resolves,
    .settles (.responds { status := 200, body := none }), .settles (.parses trackList),
    .settles .resolves, .settles (.responds { status := 200, body := some "SQLite".toList }),
    .settles .resolves, .settles .resolves, .settles (.clock 1)]

/-- A cycle whose request for the list fails. -/
def failedCycle : List (CycleAction (List Char)) :=
  [.exportAll, .settles (.clock 2), .settles .resolves, .settles .resolves, .settles .resolves,
    .settles (.rejects "fetch failed")]

def exportCycles : Machine (Cycles (List Char)) (CycleAction (List Char)) :=
  cycles plainCodec ['/'] "/exports/signalk-database".toList

def emptyExports : Cycles (List Char) :=
  { disk := exportsDisk, call := none }

theorem emptyExports_noCall : NoCall emptyExports :=
  rfl

def exportsRoot : List Seg :=
  ["exports".toList, "signalk-database".toList]

theorem goodCycle_spares (a : CycleAction (List Char)) (ha : a ∈ goodCycle) (s : Cycles (List Char)) :
    Spares ['/'] "/exports/signalk-database".toList s a := by
  -- none of its steps is a failure, whatever is waited for
  have hmild : ∀ o : Outcome (List Char), .settles o ∈ goodCycle →
      ∀ op, Fatal "/exports/signalk-database".toList op o = false := by
    intro o ho op
    simp only [goodCycle, List.mem_cons, CycleAction.settles.injEq, reduceCtorEq, false_or,
      List.not_mem_nil, or_false] at ho
    rcases ho with rfl | rfl | rfl | rfl | rfl | rfl | rfl | rfl | rfl | rfl | rfl
    all_goals cases op
    all_goals first | rfl | (rename_i request; cases request <;> rfl)
  cases a with
  | exportAll =>
      trivial
  | settles o =>
      intro call op k _ _ hfatal
      rw [hmild o ha op] at hfatal
      cases hfatal

theorem reachable_lastGood_cycle :
    ∃ s, exportCycles.run emptyExports goodCycle = some s ∧
      s.disk.fs (databaseFile exportsRoot "track".toList) = some (.file "SQLite".toList) ∧
      LastGood exportsRoot s := by
  obtain ⟨s, hs, hfile⟩ : ∃ s, exportCycles.run emptyExports goodCycle = some s ∧
      s.disk.fs (databaseFile exportsRoot "track".toList) = some (.file "SQLite".toList) :=
    ⟨_, rfl, rfl⟩
  refine ⟨s, hs, hfile, ?_⟩
  have hmeets := Machine.Meets.of_forall (M := exportCycles) goodCycle_spares emptyExports
  exact reachable_lastGood (.run (.init emptyExports_noCall) hmeets hs)

/-- The database of the cycle before is gone when the next one fails. -/
theorem reachable_not_lastGood :
    ∃ s, exportCycles.Reachable NoCall s ∧ ¬LastGood exportsRoot s := by
  obtain ⟨s, t, hs, ht, call, hcall, hstart, e, hended, hgone⟩ :
      ∃ s t, exportCycles.run emptyExports goodCycle = some s ∧
        exportCycles.run s failedCycle = some t ∧
        ∃ call, t.call = some call ∧
          call.start (databaseFile exportsRoot "track".toList) = some (.file "SQLite".toList) ∧
          ∃ e, call.program = .pure (.error e) ∧
            t.disk.fs (databaseFile exportsRoot "track".toList) = none :=
    ⟨_, _, rfl, rfl, _, rfl, rfl, _, rfl, rfl⟩
  have hreached : exportCycles.Reachable NoCall s := Machine.Reachable.run (.init emptyExports_noCall) hs
  refine ⟨t, hreached.run ht, fun hgood => ?_⟩
  have hthere := hgood call (.error e) hcall hended "track".toList "SQLite".toList hstart
  rw [hgone] at hthere
  cases hthere

end Export
end SignalKBackup
