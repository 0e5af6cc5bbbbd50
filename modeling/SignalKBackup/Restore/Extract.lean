import SignalKBackup.Restore.Rollback

/-!
# Extract — where `extractZipSafely` creates and writes

An extraction begins with the target directory made, and takes entries of any names and types until
the archive ends or an operation fails.

* `Contained.creates` says that every path that is created or written on the way is the target or lies
  below it; `mkdir` with `recursive` creates what is missing on the way to its path;
* `extract_refused` says that an entry with an empty name or a `..` segment ends the extraction: what
  is left of the run creates and writes nothing, and it fails.
-/

namespace SignalKBackup
namespace Restore

open Lib
open Posix
open FileTree

variable {β : Type}

/-! ## The part of a run that extracts -/

def Await.isExtraction : Await → Bool
  | .nextEntry => true
  | .mkdirEntry _ => true
  | .mkdirParent _ => true
  | .writeEntry _ => true
  | _ => false

/-- The target directory is there, with the directories on the way to it. -/
def TargetMade (ctx : RestoreContext) (fs : FileTree Seg β) : Prop :=
  ∀ x, x <+: ctx.targetAt → fs x ≠ none

/-- A run at the beginning of its extraction, on any files. -/
def Extracts (ctx : RestoreContext) (s : Run β) : Prop :=
  s.await = .nextEntry ∧ TargetMade ctx s.fs

/-- The paths that the operation of an await creates or writes. -/
def Await.creates (fs : FileTree Seg β) : Await → List Seg → Prop
  | .mkdirEntry dest, x => x <+: locate dest ∧ fs x = none
  | .mkdirParent dest, x => x <+: locate (dirname dest) ∧ fs x = none
  | .writeEntry dest, x => x = locate dest
  | _, _ => False

/-- The path that an await of the extraction is about. -/
def Await.dest : Await → Option (List Char)
  | .mkdirEntry dest => some dest
  | .mkdirParent dest => some dest
  | .writeEntry dest => some dest
  | _ => none

/-- The awaits after the extraction. -/
def Await.isOver : Await → Bool
  | .dropStash => true
  | .scrub _ => true
  | .rollback _ => true
  | .ended _ => true
  | _ => false

/-- While a run extracts, the target stays made, and the entry it is at lies at the target or
below. -/
structure Contained (ctx : RestoreContext) (s : Run β) : Prop where
  phase : s.await.isExtraction = true ∨ s.await.isOver = true
  made : s.await.isExtraction = true → TargetMade ctx s.fs
  entry : ∀ dest, s.await.dest = some dest →
    ctx.targetAt <+: locate dest ∧ Near ctx (locate (dirname dest))

theorem Contained.over {ctx : RestoreContext} {s : Run β} (h : s.await.isOver = true) :
    Contained ctx s := by
  have hnot : s.await.isExtraction = false ∧ s.await.dest = none := by
    cases hawait : s.await <;> rw [hawait] at h <;> first | exact ⟨rfl, rfl⟩ | cases h
  refine ⟨Or.inr h, fun hext => ?_, fun dest hdest => ?_⟩
  · rw [hnot.1] at hext
    cases hext
  · rw [hnot.2] at hdest
    cases hdest

theorem Contained.next {ctx : RestoreContext} {s : Run β} (h : s.await = .nextEntry)
    (hmade : TargetMade ctx s.fs) : Contained ctx s := by
  refine ⟨Or.inl (by rw [h]; rfl), fun _ => hmade, fun dest hdest => ?_⟩
  rw [h] at hdest
  cases hdest

theorem TargetMade.mkdirs {ctx : RestoreContext} {fs : FileTree Seg β} (h : TargetMade ctx fs)
    (p : List Seg) : TargetMade ctx (fs.mkdirs p) := by
  intro x hx
  have hold := h x hx
  simp only [FileTree.mkdirs]
  split
  · simp
  · exact hold

theorem TargetMade.put {ctx : RestoreContext} {fs : FileTree Seg β} (h : TargetMade ctx fs)
    (p : List Seg) (bytes : β) : TargetMade ctx (fs.put p (.file bytes)) := by
  intro x hx
  have hold := h x hx
  simp only [FileTree.put]
  split
  · simp
  · exact hold

/-- The target directory has just been made. -/
theorem extracts_of_mkdirTarget {ctx : RestoreContext} {s s' : Run β} (h : s.await = .mkdirTarget)
    (hs : step ctx s .ok = some s') : Extracts ctx s' := by
  simp only [step, h, stepMkdir] at hs
  split at hs
  case isTrue =>
      cases hs
      refine ⟨rfl, fun x hx => ?_⟩
      simp only [FileTree.mkdirs]
      split
      case isTrue => simp
      case isFalse hnot =>
          intro hnone
          exact hnot ⟨hx, hnone⟩
  case isFalse =>
      cases hs

/-! ## One step -/

theorem toRollback_isOver (s : Run β) (message : String) :
    (toRollback s message).await.isOver = true := by
  unfold toRollback
  split <;> rfl

theorem toCompleted_isOver (s : Run β) : (toCompleted s).await.isOver = true := by
  unfold toCompleted
  dsimp only
  split <;> rfl

/-- An await that no extraction stands at. -/
theorem Contained.absurd {ctx : RestoreContext} {s : Run β} {w : Await} (h : Contained ctx s)
    (hawait : s.await = w) (hext : w.isExtraction = false) (hover : w.isOver = false) : False := by
  rcases h.phase with hphase | hphase
  · rw [hawait, hext] at hphase
    cases hphase
  · rw [hawait, hover] at hphase
    cases hphase

theorem contained_step {ctx : RestoreContext} {s s' : Run β} {a : Settle β}
    (h : Contained ctx s) (hs : step ctx s a = some s') : Contained ctx s' := by
  cases RunStep.of_step hs with
  -- an extraction does not come back to what is before it
  | found hawait _ =>
      exact (h.absurd hawait rfl rfl).elim
  | notFound _ hawait =>
      exact (h.absurd hawait rfl rfl).elim
  | stashed hawait _ =>
      exact (h.absurd hawait rfl rfl).elim
  | downloads hawait =>
      exact (h.absurd hawait rfl rfl).elim
  | refused _ hawait =>
      exact (h.absurd hawait rfl rfl).elim
  | wroteTarget _ hawait _ =>
      exact (h.absurd hawait rfl rfl).elim
  | throws message _ =>
      exact .over rfl
  | @makes p next hmaking _ =>
      unfold Await.making at hmaking
      split at hmaking
      case h_1 hawait =>
          exact (h.absurd hawait rfl rfl).elim
      case h_2 dest hawait =>
          cases hmaking
          exact .next rfl ((h.made (by rw [hawait]; rfl)).mkdirs _)
      case h_3 dest hawait =>
          cases hmaking
          refine ⟨Or.inl rfl, fun _ => (h.made (by rw [hawait]; rfl)).mkdirs _, ?_⟩
          intro dest' hdest
          cases hdest
          exact h.entry dest (by rw [hawait]; rfl)
      case h_4 hawait =>
          exact (h.absurd hawait rfl rfl).elim
      case h_5 =>
          cases hmaking
  | makesSome levels message _ =>
      exact .over rfl
  | @entry path dest isDirectory hawait hdest =>
      -- the entry has been checked against the target
      have hloc := zipEntry_location rfl hdest
      have hdir := zipEntry_dirname rfl hdest
      rw [targetAt_resolve] at hloc hdir
      have hmade := h.made (by rw [hawait]; rfl)
      cases isDirectory with
      | true =>
          refine ⟨Or.inl rfl, fun _ => hmade, ?_⟩
          intro dest' hsame
          cases hsame
          exact ⟨hloc, hdir⟩
      | false =>
          refine ⟨Or.inl rfl, fun _ => hmade, ?_⟩
          intro dest' hsame
          cases hsame
          exact ⟨hloc, hdir⟩
  | extracted _ =>
      exact .over (toCompleted_isOver s)
  | wroteEntry bytes hawait _ =>
      exact .next rfl ((h.made (by rw [hawait]; rfl)).put _ bytes)
  | wroteSome bytes message _ _ =>
      exact .over rfl
  | dropped _ =>
      exact .over rfl
  | droppedSome keep _ =>
      exact .over rfl
  | scrubbed _ =>
      exact .over (toRollback_isOver _ _)
  | scrubbedSome keep _ =>
      exact .over (toRollback_isOver _ _)
  | rolledBack _ _ =>
      exact .over rfl
  | notRolledBack _ _ =>
      exact .over rfl

theorem reachable_contained {ctx : RestoreContext} {s : Run β}
    (h : (machine ctx).Reachable (Extracts ctx) s) : Contained ctx s := by
  refine h.invariant (fun s hs => .next hs.1 hs.2) ?_
  intro s a s' hcontained _ hs
  exact contained_step hcontained hs

/-! ## What is created and written -/

/-- Below the target, by names none of which is `..`. -/
def Below (ctx : RestoreContext) (x : List Seg) : Prop :=
  ∃ rest, x = ctx.targetAt ++ rest ∧ ∀ seg ∈ rest, seg ≠ dotdot

theorem below_of_prefix {ctx : RestoreContext} {x : List Seg} (h : ctx.targetAt <+: x)
    (hnames : ∀ seg ∈ x, Name seg) : Below ctx x := by
  rcases h with ⟨rest, rfl⟩
  exact ⟨rest, rfl, fun seg hseg => (hnames seg (by simp [hseg])).ne_dotdot⟩

/-- What is missing on the way to a path near the target lies below the target. -/
theorem Contained.missing {ctx : RestoreContext} {s : Run β} (hmade : TargetMade ctx s.fs)
    {p : List Char} (hp : Near ctx (locate p)) {x : List Seg} (hx : x <+: locate p)
    (hnone : s.fs x = none) : Below ctx x := by
  have hnames : ∀ seg ∈ x, Name seg := fun seg hseg => locate_names p seg (hx.subset hseg)
  have hline : x <+: ctx.targetAt ∨ ctx.targetAt <+: x := by
    rcases hp with hup | hdown
    · exact Or.inl (hx.trans hup)
    · exact List.prefix_or_prefix_of_prefix hx hdown
  rcases hline with hup | hdown
  · -- the directories on the way to the target are there
    exact (hmade x hup hnone).elim
  · exact below_of_prefix hdown hnames

theorem Contained.creates {ctx : RestoreContext} {s : Run β} (h : Contained ctx s) {x : List Seg}
    (hx : s.await.creates s.fs x) : Below ctx x := by
  cases hawait : s.await with
  | mkdirEntry dest =>
      rw [hawait] at hx
      have hentry := h.entry dest (by rw [hawait]; rfl)
      exact Contained.missing (h.made (by rw [hawait]; rfl)) (Or.inr hentry.1) hx.1 hx.2
  | mkdirParent dest =>
      rw [hawait] at hx
      have hentry := h.entry dest (by rw [hawait]; rfl)
      exact Contained.missing (h.made (by rw [hawait]; rfl)) hentry.2 hx.1 hx.2
  | writeEntry dest =>
      rw [hawait] at hx
      have hentry := h.entry dest (by rw [hawait]; rfl)
      have hdest : x = locate dest := hx
      rw [hdest]
      exact below_of_prefix hentry.1 (locate_names dest)
  | _ =>
      rw [hawait] at hx
      exact hx.elim

theorem changed_mkdirs {fs : FileTree Seg β} {p x : List Seg} (h : fs.mkdirs p x ≠ fs x) :
    x <+: p ∧ fs x = none := by
  simp only [FileTree.mkdirs] at h
  split at h
  case isTrue hmissing =>
      exact hmissing
  case isFalse =>
      exact absurd rfl h

theorem changed_put {fs : FileTree Seg β} {p x : List Seg} {node : Node Seg β}
    (h : fs.put p node x ≠ fs x) : x = p := by
  simp only [FileTree.put] at h
  split at h
  case isTrue heq =>
      exact heq
  case isFalse =>
      exact absurd rfl h

theorem mkdir_changes {s s' : Run β} {p : List Seg} {next : Await} {a : Settle β}
    (hs : stepMkdir s p next a = some s') {x : List Seg} (hx : s'.fs x ≠ s.fs x) :
    x <+: p ∧ s.fs x = none := by
  unfold stepMkdir at hs
  split at hs
  case h_1 =>
      split at hs
      · cases hs
        exact changed_mkdirs hx
      · cases hs
  case h_2 levels _ =>
      cases hs
      rcases changed_mkdirs hx with ⟨hpre, hnone⟩
      exact ⟨hpre.trans (List.take_prefix levels p), hnone⟩
  case h_3 =>
      cases hs
      exact absurd rfl hx
  case h_4 =>
      cases hs

theorem write_changes {s s' : Run β} {p : List Seg} {next : Run β → Run β} {a : Settle β}
    (hs : stepWrite s p next a = some s') (hnext : ∀ t, (next t).fs = t.fs) {x : List Seg}
    (hx : s'.fs x ≠ s.fs x) : s.fs.follow MAX_LINKS p = some x := by
  unfold stepWrite at hs
  split at hs
  case h_1 =>
      split at hs
      case h_1 q hq =>
          cases hs
          rw [hnext] at hx
          rw [changed_put hx]
          exact follow_of_opens hq
      case h_2 =>
          cases hs
  case h_2 =>
      split at hs
      case h_1 q hq =>
          cases hs
          rw [changed_put hx]
          exact follow_of_opens hq
      case h_2 =>
          cases hs
  case h_3 =>
      cases hs
      exact absurd rfl hx
  case h_4 =>
      cases hs

/-- What a step of the extraction changes is a path it creates or writes, or the place a link at
such a path leads to. -/
theorem extract_changes {ctx : RestoreContext} {s s' : Run β} {a : Settle β}
    (hext : s.await.isExtraction = true) (hs : step ctx s a = some s') {x : List Seg}
    (hx : s'.fs x ≠ s.fs x) :
    ∃ p, s.await.creates s.fs p ∧ (x = p ∨ s.fs.follow MAX_LINKS p = some x) := by
  cases hawait : s.await with
  | nextEntry =>
      -- an entry is only looked at
      simp only [step, hawait, stepEntry] at hs
      split at hs
      case h_1 =>
          split at hs <;> cases hs <;> exact absurd rfl hx
      case h_2 =>
          cases hs
          exact absurd rfl hx
      case h_3 =>
          cases hs
          exact absurd rfl hx
      case h_4 =>
          cases hs
  | mkdirEntry dest =>
      simp only [step, hawait] at hs
      rcases mkdir_changes hs hx with ⟨hpre, hnone⟩
      exact ⟨x, ⟨hpre, hnone⟩, Or.inl rfl⟩
  | mkdirParent dest =>
      simp only [step, hawait] at hs
      rcases mkdir_changes hs hx with ⟨hpre, hnone⟩
      exact ⟨x, ⟨hpre, hnone⟩, Or.inl rfl⟩
  | writeEntry dest =>
      simp only [step, hawait] at hs
      exact ⟨locate dest, rfl, Or.inr (write_changes hs (fun _ => rfl) hx)⟩
  | _ =>
      rw [hawait] at hext
      cases hext

/-! ## A refused entry -/

/-- An entry with an empty name, or with a `..` between separators. -/
def BadEntry (path : List Char) : Prop :=
  ((path.splitOnP isSeparator).filter fun p => p != []) = [] ∨ dotdot ∈ path.splitOnP isSeparator

theorem resolveZipEntryPath_bad {cwd path targetDir : List Char} (h : BadEntry path) :
    resolveZipEntryPath cwd path targetDir = none := by
  unfold resolveZipEntryPath
  rcases h with hempty | hup
  · simp only [hempty, if_true]
  · have hmem : dotdot ∈ (path.splitOnP isSeparator).filter fun p => p != [] := by
      refine List.mem_filter.2 ⟨hup, by decide⟩
    have hne : ((path.splitOnP isSeparator).filter fun p => p != []) ≠ [] := by
      intro hnil
      rw [hnil] at hmem
      cases hmem
    simp only [hne, hmem, if_true, if_false]

/-- The clean-up, or what it ends with; the awaits left are counted. -/
def Await.failing : Await → Option ℕ
  | .scrub _ => some 2
  | .rollback _ => some 1
  | .ended .failed => some 0
  | .ended .rolledBack => some 0
  | _ => none

/-- A run that can only fail, in at most `n` steps. -/
structure Fails (n : ℕ) (s : Run β) : Prop where
  left : ∃ k, s.await.failing = some k ∧ k ≤ n
  ended : ∀ final, s.await = .ended final → s.status.state = final

theorem Fails.creates {n : ℕ} {s : Run β} (h : Fails n s) (x : List Seg) :
    ¬s.await.creates s.fs x := by
  rcases h.left with ⟨k, hk, _⟩
  intro hx
  cases hawait : s.await <;> rw [hawait] at hk hx <;> first | exact hx | cases hk

theorem Fails.final {n : ℕ} {s : Run β} (h : Fails n s) {final : RunState}
    (hfinal : s.await = .ended final) : final = .failed ∨ final = .rolledBack := by
  rcases h.left with ⟨k, hk, _⟩
  rw [hfinal] at hk
  cases final <;> first | exact Or.inl rfl | exact Or.inr rfl | cases hk

/-- What follows the clean-up, with or without a stash. -/
theorem fails_toRollback {n : ℕ} (s : Run β) (message : String) (hn : 1 ≤ n) :
    Fails n (toRollback s message) := by
  unfold toRollback
  split
  · exact ⟨⟨1, rfl, hn⟩, fun _ hfinal => by cases hfinal⟩
  · exact ⟨⟨0, rfl, n.zero_le⟩, fun final hfinal => by cases hfinal; rfl⟩

theorem Fails.step {ctx : RestoreContext} {n : ℕ} {s s' : Run β} {a : Settle β} (h : Fails n s)
    (hs : step ctx s a = some s') : ∃ m, n = m + 1 ∧ Fails m s' := by
  rcases h.left with ⟨k, hk, hle⟩
  cases hawait : s.await with
  | scrub message =>
      rw [hawait] at hk
      cases hk
      refine ⟨n - 1, by omega, ?_⟩
      -- with or without all of the target removed
      simp only [Restore.step, hawait] at hs
      split at hs
      case h_1 =>
          cases hs
          exact fails_toRollback _ message (by omega)
      case h_2 =>
          cases hs
          exact fails_toRollback _ message (by omega)
      case h_3 =>
          cases hs
  | rollback message =>
      rw [hawait] at hk
      cases hk
      refine ⟨n - 1, by omega, ?_⟩
      simp only [Restore.step, hawait] at hs
      split at hs
      case h_1 =>
          split at hs
          · cases hs
            exact ⟨⟨0, rfl, by omega⟩, fun final hfinal => by cases hfinal; rfl⟩
          · cases hs
      case h_2 =>
          cases hs
          exact ⟨⟨0, rfl, by omega⟩, fun final hfinal => by cases hfinal; rfl⟩
      case h_3 =>
          cases hs
  | ended final =>
      simp [Restore.step, hawait] at hs
  | _ =>
      rw [hawait] at hk
      cases hk

theorem Fails.run {ctx : RestoreContext} {n : ℕ} {s t : Run β} {as : List (Settle β)}
    (h : Fails n s) (hrun : (machine ctx).run s as = some t) : as.length ≤ n ∧ Fails n t := by
  induction as generalizing n s with
  | nil =>
      cases hrun
      exact ⟨Nat.zero_le n, h⟩
  | cons a as ih =>
      rcases (Machine.run_cons_eq_some _).1 hrun with ⟨u, hu, hrest⟩
      rcases h.step hu with ⟨m, rfl, hm⟩
      rcases ih hm hrest with ⟨hlength, hfails⟩
      rcases hfails.left with ⟨k, hk, hle⟩
      exact ⟨by simp; omega, ⟨⟨k, hk, by omega⟩, hfails.ended⟩⟩

/-- A failing run that has not ended can go on. -/
theorem Fails.goes {ctx : RestoreContext} {n : ℕ} {s : Run β} (h : Fails n s) :
    (∃ final, s.await = .ended final) ∨ ∃ a s', Restore.step ctx s a = some s' := by
  rcases h.left with ⟨k, hk, _⟩
  cases hawait : s.await with
  | scrub message =>
      exact Or.inr ⟨.ok, _, by simp only [Restore.step, hawait]; rfl⟩
  | rollback message =>
      exact Or.inr ⟨.fails "", _, by simp only [Restore.step, hawait]; rfl⟩
  | ended final =>
      exact Or.inl ⟨final, rfl⟩
  | _ =>
      rw [hawait] at hk
      cases hk

theorem fails_toCatch (s : Run β) (message : String) : Fails 2 (toCatch s message) :=
  ⟨⟨2, rfl, le_rfl⟩, nofun⟩

theorem extract_refused {ctx : RestoreContext} {s s' : Run β} {path : List Char}
    {isDirectory : Bool} (hawait : s.await = .nextEntry) (hbad : BadEntry path)
    (hs : step ctx s (.entry path isDirectory) = some s') : Fails 2 s' := by
  simp only [step, hawait, stepEntry, resolveZipEntryPath_bad hbad] at hs
  cases hs
  exact fails_toCatch s _

/-! ## Every extraction -/

/-- At every point of every extraction: what is created or written lies at the target or below it,
and an entry with an empty name or a `..` segment leads to the failure of the run, with nothing
created or written any more. -/
theorem extract_contained (ctx : RestoreContext) {s : Run β}
    (h : (machine ctx).Reachable (Extracts ctx) s) :
    (∀ x, s.await.creates s.fs x → Below ctx x) ∧
    (s.await.isExtraction = true → ∀ a s', step ctx s a = some s' → ∀ x, s'.fs x ≠ s.fs x →
      ∃ p, s.await.creates s.fs p ∧ (x = p ∨ s.fs.follow MAX_LINKS p = some x)) ∧
    ∀ path isDirectory s', s.await = .nextEntry → BadEntry path →
      step ctx s (.entry path isDirectory) = some s' →
        ∀ as t, (machine ctx).run s' as = some t →
          (∀ x, ¬t.await.creates t.fs x) ∧ as.length ≤ 2 ∧
          (∀ final, t.await = .ended final →
            t.status.state = final ∧ (final = .failed ∨ final = .rolledBack)) ∧
          ((∃ final, t.await = .ended final) ∨ ∃ a t', step ctx t a = some t') := by
  refine ⟨fun x hx => (reachable_contained h).creates hx,
    fun hext a s' hs x hx => extract_changes hext hs hx, ?_⟩
  intro path isDirectory s' hawait hbad hs as t hrun
  rcases (extract_refused hawait hbad hs).run hrun with ⟨hlength, hfails⟩
  refine ⟨hfails.creates, hlength, fun final hfinal => ?_, hfails.goes⟩
  exact ⟨hfails.ended final hfinal, hfails.final hfinal⟩

def zipStamp : List Char := "2026-01-01T00-00-00-000Z".toList

theorem zipStamp_noSlash : '/' ∉ zipStamp := by decide

/-- A directory, restored to `/tmp`. -/
def zipContext : RestoreContext where
  request :=
    { backupId := "b1", sourcePath := "plugins".toList, customPath := "/tmp".toList,
      isDir := true, confirmOverwrite := false }
  stamp := ⟨zipStamp, zipStamp_noSlash⟩
  cwd := "/".toList

def zipRun : Run ℕ :=
  { fs := fun x => if x <+: zipContext.targetAt then some .dir else none
    status := { state := .extracting, progress := 60, statusMessage := "Extracting ZIP…" }
    await := .nextEntry
    start := fun _ => none }

/-- The entry `a\b.json` is written to `/tmp/a/b.json`. -/
theorem extract_contained_entry :
    ∃ s, (machine zipContext).run zipRun [.entry "a\\b.json".toList false, .ok] = some s ∧
      s.await.creates s.fs (zipContext.targetAt ++ ["a".toList, "b.json".toList]) ∧
      Below zipContext (zipContext.targetAt ++ ["a".toList, "b.json".toList]) := by
  obtain ⟨s, hs⟩ : ∃ s, (machine zipContext).run zipRun
      [.entry "a\\b.json".toList false, .ok] = some s := ⟨_, rfl⟩
  have hmade : Extracts zipContext zipRun := ⟨rfl, fun x hx => by simp [zipRun, hx]⟩
  have hreach := Machine.Reachable.run (I := Extracts zipContext) (.init hmade) hs
  have hcreates : s.await.creates s.fs
      (zipContext.targetAt ++ ["a".toList, "b.json".toList]) := by
    cases hs
    show _ = _
    decide
  exact ⟨s, hs, hcreates, (extract_contained zipContext hreach).1 _ hcreates⟩

end Restore
end SignalKBackup
