import SignalKBackup.Lib.Machine
import SignalKBackup.Restore.Run

/-!
# Rollback — what a run that does not complete leaves behind

Once the stash rename has succeeded, the old entry lies at the safety path, out of reach of
everything the run writes (`Held`), until the rollback rename takes it back.  The clean-up removal
of the `catch` block does not ask whether there is a stash: a run that fails before it, on an entry
that `stat` did not report or that could not be renamed, removes the entry itself
(`scrub_without_stash`).  `Guarded` excludes that step, and every run without it keeps the entry
(`reachable_kept`).
-/

namespace SignalKBackup
namespace Restore

open Lib
open Posix
open FileTree

variable {β : Type}

/-! ## The stash out of reach -/

/-- The stash and the target are apart, and the target's directory is on the way to it. -/
structure Apart (ctx : RestoreContext) : Prop where
  disjoint : Disjoint ctx.targetAt ctx.safetyAt
  dirname : locate (dirname ctx.target.absoluteTarget) <+: ctx.targetAt

/-- A rename to the safety path is possible only when it is a sibling of the target. -/
theorem apart_of_renames {ctx : RestoreContext} {fs : FileTree Seg β}
    (h : renames fs ctx.targetAt ctx.safetyAt = true) : Apart ctx := by
  -- a rename cannot put an entry below itself
  have hnot : ¬ ctx.targetAt <+: ctx.safetyAt := by
    simpa using (Bool.and_eq_true_iff.1 h).2
  rcases safety_location ctx.target.absoluteTarget ctx.stamp with
    hbelow | ⟨dir, a, b, hne, htarget, hsafety, hdir⟩
  · exact absurd hbelow hnot
  · have hT : ctx.targetAt = dir ++ [a] := htarget
    have hS : ctx.safetyAt = dir ++ [b] := hsafety
    refine ⟨?_, ?_⟩
    · rw [hT, hS]
      exact Disjoint.siblings hne
    · rw [hdir, hT]
      exact List.prefix_append dir [a]

/-- The old entry lies at the safety path, and no link leads away from the target. -/
structure Held (ctx : RestoreContext) (s : Run β) : Prop where
  existed : (s.start ctx.targetAt).isSome = true
  content : s.fs.subtree ctx.safetyAt = s.start.subtree ctx.targetAt
  noLinks : NoLinks s.fs ctx.targetAt

/-- A path on the way to the target, or at or below it. -/
def Near (ctx : RestoreContext) (p : List Seg) : Prop :=
  p <+: ctx.targetAt ∨ ctx.targetAt <+: p

theorem Near.take {ctx : RestoreContext} {p : List Seg} (h : Near ctx p) (n : Nat) :
    Near ctx (p.take n) := by
  have htake : p.take n <+: p := List.take_prefix n p
  rcases h with hp | hp
  · exact Or.inl (htake.trans hp)
  · exact List.prefix_or_prefix_of_prefix htake hp

theorem Near.not_safety {ctx : RestoreContext} (hapart : Apart ctx) {p : List Seg}
    (h : Near ctx p) : ¬ ctx.safetyAt <+: p := by
  intro hsafety
  rcases h with hp | hp
  · exact hapart.disjoint.2 (hsafety.trans hp)
  · exact hapart.disjoint.not_prefix hp hsafety

theorem Held.mkdirs {ctx : RestoreContext} {s s' : Run β} (h : Held ctx s) (hapart : Apart ctx)
    {p : List Seg} (hp : Near ctx p) (hfs : s'.fs = s.fs.mkdirs p) (hstart : s'.start = s.start) :
    Held ctx s' := by
  constructor
  · rw [hstart]
    exact h.existed
  · rw [hfs, hstart, subtree_mkdirs (hp.not_safety hapart)]
    exact h.content
  · rw [hfs]
    exact h.noLinks.mkdirs p

theorem Held.put {ctx : RestoreContext} {s s' : Run β} (h : Held ctx s) (hapart : Apart ctx)
    {p q : List Seg} {bytes : β} (hp : ctx.targetAt <+: p) (hq : opens s.fs p = some q)
    (hfs : s'.fs = s.fs.put q (.file bytes)) (hstart : s'.start = s.start) : Held ctx s' := by
  -- no link leads away from the target, so the bytes land where they are sent
  have hfollow : s.fs.follow MAX_LINKS p = some p := h.noLinks.follow 39 hp
  have hqp : q = p := by
    unfold opens at hq
    rw [hfollow] at hq
    dsimp only at hq
    split at hq
    · cases hq
    · exact (Option.some.inj hq).symm
  subst hqp
  constructor
  · rw [hstart]
    exact h.existed
  · rw [hfs, hstart, subtree_put (hapart.disjoint.not_prefix hp)]
    exact h.content
  · rw [hfs]
    exact h.noLinks.put (by simp)

theorem Held.congr {ctx : RestoreContext} {s s' : Run β} (h : Held ctx s) (hfs : s'.fs = s.fs)
    (hstart : s'.start = s.start) : Held ctx s' := by
  constructor
  · rw [hstart]
    exact h.existed
  · rw [hfs, hstart]
    exact h.content
  · rw [hfs]
    exact h.noLinks

/-! ## What a run keeps -/

/-- The awaits that say nothing about the entry of the archive or the end of the run. -/
def Await.isPlain : Await → Bool
  | .fetch => true
  | .errorText _ => true
  | .mkdirTarget => true
  | .nextEntry => true
  | .mkdirDirname => true
  | .writeTarget => true
  | .dropStash => true
  | .scrub _ => true
  | _ => false

/-- What an ended run has kept; without a stash, only what was not there can be gone. -/
def Ended (ctx : RestoreContext) (s : Run β) (final : RunState) : Prop :=
  final = .completed ∨
    (final = .rolledBack ∧ (s.start ctx.targetAt).isSome = true ∧
      s.fs.subtree ctx.targetAt = s.start.subtree ctx.targetAt) ∨
    (final = .failed ∧
      (s.safetyStashed = true → (s.start ctx.targetAt).isSome = true ∧
        s.fs.subtree ctx.safetyAt = s.start.subtree ctx.targetAt) ∧
      (s.safetyStashed = false → s.start ctx.targetAt = none ∧
        (s.scrubbed = true → s.fs.subtree ctx.targetAt = fun _ => none)))

structure Safe (ctx : RestoreContext) (s : Run β) : Prop where
  begun : s.await = .stat ∨ s.await = .stash → s.fs = s.start ∧ s.safetyStashed = false
  apart : s.safetyStashed = true → Apart ctx
  held : s.safetyStashed = true → (∀ final, s.await ≠ .ended final) → Held ctx s
  entry : ∀ dest, s.await = .mkdirEntry dest ∨ s.await = .mkdirParent dest ∨
    s.await = .writeEntry dest → ctx.targetAt <+: locate dest ∧ Near ctx (locate (dirname dest))
  rollback : ∀ message, s.await = .rollback message → s.safetyStashed = true
  ended : ∀ final, s.await = .ended final → Ended ctx s final

theorem Safe.plain {ctx : RestoreContext} {s : Run β} (hplain : s.await.isPlain = true)
    (hapart : s.safetyStashed = true → Apart ctx) (hheld : s.safetyStashed = true → Held ctx s) :
    Safe ctx s := by
  have hne : ∀ w : Await, w.isPlain = false → s.await ≠ w := by
    rintro w hw rfl
    rw [hw] at hplain
    cases hplain
  constructor
  · rintro (h | h)
    · exact absurd h (hne _ rfl)
    · exact absurd h (hne _ rfl)
  · exact hapart
  · intro hst _
    exact hheld hst
  · rintro dest (h | h | h)
    · exact absurd h (hne _ rfl)
    · exact absurd h (hne _ rfl)
    · exact absurd h (hne _ rfl)
  · intro message h
    exact absurd h (hne _ rfl)
  · intro final h
    exact absurd h (hne _ rfl)

/-- An await inside the extraction of an entry. -/
theorem Safe.ofEntry {ctx : RestoreContext} {s : Run β} {dest : List Char}
    (hawait : s.await = .mkdirEntry dest ∨ s.await = .mkdirParent dest ∨
      s.await = .writeEntry dest)
    (hapart : s.safetyStashed = true → Apart ctx) (hheld : s.safetyStashed = true → Held ctx s)
    (hdest : ctx.targetAt <+: locate dest ∧ Near ctx (locate (dirname dest))) : Safe ctx s := by
  constructor
  · rintro (h | h) <;> rcases hawait with hw | hw | hw <;> rw [h] at hw <;> cases hw
  · exact hapart
  · intro hst _
    exact hheld hst
  · intro dest' h
    have hsame : dest' = dest := by
      rcases hawait with hw | hw | hw <;> rw [hw] at h <;> simpa [eq_comm] using h
    exact hsame ▸ hdest
  · intro message h
    rcases hawait with hw | hw | hw <;> rw [h] at hw <;> cases hw
  · intro final h
    rcases hawait with hw | hw | hw <;> rw [h] at hw <;> cases hw

theorem Safe.ofEnded {ctx : RestoreContext} {s : Run β} {final : RunState}
    (hawait : s.await = .ended final) (hapart : s.safetyStashed = true → Apart ctx)
    (hended : Ended ctx s final) : Safe ctx s := by
  constructor
  · rintro (h | h) <;> rw [hawait] at h <;> cases h
  · exact hapart
  · intro _ hne
    exact absurd hawait (hne final)
  · rintro dest (h | h | h) <;> rw [hawait] at h <;> cases h
  · intro message h
    rw [hawait] at h
    cases h
  · intro final' h
    rw [hawait] at h
    cases h
    exact hended

/-- A run between its stash and its end; what the next step needs of the state before. -/
structure Working (ctx : RestoreContext) (s : Run β) : Prop where
  apart : s.safetyStashed = true → Apart ctx
  held : s.safetyStashed = true → Held ctx s

theorem Working.toCatch {ctx : RestoreContext} {s : Run β} (h : Working ctx s) (message : String) :
    Safe ctx (toCatch s message) :=
  Safe.plain rfl h.apart fun hst => (h.held hst).congr rfl rfl

theorem Working.toCompleted {ctx : RestoreContext} {s : Run β} (h : Working ctx s) :
    Safe ctx (toCompleted s) := by
  -- with a stash the run still has to drop it
  cases hst : s.safetyStashed with
  | true =>
      have hplain : (Restore.toCompleted s).await.isPlain = true := by
        simp [Restore.toCompleted, hst, Await.isPlain]
      exact Safe.plain hplain h.apart fun hst => (h.held hst).congr rfl rfl
  | false =>
      have hawait : (Restore.toCompleted s).await = .ended .completed := by
        simp [Restore.toCompleted, hst]
      exact Safe.ofEnded hawait h.apart (Or.inl rfl)

theorem Working.mkdirs {ctx : RestoreContext} {s : Run β} (h : Working ctx s) {p : List Seg}
    (hp : s.safetyStashed = true → Near ctx p) (await : Await) :
    Working ctx { s with fs := s.fs.mkdirs p, await := await } :=
  ⟨h.apart, fun hst => (h.held hst).mkdirs (h.apart hst) (hp hst) rfl rfl⟩

theorem Working.put {ctx : RestoreContext} {s : Run β} (h : Working ctx s) {p q : List Seg}
    (hp : ctx.targetAt <+: p) (hq : opens s.fs p = some q) (bytes : β) :
    Working ctx { s with fs := s.fs.put q (.file bytes) } :=
  ⟨h.apart, fun hst => (h.held hst).put (h.apart hst) hp hq rfl rfl⟩

/-! ## One step -/

/-- The clean-up removal meets either a stash or a target where nothing was. -/
def Guarded (ctx : RestoreContext) (s : Run β) (_ : Settle β) : Prop :=
  ∀ message, s.await = .scrub message → s.safetyStashed = false → s.start ctx.targetAt = none

theorem Safe.working {ctx : RestoreContext} {s : Run β} (h : Safe ctx s)
    (hne : ∀ final, s.await ≠ .ended final) : Working ctx s :=
  ⟨h.apart, fun hst => h.held hst hne⟩

theorem targetAt_resolve (ctx : RestoreContext) :
    locate (resolve ctx.cwd [ctx.target.absoluteTarget]) = ctx.targetAt :=
  resolve_one _ (resolveHostTarget_isAbsolute _ _ _ _ _)

/-- The stash rename takes the old entry out of the target. -/
theorem held_stashed {ctx : RestoreContext} {s s' : Run β}
    (hren : renames s.fs ctx.targetAt ctx.safetyAt = true) (hstart : s.fs = s.start)
    (hfs : s'.fs = s.fs.move ctx.targetAt ctx.safetyAt) (hstart' : s'.start = s.start) :
    Held ctx s' := by
  have hapart := apart_of_renames hren
  constructor
  · rw [hstart', ← hstart]
    exact (Bool.and_eq_true_iff.1 hren).1
  · rw [hfs, subtree_move_dst, hstart', hstart]
  · rw [hfs]
    exact NoLinks.of_subtree (subtree_move_src hapart.disjoint)

theorem Safe.scrubbed {ctx : RestoreContext} {s : Run β} (h : Safe ctx s) {message : String}
    (hawait : s.await = .scrub message)
    (hguard : s.safetyStashed = false → s.start ctx.targetAt = none) (fs : FileTree Seg β)
    (ok : Bool) (hcontent : Disjoint ctx.targetAt ctx.safetyAt →
      fs.subtree ctx.safetyAt = s.fs.subtree ctx.safetyAt)
    (hnoLinks : NoLinks s.fs ctx.targetAt → NoLinks fs ctx.targetAt)
    (hempty : ok = true → fs.subtree ctx.targetAt = fun _ => none) :
    Safe ctx (toRollback { s with fs := fs, scrubbed := ok } message) := by
  have hwork := h.working (by simp [hawait])
  have hheld : s.safetyStashed = true → Held ctx { s with fs := fs, scrubbed := ok } := by
    intro hst
    have hold := hwork.held hst
    exact ⟨hold.existed, (hcontent (h.apart hst).disjoint).trans hold.content,
      hnoLinks hold.noLinks⟩
  -- with a stash the rollback follows; without one `Guarded` says that nothing was there
  by_cases hst : s.safetyStashed = true
  · have hroll : toRollback { s with fs := fs, scrubbed := ok } message =
        { s with
          fs := fs, scrubbed := ok
          status := { s.status with state := .rollingBack, statusMessage := "Rolling back…" }
          await := .rollback message } := by
      simp [toRollback, hst]
    rw [hroll]
    constructor
    · rintro (hw | hw) <;> cases hw
    · exact h.apart
    · intro _ _
      exact (hheld hst).congr rfl rfl
    · rintro dest (hw | hw | hw) <;> cases hw
    · intro _ _
      exact hst
    · intro final hw
      cases hw
  · have hroll : toRollback { s with fs := fs, scrubbed := ok } message =
        toFailed { s with fs := fs, scrubbed := ok } message := by
      simp [toRollback, hst]
    rw [hroll]
    have hended : Ended ctx (toFailed { s with fs := fs, scrubbed := ok } message) .failed :=
      Or.inr (Or.inr ⟨rfl, fun htrue => absurd htrue hst, fun hfalse => ⟨hguard hfalse, hempty⟩⟩)
    exact Safe.ofEnded rfl h.apart hended

/-- What is made lies on the way to the target, or below it. -/
theorem Safe.making {ctx : RestoreContext} {s : Run β} (h : Safe ctx s) {p : List Seg} {next : Await}
    (hmaking : s.await.making ctx = some (p, next)) (hst : s.safetyStashed = true) : Near ctx p := by
  unfold Await.making at hmaking
  split at hmaking
  · cases hmaking
    exact Or.inl (List.prefix_refl _)
  · rename_i dest hawait
    cases hmaking
    exact Or.inr (h.entry dest (Or.inl hawait)).1
  · rename_i dest hawait
    cases hmaking
    exact (h.entry dest (Or.inr (Or.inl hawait))).2
  · cases hmaking
    exact Or.inl (h.apart hst).dirname
  · cases hmaking

/-- What is written lies at the target, or below it. -/
theorem Safe.writing {ctx : RestoreContext} {s : Run β} (h : Safe ctx s) {p : List Seg}
    (hwriting : s.await.writing ctx = some p) : ctx.targetAt <+: p := by
  unfold Await.writing at hwriting
  split at hwriting
  · rename_i dest hawait
    cases hwriting
    exact (h.entry dest (Or.inr (Or.inr hawait))).1
  · cases hwriting
    exact List.prefix_refl _
  · cases hwriting

/-- The await behind a made directory. -/
theorem Safe.made {ctx : RestoreContext} {s : Run β} (h : Safe ctx s) {p : List Seg} {next : Await}
    (hmaking : s.await.making ctx = some (p, next)) {fs : FileTree Seg β}
    (hwork : Working ctx { s with fs := fs, await := next }) :
    Safe ctx { s with fs := fs, await := next } := by
  unfold Await.making at hmaking
  split at hmaking
  · cases hmaking
    exact Safe.plain rfl hwork.apart hwork.held
  · cases hmaking
    exact Safe.plain rfl hwork.apart hwork.held
  · rename_i dest hawait
    cases hmaking
    exact Safe.ofEntry (Or.inr (Or.inr rfl)) hwork.apart hwork.held
      (h.entry dest (Or.inr (Or.inl hawait)))
  · cases hmaking
    exact Safe.plain rfl hwork.apart hwork.held
  · cases hmaking

theorem safe_step {ctx : RestoreContext} {s s' : Run β} {a : Settle β} (h : Safe ctx s)
    (hguard : Guarded ctx s a) (hs : step ctx s a = some s') : Safe ctx s' := by
  cases RunStep.of_step hs with
  | found hawait _ =>
      rcases h.begun (Or.inl hawait) with ⟨hstart, hst⟩
      constructor
      · intro _
        exact ⟨hstart, hst⟩
      · exact h.apart
      · intro htrue
        exact absurd htrue (by simp [hst])
      · rintro dest (hw | hw | hw) <;> cases hw
      · intro message hw
        cases hw
      · intro final hw
        cases hw
  -- no stash has been made
  | notFound message hawait =>
      have hst := (h.begun (Or.inl hawait)).2
      exact Safe.plain rfl h.apart fun htrue => absurd htrue (by simp [toFetch, hst])
  | stashed hawait hren =>
      have hstart := (h.begun (Or.inr hawait)).1
      exact Safe.plain rfl (fun _ => apart_of_renames hren) fun _ =>
        held_stashed hren hstart rfl rfl
  | throws message hthrows =>
      have hwork := h.working (by rintro final hw; rw [hw] at hthrows; cases hthrows)
      exact hwork.toCatch message
  | downloads hawait =>
      have hwork := h.working (by simp [hawait])
      unfold toTarget
      split
      · exact Safe.plain rfl hwork.apart fun hst => (hwork.held hst).congr rfl rfl
      · exact Safe.plain rfl hwork.apart fun hst => (hwork.held hst).congr rfl rfl
  | refused status hawait =>
      have hwork := h.working (by simp [hawait])
      exact Safe.plain rfl hwork.apart fun hst => (hwork.held hst).congr rfl rfl
  | makes hmaking _ =>
      have hwork := h.working (by rintro final hw; rw [hw] at hmaking; cases hmaking)
      exact h.made hmaking (hwork.mkdirs (h.making hmaking) _)
  | makesSome levels message hmaking =>
      have hwork := h.working (by rintro final hw; rw [hw] at hmaking; cases hmaking)
      have hpart := hwork.mkdirs (fun hst => (h.making hmaking hst).take levels) s.await
      exact hpart.toCatch message
  | @entry path dest isDirectory hawait hdest =>
      have hwork := h.working (by simp [hawait])
      -- an accepted entry stays at the target or below it
      have hloc := zipEntry_location rfl hdest
      have hdir := zipEntry_dirname rfl hdest
      rw [targetAt_resolve] at hloc hdir
      have hentry : (if isDirectory then Await.mkdirEntry dest else .mkdirParent dest) =
          .mkdirEntry dest ∨ (if isDirectory then Await.mkdirEntry dest else .mkdirParent dest) =
            .mkdirParent dest ∨ (if isDirectory then Await.mkdirEntry dest
              else .mkdirParent dest) = .writeEntry dest := by
        cases isDirectory <;> simp
      exact Safe.ofEntry hentry hwork.apart
        (fun hst => (hwork.held hst).congr rfl rfl) ⟨hloc, hdir⟩
  | extracted hawait =>
      exact (h.working (by simp [hawait])).toCompleted
  | wroteEntry bytes hawait hopens =>
      have hwork := h.working (by simp [hawait])
      have hput := hwork.put (h.writing (by rw [hawait]; rfl)) hopens bytes
      exact Safe.plain rfl hput.apart fun hst => (hput.held hst).congr rfl rfl
  | wroteTarget bytes hawait hopens =>
      have hwork := h.working (by simp [hawait])
      exact (hwork.put (List.prefix_refl _) hopens bytes).toCompleted
  | wroteSome bytes message hwriting hopens =>
      have hwork := h.working (by rintro final hw; rw [hw] at hwriting; cases hwriting)
      exact (hwork.put (h.writing hwriting) hopens bytes).toCatch message
  | dropped _ =>
      exact Safe.ofEnded rfl h.apart (Or.inl rfl)
  | droppedSome keep _ =>
      exact Safe.ofEnded rfl h.apart (Or.inl rfl)
  | scrubbed hawait =>
      exact h.scrubbed hawait (hguard _ hawait) _ true subtree_remove (fun hno => hno.remove _)
        fun _ => subtree_remove_self
  | scrubbedSome keep hawait =>
      exact h.scrubbed hawait (hguard _ hawait) _ false (subtree_removeSome keep)
        (fun hno => hno.removeSome keep _) (by simp)
  | rolledBack hawait _ =>
      have hheld := h.held (h.rollback _ hawait) (by simp [hawait])
      refine Safe.ofEnded rfl h.apart (Or.inr (Or.inl ⟨rfl, hheld.existed, ?_⟩))
      exact (subtree_move_dst _ _).trans hheld.content
  | @notRolledBack message error hawait =>
      -- the rollback rename fails: the old entry stays at the safety path
      have hst := h.rollback _ hawait
      have hheld := h.held hst (by simp [hawait])
      have hstashed : (toFailed s message).safetyStashed = true := hst
      exact Safe.ofEnded rfl h.apart (Or.inr (Or.inr ⟨rfl,
        fun _ => ⟨hheld.existed, hheld.content⟩,
        fun hfalse => absurd hstashed (by simp [hfalse])⟩))

/-! ## Runs -/

/-- The machine of one run. -/
def machine (ctx : RestoreContext) : Machine (Run β) (Settle β) :=
  { step := step ctx }

/-- A run at its beginning, on any files. -/
def Begun (s : Run β) : Prop :=
  ∃ fs status, s = { fs := fs, status := status, await := .stat, start := fs }

/-- What a run that did not complete owes: the old entry, whole, or else an empty place. -/
def Kept (ctx : RestoreContext) (s : Run β) : Prop :=
  ∀ final, s.await = .ended final → final ≠ .completed →
    (final = .failed ∨ final = .rolledBack) ∧
      ((s.start ctx.targetAt).isSome = true →
        (final = .rolledBack →
          s.fs.subtree ctx.targetAt = s.start.subtree ctx.targetAt) ∧
        (final = .failed →
          s.fs.subtree ctx.targetAt = s.start.subtree ctx.targetAt ∨
            s.fs.subtree ctx.safetyAt = s.start.subtree ctx.targetAt)) ∧
      (s.start ctx.targetAt = none → s.scrubbed = true →
        s.fs.subtree ctx.targetAt = fun _ => none)

theorem Ended.kept {ctx : RestoreContext} {s : Run β} {final : RunState} (h : Ended ctx s final)
    (hne : final ≠ .completed) :
    (final = .failed ∨ final = .rolledBack) ∧
      ((s.start ctx.targetAt).isSome = true →
        (final = .rolledBack →
          s.fs.subtree ctx.targetAt = s.start.subtree ctx.targetAt) ∧
        (final = .failed →
          s.fs.subtree ctx.targetAt = s.start.subtree ctx.targetAt ∨
            s.fs.subtree ctx.safetyAt = s.start.subtree ctx.targetAt)) ∧
      (s.start ctx.targetAt = none → s.scrubbed = true →
        s.fs.subtree ctx.targetAt = fun _ => none) := by
  rcases h with hdone | ⟨rfl, hsome, hsame⟩ | ⟨rfl, hstash, hbare⟩
  · exact absurd hdone hne
  · refine ⟨Or.inr rfl, fun _ => ⟨fun _ => hsame, nofun⟩, ?_⟩
    intro hnone
    rw [hnone] at hsome
    cases hsome
  · -- failed: the stash has the old content, or nothing was there
    refine ⟨Or.inl rfl, ?_, ?_⟩
    · intro hsome
      refine ⟨nofun, fun _ => Or.inr ?_⟩
      cases hst : s.safetyStashed with
      | true =>
          exact (hstash hst).2
      | false =>
          rw [(hbare hst).1] at hsome
          cases hsome
    · intro hnone
      cases hst : s.safetyStashed with
      | true =>
          have hsome := (hstash hst).1
          rw [hnone] at hsome
          cases hsome
      | false =>
          exact (hbare hst).2

/-- A run that fails before its stash, and whose clean-up removal succeeds, has destroyed what was
at the target. -/
theorem scrub_without_stash {ctx : RestoreContext} {s s' : Run β} {message : String}
    (hawait : s.await = .scrub message) (hst : s.safetyStashed = false)
    (hsome : (s.start ctx.targetAt).isSome = true) (hfree : s.fs ctx.safetyAt = none)
    (hs : step ctx s .ok = some s') : ¬ Kept ctx s' := by
  have hs' : s' = toFailed { s with fs := s.fs.remove ctx.targetAt, scrubbed := true } message := by
    simpa [step, hawait, toRollback, hst] using hs.symm
  intro hkept
  have hfailed := (hkept .failed (by rw [hs']; rfl) nofun).2.1 (by rw [hs']; exact hsome)
  -- neither place holds the entry: the removal took the one, the other is free
  rcases hfailed.2 rfl with htarget | hsafety
  · have hroot := congrFun htarget []
    rw [hs'] at hroot
    have hgone : (s.fs.remove ctx.targetAt).subtree ctx.targetAt [] = none := by
      rw [subtree_remove_self]
    have hstart : s.start ctx.targetAt = none := by
      have hsame : s.start.subtree ctx.targetAt [] = none := hroot.symm.trans hgone
      simpa [subtree] using hsame
    rw [hstart] at hsome
    cases hsome
  · have hroot := congrFun hsafety []
    rw [hs'] at hroot
    have hgone : (s.fs.remove ctx.targetAt).subtree ctx.safetyAt [] = none := by
      simp [subtree, remove, hfree]
    have hstart : s.start ctx.targetAt = none := by
      have hsame : s.start.subtree ctx.targetAt [] = none := hroot.symm.trans hgone
      simpa [subtree] using hsame
    rw [hstart] at hsome
    cases hsome

/-- In every run whose steps are all `Guarded`, what was at the target when the run began is still
there, or at the safety path, unless the run completed. -/
theorem reachable_kept (ctx : RestoreContext) (s : Run β)
    (h : (machine ctx).ReachableUnder (Guarded ctx) Begun s) : Kept ctx s := by
  have hsafe : Safe ctx s := by
    refine h.invariant (P := Safe ctx) ?_ ?_
    · rintro s ⟨fs, status, rfl⟩
      constructor
      · intro _
        exact ⟨rfl, rfl⟩
      · intro hst
        cases hst
      · intro hst
        cases hst
      · rintro dest (hw | hw | hw) <;> cases hw
      · intro message hw
        cases hw
      · intro final hw
        cases hw
    · intro s a s' hsafe hguard hs
      exact safe_step hsafe hguard hs
  intro final hfinal hne
  exact (hsafe.ended final hfinal).kept hne

/-- A file restore over a file that is already there. -/
def chartRestore : RestoreContext where
  request :=
    { backupId := "b1", sourcePath := "chart.db".toList, customPath := "/d/chart.db".toList,
      isDir := false, confirmOverwrite := true }
  stamp := ⟨"2026-01-01T00-00-00-000Z".toList, by decide⟩
  cwd := "/".toList

def chartFiles : FileTree Seg Nat :=
  fun p =>
    if p = ["d".toList, "chart.db".toList] then some (.file 1)
    else if p = [] ∨ p = ["d".toList] then some .dir
    else none

def chartRun : Run Nat :=
  { fs := chartFiles, start := chartFiles, await := .stat
    status := { state := .preparing, progress := 0, statusMessage := "Preparing host-restore…" } }

/-- The download fails after the stash: the file is put back. -/
theorem reachable_kept_rolledBack :
    ∃ s, (machine chartRestore).run chartRun [.ok, .ok, .fails "offline", .ok, .ok] = some s ∧
      s.await = .ended .rolledBack ∧
        s.fs.subtree chartRestore.targetAt [] = chartFiles.subtree chartRestore.targetAt [] := by
  obtain ⟨s, hs⟩ : ∃ s, (machine chartRestore).run chartRun
      [.ok, .ok, .fails "offline", .ok, .ok] = some s := ⟨_, rfl⟩
  have hmeets : (machine chartRestore).Meets (Guarded chartRestore) chartRun
      [.ok, .ok, .fails "offline", .ok, .ok] := by
    refine ⟨(fun _ hm => by cases hm), ?_⟩
    rintro _ ⟨⟩
    refine ⟨(fun _ hm => by cases hm), ?_⟩
    rintro _ ⟨⟩
    refine ⟨(fun _ hm => by cases hm), ?_⟩
    rintro _ ⟨⟩
    refine ⟨(fun _ _ hst => by cases hst), ?_⟩
    rintro _ ⟨⟩
    exact ⟨(fun _ hm => by cases hm), fun _ _ => trivial⟩
  have hreach := Machine.ReachableUnder.run (I := Begun) (.init ⟨_, _, rfl⟩) hmeets hs
  have hkept := reachable_kept chartRestore s hreach
  cases hs
  have hback := ((hkept .rolledBack rfl nofun).2.1 rfl).1 rfl
  exact ⟨_, rfl, rfl, congrFun hback []⟩

/-- The file cannot be renamed: the clean-up removal destroys it. -/
theorem reachable_not_kept :
    ¬ ∀ (ctx : RestoreContext) (s : Run Nat), (machine ctx).Reachable Begun s → Kept ctx s := by
  intro hkept
  obtain ⟨s, hs⟩ : ∃ s, (machine chartRestore).run chartRun [.ok, .fails "EBUSY", .ok] = some s :=
    ⟨_, rfl⟩
  have hreach := Machine.Reachable.run (I := Begun) (.init ⟨_, _, rfl⟩) hs
  have hlost := hkept chartRestore s hreach
  cases hs
  rcases ((hlost .failed rfl nofun).2.1 rfl).2 rfl with htarget | hsafety
  · exact absurd (congrFun htarget []) (by decide)
  · exact absurd (congrFun hsafety []) (by decide)

end Restore
end SignalKBackup
