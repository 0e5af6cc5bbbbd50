import SignalKBackup.Restore.SingleFlight

/-!
# Report — what `GET /api/restore-partial-host/status` says

The status is one record that every request and every run writes to.  `Tells` says that it is a
true account of a task: it names the request, and its state and progress are those of the await the
task stands at.

* `run_tells`: one step of a run keeps the account true, and the progress does not go back.
* `reachable_reported`: whatever the interleaving, the status is a true account of the task that
  holds the slot; while none does, it is idle or tells how a run has ended.
-/

namespace SignalKBackup
namespace Restore

open Lib
open Posix

variable {β : Type}

/-! ## A true account -/

/-- The state and the progress of a run that has met no error. -/
def Await.stage : Await → Option (RunState × ℕ)
  | .stat => some (.preparing, 0)
  | .stash => some (.preparing, 0)
  | .fetch => some (.streaming, 25)
  | .errorText _ => some (.streaming, 25)
  | .mkdirTarget => some (.extracting, 60)
  | .nextEntry => some (.extracting, 60)
  | .mkdirEntry _ => some (.extracting, 60)
  | .mkdirParent _ => some (.extracting, 60)
  | .writeEntry _ => some (.extracting, 60)
  | .mkdirDirname => some (.streaming, 60)
  | .writeTarget => some (.streaming, 60)
  | .dropStash => some (.completed, 100)
  | .ended .completed => some (.completed, 100)
  | _ => none

/-- What the status shows of a run at an await. -/
def Await.Shows (w : Await) (st : HostRestoreStatus) : Prop :=
  match w with
  -- the error is shown once the clean-up is over
  | .scrub _ => st.error = none ∧ st.state.isRunning = true ∧ st.state ≠ .rollingBack ∧ st.progress ≤ 60
  | .rollback _ => st.error = none ∧ st.state = .rollingBack ∧ st.progress ≤ 60
  | .ended .failed => st.error.isSome = true ∧ st.state = .failed ∧ st.progress ≤ 60
  | .ended .rolledBack => st.error.isSome = true ∧ st.state = .rolledBack ∧ st.progress ≤ 60
  | w => st.error = none ∧ w.stage = some (st.state, st.progress)

def Phase.Shows (phase : Phase) (st : HostRestoreStatus) : Prop :=
  match phase with
  | .running w => w.Shows st
  | .answered _ => False
  | _ => st.error = none ∧ st.state = .preparing ∧ st.progress = 0

structure Names (ctx : RestoreContext) (st : HostRestoreStatus) : Prop where
  backupId : st.backupId = some ctx.request.backupId
  sourcePath : st.sourcePath = some ctx.request.sourcePath
  targetPath : st.targetPath = some ctx.target.absoluteTarget

structure Tells (t : Task β) (st : HostRestoreStatus) : Prop where
  names : Names t.ctx st
  shows : t.phase.Shows st

/-! ## One run -/

/-- The awaits whose status shows the stage they belong to. -/
theorem Await.Shows.of_stage {w : Await} {st : HostRestoreStatus} (herror : st.error = none)
    (hstage : w.stage = some (st.state, st.progress)) : w.Shows st := by
  cases w with
  | ended final =>
      cases final with
      | completed =>
          exact ⟨herror, hstage⟩
      | _ =>
          cases hstage
  | scrub message =>
      cases hstage
  | rollback message =>
      cases hstage
  | _ =>
      exact ⟨herror, hstage⟩

/-- An await whose error is caught has a stage before the end. -/
theorem Await.Shows.throws {w : Await} {st : HostRestoreStatus} (h : w.Shows st)
    (hthrows : w.throws = true) (message : String) : (Await.scrub message).Shows st := by
  cases w with
  | stat => cases hthrows
  | dropStash => cases hthrows
  | scrub message => cases hthrows
  | rollback message => cases hthrows
  | ended final => cases hthrows
  | _ =>
      rcases h with ⟨herror, hstage⟩
      have hpair := Prod.mk.inj (Option.some.inj hstage)
      refine ⟨herror, ?_, ?_, ?_⟩
      · rw [← hpair.1]
        rfl
      · rw [← hpair.1]
        exact nofun
      · simp [← hpair.2]

/-- The stage behind a made directory is the one before it. -/
theorem Await.making_stage {ctx : RestoreContext} {w next : Await} {p : List Seg}
    (h : w.making ctx = some (p, next)) : next.stage = w.stage ∧ w.throws = true := by
  cases w <;> first | (cases h; exact ⟨rfl, rfl⟩) | cases h

/-- While a run goes on towards its end, its stage is what the status shows. -/
theorem Await.Shows.stage {w : Await} {st : HostRestoreStatus} (h : w.Shows st)
    (hthrows : w.throws = true) : st.error = none ∧ w.stage = some (st.state, st.progress) := by
  cases w <;> first | exact h | cases hthrows

section Step

variable {ctx : RestoreContext} {s s' : Run β} {a : Settle β}

theorem toCompleted_shows (s : Run β) (herror : s.status.error = none) :
    (toCompleted s).await.Shows (toCompleted s).status := by
  refine .of_stage herror ?_
  unfold toCompleted
  dsimp only
  split <;> rfl

theorem toTarget_shows (isDir : Bool) (s : Run β) (herror : s.status.error = none) :
    (toTarget isDir s).await.Shows (toTarget isDir s).status := by
  refine .of_stage ?_ ?_
  · unfold toTarget
    split <;> exact herror
  · unfold toTarget
    split <;> rfl

theorem toRollback_shows {s : Run β} {message : String} (herror : s.status.error = none)
    (hprogress : s.status.progress ≤ 60) :
    (toRollback s message).await.Shows (toRollback s message).status := by
  unfold toRollback
  split
  case isTrue =>
      exact ⟨herror, rfl, hprogress⟩
  case isFalse =>
      exact ⟨rfl, rfl, hprogress⟩

/-- The fields that a run leaves as its handler wrote them. -/
structure Continued (st st' : HostRestoreStatus) : Prop where
  backupId : st'.backupId = st.backupId
  sourcePath : st'.sourcePath = st.sourcePath
  targetPath : st'.targetPath = st.targetPath
  progress : st.progress ≤ st'.progress

theorem Continued.refl (st : HostRestoreStatus) : Continued st st :=
  ⟨rfl, rfl, rfl, le_rfl⟩

theorem Continued.names {st st' : HostRestoreStatus} (h : Continued st st') (hnames : Names ctx st) :
    Names ctx st' :=
  ⟨h.backupId.trans hnames.backupId, h.sourcePath.trans hnames.sourcePath,
    h.targetPath.trans hnames.targetPath⟩

theorem toRollback_continued {s : Run β} {st : HostRestoreStatus} (hsame : s.status = st)
    (message : String) : Continued st (toRollback s message).status := by
  subst hsame
  unfold toRollback
  split <;> exact ⟨rfl, rfl, rfl, le_rfl⟩

theorem toTarget_continued (s : Run β) (isDir : Bool) (hprogress : s.status.progress ≤ 60) :
    Continued s.status (toTarget isDir s).status := by
  unfold toTarget
  split <;> exact ⟨rfl, rfl, rfl, hprogress⟩

theorem toCompleted_continued (s : Run β) (hprogress : s.status.progress ≤ 60) :
    Continued s.status (toCompleted s).status :=
  ⟨rfl, rfl, rfl, hprogress.trans (show 60 ≤ 100 by decide)⟩

/-- Before the end of a run the progress is 60 at most. -/
theorem Await.Shows.progress {w : Await} {st : HostRestoreStatus} (h : w.Shows st)
    (hthrows : w.throws = true) : st.progress ≤ 60 :=
  (h.throws hthrows "").2.2.2

/-- One step of a run keeps the account true, and the progress does not go back. -/
theorem run_shows (h : s.await.Shows s.status) (hs : step ctx s a = some s') :
    s'.await.Shows s'.status ∧ Continued s.status s'.status := by
  cases RunStep.of_step hs with
  | found hawait _ =>
      rw [hawait] at h
      exact ⟨h, .refl _⟩
  | notFound message hawait =>
      rw [hawait] at h
      exact ⟨⟨h.1, rfl⟩, rfl, rfl, rfl, by simp [← (Prod.mk.inj (Option.some.inj h.2)).2, toFetch]⟩
  | stashed hawait _ =>
      rw [hawait] at h
      exact ⟨⟨h.1, rfl⟩, rfl, rfl, rfl, by simp [← (Prod.mk.inj (Option.some.inj h.2)).2, toFetch]⟩
  | throws message hthrows =>
      exact ⟨h.throws hthrows message, .refl _⟩
  | downloads hawait =>
      rw [hawait] at h
      exact ⟨toTarget_shows _ s h.1, toTarget_continued s _ (h.progress rfl)⟩
  | refused status hawait =>
      rw [hawait] at h
      exact ⟨h, .refl _⟩
  | makes hmaking _ =>
      rcases Await.making_stage hmaking with ⟨hstage, hthrows⟩
      rcases h.stage hthrows with ⟨herror, hshown⟩
      exact ⟨.of_stage herror (hstage.trans hshown), .refl _⟩
  | makesSome levels message hmaking =>
      exact ⟨h.throws (Await.making_stage hmaking).2 message, .refl _⟩
  | entry isDirectory hawait _ =>
      rw [hawait] at h
      refine ⟨?_, .refl _⟩
      cases isDirectory <;> exact h
  | extracted hawait =>
      rw [hawait] at h
      exact ⟨toCompleted_shows s h.1, toCompleted_continued s (h.progress rfl)⟩
  | wroteEntry bytes hawait _ =>
      rw [hawait] at h
      exact ⟨h, .refl _⟩
  | wroteTarget bytes hawait _ =>
      rw [hawait] at h
      exact ⟨toCompleted_shows _ h.1, toCompleted_continued _ (h.progress rfl)⟩
  | wroteSome bytes message hwriting _ =>
      exact ⟨h.throws (writing_throws hwriting) message, .refl _⟩
  | dropped hawait =>
      rw [hawait] at h
      exact ⟨h, .refl _⟩
  | droppedSome keep hawait =>
      rw [hawait] at h
      exact ⟨h, .refl _⟩
  | scrubbed hawait =>
      rw [hawait] at h
      exact ⟨toRollback_shows h.1 h.2.2.2, toRollback_continued (by rfl) _⟩
  | scrubbedSome keep hawait =>
      rw [hawait] at h
      exact ⟨toRollback_shows h.1 h.2.2.2, toRollback_continued (by rfl) _⟩
  | rolledBack hawait _ =>
      rw [hawait] at h
      exact ⟨⟨rfl, rfl, h.2.2⟩, rfl, rfl, rfl, le_rfl⟩
  | notRolledBack error hawait =>
      rw [hawait] at h
      exact ⟨⟨rfl, rfl, h.2.2⟩, rfl, rfl, rfl, le_rfl⟩

end Step

theorem run_tells {s : Server β} {t : Task β} {w : Await} {a : Settle β} {r : Run β}
    (h : Tells t s.status) (hphase : t.phase = .running w) (hr : step t.ctx (t.run s w) a = some r) :
    Tells (t.putRun r) r.status ∧ s.status.progress ≤ r.status.progress := by
  have hbefore : w.Shows s.status := by
    have hshows := h.shows
    rw [hphase] at hshows
    exact hshows
  rcases run_shows (s := t.run s w) hbefore hr with ⟨hafter, hcontinued⟩
  exact ⟨⟨hcontinued.names h.names, hafter⟩, hcontinued.progress⟩

/-! ## The routes -/

/-- The status is how a run has ended. -/
def EndTold (s : Server β) : Prop :=
  ∃ t ∈ s.tasks, ∃ w, t.phase = .running w ∧ w.holds = false ∧ Tells t s.status

structure Told (s : Server β) : Prop where
  holder : ∀ (i : ℕ) (t : Task β), s.tasks[i]? = some t → t.holds = true → Tells t s.status
  free : s.status.state.isRunning = false → s.status = idleStatus ∨ EndTold s

theorem preparing_tells (ctx : RestoreContext) {t : Task β} (hctx : t.ctx = ctx)
    (hphase : t.phase = .probing ∨ t.phase = .running .stat) : Tells t (preparingStatus ctx) := by
  refine ⟨hctx ▸ ⟨rfl, rfl, rfl⟩, ?_⟩
  rcases hphase with hp | hp
  · rw [hp]
    exact ⟨rfl, rfl, rfl⟩
  · rw [hp]
    exact ⟨rfl, rfl⟩

section Steps

variable {cwd : List Char} {s s' : Server β} {a : Action β}

/-- A new request takes the free slot. -/
theorem Told.reserved (hkept : SlotKept s) (hfree : s.status.state.isRunning = false)
    {ctx : RestoreContext} {t : Task β} (hctx : t.ctx = ctx)
    (hphase : t.phase = .probing ∨ t.phase = .running .stat)
    (hstatus : s'.status = preparingStatus ctx) (htasks : s'.tasks = s.tasks ++ [t]) : Told s' := by
  constructor
  · intro i u hu hholds
    rw [htasks] at hu
    rcases getElem?_concat_cases hu with hold | ⟨_, rfl⟩
    · rw [Exclusive.free hkept.exclusive hfree hold] at hholds
      cases hholds
    · rw [hstatus]
      exact preparing_tells ctx hctx hphase
  · intro hrunning
    rw [hstatus] at hrunning
    cases hrunning

/-- The status has been cleared, and nobody holds the slot. -/
theorem Told.cleared (hstatus : s'.status = idleStatus) (hnone : ∀ i, ¬s'.Holds i) : Told s' :=
  ⟨fun i t ht hholds => absurd ⟨t, ht, hholds⟩ (hnone i), fun _ => Or.inl hstatus⟩

/-- The holder of the slot goes on. -/
theorem Told.goes (hkept : SlotKept s) {i : ℕ} {t t' : Task β} (ht : s.tasks[i]? = some t)
    (hholds : t.holds = true) (htasks : s'.tasks = s.tasks.set i t') (htells : Tells t' s'.status)
    (hrun : s'.status.state.isRunning = false → ∃ w, t'.phase = .running w ∧ w.holds = false) :
    Told s' := by
  constructor
  · intro j u hu huholds
    rw [htasks] at hu
    rcases getElem?_set_cases hu with ⟨_, rfl⟩ | ⟨hji, hold⟩
    · exact htells
    · exact absurd (hkept.one ⟨u, hold, huholds⟩ ⟨t, ht, hholds⟩) hji
  · intro hfree
    rcases hrun hfree with ⟨w, hphase, hw⟩
    refine Or.inr ⟨t', ?_, w, hphase, hw, htells⟩
    rcases List.getElem?_eq_some_iff.1 ht with ⟨hlt, _⟩
    rw [htasks]
    exact List.mem_set hlt t'

/-- A run that has given the slot up drops its stash. -/
theorem Told.released (h : Told s) {i : ℕ} {t : Task β} {w : Await} {a : Settle β} {r : Run β}
    (ht : s.tasks[i]? = some t) (hphase : t.phase = .running w)
    (hr : step t.ctx (t.run s w) a = some r) (hno : w.holds = false) : Told (s.putRun i t r) := by
  rcases step_released hr hno with ⟨hafter, hsame, _⟩
  have hstatus : (s.putRun i t r).status = s.status := hsame
  constructor
  · intro j u hu hholds
    rw [hstatus]
    rcases getElem?_set_cases hu with ⟨_, rfl⟩ | ⟨_, hold⟩
    · have hnot : r.await.holds = true := hholds
      rw [hafter] at hnot
      cases hnot
    · exact h.holder j u hold hholds
  · intro hfree
    rw [hstatus] at hfree
    rcases h.free hfree with hidle | ⟨u, hu, w', hu', hw', htells⟩
    · exact Or.inl (hstatus.trans hidle)
    · refine Or.inr ?_
      rcases List.mem_iff_getElem?.1 hu with ⟨j, hj⟩
      by_cases hji : j = i
      · -- the status is this run's own
        subst hji
        cases hj.symm.trans ht
        refine ⟨t.putRun r, List.mem_iff_getElem?.2 ⟨j, putRun_getElem? ht r⟩, r.await, rfl, hafter,
          (run_tells htells hphase hr).1⟩
      · refine ⟨u, List.mem_iff_getElem?.2 ⟨j, ?_⟩, w', hu', hw', hstatus.symm ▸ htells⟩
        exact (List.getElem?_set_ne (Ne.symm hji)).trans hj

theorem told_step (h : Told s) (hkept : SlotKept s) (hkept' : SlotKept s')
    (hs : ServerStep cwd s a s') : Told s' := by
  have hcleared : s'.status = idleStatus → Told s' := fun hstatus =>
    .cleared hstatus fun i hi => by
      have hrunning := hkept'.running hi
      rw [hstatus] at hrunning
      cases hrunning
  cases hs with
  | refused request stamp =>
      exact h
  | resetRefused _ =>
      exact h
  | status =>
      exact h
  | others fs =>
      exact ⟨h.holder, h.free⟩
  | upstream ready =>
      exact ⟨h.holder, h.free⟩
  | probes hreserves _ =>
      exact .reserved hkept (reserves_free hreserves) rfl (Or.inl rfl) rfl rfl
  | begins hreserves _ =>
      exact .reserved hkept (reserves_free hreserves) rfl (Or.inr rfl) rfl rfl
  | unready _ =>
      exact hcleared rfl
  | reset _ =>
      exact hcleared rfl
  | conflict _ _ =>
      exact hcleared rfl
  | goesOnUnready _ _ _ =>
      exact hcleared rfl
  | @probe i t a existing ht hphase _ =>
      have hholds : t.holds = true := by simp [Task.holds, hphase]
      have htells := h.holder i t ht hholds
      refine .goes hkept ht hholds rfl ⟨htells.names, ?_⟩ fun hfree => ?_
      · have hshows := htells.shows
        rw [hphase] at hshows
        exact hshows
      · have hrunning := hkept.running ⟨t, ht, hholds⟩
        cases hrunning.symm.trans hfree
  | @goesOn i t ht hphase _ =>
      have hholds : t.holds = true := by simp [Task.holds, hphase]
      have htells := h.holder i t ht hholds
      refine .goes hkept ht hholds rfl ⟨htells.names, ?_⟩ fun hfree => ?_
      · have hshows := htells.shows
        rw [hphase] at hshows
        exact ⟨hshows.1, by rw [hshows.2.1, hshows.2.2]; rfl⟩
      · have hrunning := hkept.running ⟨t, ht, hholds⟩
        cases hrunning.symm.trans hfree
  | @run i t a w r ht hphase hr =>
      cases hw : w.holds with
      | false =>
          exact h.released ht hphase hr hw
      | true =>
          have hholds : t.holds = true := by simp [Task.holds, hphase, hw]
          refine .goes hkept ht hholds rfl (run_tells (h.holder i t ht hholds) hphase hr).1 fun hfree => ?_
          refine ⟨r.await, rfl, ?_⟩
          -- a run that goes on keeps the status running
          cases hafter : r.await.holds with
          | false =>
              rfl
          | true =>
              have hrunning := step_keeps_running hr (hkept.running ⟨t, ht, hholds⟩) hafter
              cases hrunning.symm.trans hfree

end Steps

/-! ## Runs -/

theorem reachable_told {cwd : List Char} {s : Server β}
    (h : (serverMachine cwd).Reachable Registered s) : SlotKept s ∧ Told s := by
  refine h.invariant (P := fun s => SlotKept s ∧ Told s) ?_ ?_
  · rintro _ hregistered
    have hinit : (serverMachine cwd).Reachable Registered _ := .init hregistered
    refine ⟨reachable_slotKept hinit, ?_⟩
    rcases hregistered with ⟨fs, upstream, rfl⟩
    exact ⟨by simp, fun _ => Or.inl rfl⟩
  · rintro s a s' ⟨hkept, htold⟩ _ hs
    have hstep := ServerStep.of_step hs
    have hkept' : SlotKept s' :=
      ⟨singleFlight_step hkept.exclusive hstep, notLeaked_step hkept.occupied hstep⟩
    exact ⟨hkept', told_step htold hkept hkept' hstep⟩

/-- What a client that reads the status can rely on. -/
structure Reported (cwd : List Char) (s : Server β) : Prop where
  /-- While a request holds the slot, the status is about it and the await it stands at. -/
  holder : ∀ (i : ℕ) (t : Task β), s.tasks[i]? = some t → t.holds = true → Tells t s.status
  /-- While none does, the status is idle or how a run has ended. -/
  free : (∀ i, ¬s.Holds i) → s.status = idleStatus ∨ EndTold s
  /-- As long as one request holds the slot, the progress does not go back. -/
  progress : ∀ i a s', s.Holds i → serverStep cwd s a = some s' → s'.Holds i →
    s.status.progress ≤ s'.status.progress
  /-- The progress is 100 when a run has completed, and the error is set when one has not. -/
  completed : s.status.progress = 100 ↔ s.status.state = .completed
  failed : s.status.error.isSome = true ↔ s.status.state = .failed ∨ s.status.state = .rolledBack

theorem Await.Shows.ends {w : Await} {st : HostRestoreStatus} (h : w.Shows st) :
    (st.progress = 100 ↔ st.state = .completed) ∧
      (st.error.isSome = true ↔ st.state = .failed ∨ st.state = .rolledBack) := by
  rcases st with ⟨state, progress, message, error, _, _, _⟩
  cases w with
  | scrub _ =>
      rcases h with ⟨herror, hrunning, hroll, hprogress⟩
      dsimp only at herror hrunning hroll hprogress ⊢
      subst herror
      cases state <;> simp [RunState.isRunning] at hrunning hroll ⊢ <;> omega
  | rollback _ =>
      rcases h with ⟨herror, hstate, hprogress⟩
      dsimp only at herror hstate hprogress ⊢
      subst herror hstate
      exact ⟨⟨by omega, fun hno => by cases hno⟩, by simp⟩
  | ended final =>
      cases final with
      | failed =>
          rcases h with ⟨herror, hstate, hprogress⟩
          dsimp only at herror hstate hprogress ⊢
          subst hstate
          exact ⟨⟨by omega, fun hno => by cases hno⟩, by simp [herror]⟩
      | rolledBack =>
          rcases h with ⟨herror, hstate, hprogress⟩
          dsimp only at herror hstate hprogress ⊢
          subst hstate
          exact ⟨⟨by omega, fun hno => by cases hno⟩, by simp [herror]⟩
      | completed =>
          rcases h with ⟨herror, hstage⟩
          dsimp only at herror hstage ⊢
          subst herror
          cases hstage
          simp
      | _ =>
          cases h.2
  | _ =>
      rcases h with ⟨herror, hstage⟩
      dsimp only at herror hstage ⊢
      subst herror
      cases hstage
      simp

/-- The status of a task that has been answered with a run, or is still waiting for one. -/
theorem Tells.ends {t : Task β} {st : HostRestoreStatus} (h : Tells t st) :
    (st.progress = 100 ↔ st.state = .completed) ∧
      (st.error.isSome = true ↔ st.state = .failed ∨ st.state = .rolledBack) := by
  have hshows := h.shows
  cases hphase : t.phase with
  | running w =>
      rw [hphase] at hshows
      exact Await.Shows.ends (w := w) hshows
  | answered status =>
      rw [hphase] at hshows
      exact hshows.elim
  | _ =>
      rw [hphase] at hshows
      simp [hshows.1, hshows.2.1, hshows.2.2]

/-- Whatever the interleaving of the requests, their runs and other processes, the status is true. -/
theorem reachable_reported {cwd : List Char} {s : Server β}
    (h : (serverMachine cwd).Reachable Registered s) : Reported cwd s := by
  rcases reachable_told h with ⟨hkept, htold⟩
  have hfree : (∀ i, ¬s.Holds i) → s.status = idleStatus ∨ EndTold s := fun hnone =>
    htold.free (by
      cases hrunning : s.status.state.isRunning with
      | false =>
          rfl
      | true =>
          rcases hkept.running_iff.1 hrunning with ⟨i, hi⟩
          exact absurd hi (hnone i))
  have hends : (s.status.progress = 100 ↔ s.status.state = .completed) ∧
      (s.status.error.isSome = true ↔ s.status.state = .failed ∨ s.status.state = .rolledBack) := by
    by_cases hheld : ∃ i, s.Holds i
    · rcases hheld with ⟨i, t, ht, hholds⟩
      exact (htold.holder i t ht hholds).ends
    · rcases hfree fun i hi => hheld ⟨i, hi⟩ with hidle | ⟨t, _, _, _, _, htells⟩
      · simp [hidle, idleStatus]
      · exact htells.ends
  refine ⟨htold.holder, hfree, ?_, hends.1, hends.2⟩
  intro i a s' hholds hs hholds'
  have hstep := ServerStep.of_step hs
  cases hown : a.own i with
  | false =>
      rw [other_status hkept hstep hholds hown]
  | true =>
      rcases hholds with ⟨t, ht, hb⟩
      cases hstep with
      | @run j u b w r hu hphase hr =>
          have hji : j = i := of_decide_eq_true hown
          subst hji
          cases ht.symm.trans hu
          exact (run_tells (htold.holder j t ht hb) hphase hr).2
      | conflict hu hphase =>
          have hji : _ = i := of_decide_eq_true hown
          subst hji
          cases (holds_set hu rfl).1 hholds'
      | goesOnUnready hu hphase _ =>
          have hji : _ = i := of_decide_eq_true hown
          subst hji
          cases (holds_set hu rfl).1 hholds'
      | probe existing hu hphase _ =>
          exact le_rfl
      | goesOn hu hphase _ =>
          exact le_rfl
      | _ =>
          cases hown

/-- A file restore without a stash; the disk is full. -/
def fullDisk : List (Action Nat) :=
  [.post { chartRequest with confirmOverwrite := true } newYear, .settle 0 (.fails "ENOENT"),
    .settle 0 (.response true 200 true), .settle 0 .ok, .settle 0 (.wroteSome 7 "ENOSPC"),
    .settle 0 .ok]

theorem reachable_reported_fullDisk :
    ∃ s, (serverMachine ['/']).run registered fullDisk = some s ∧ Reported ['/'] s ∧
      s.status.state = .failed ∧ s.status.error = some "ENOSPC" := by
  obtain ⟨s, hs⟩ : ∃ s, (serverMachine ['/']).run registered fullDisk = some s := ⟨_, rfl⟩
  have hreach := Machine.Reachable.run (I := Registered) (.init ⟨_, _, rfl⟩) hs
  refine ⟨s, hs, reachable_reported hreach, ?_, ?_⟩
  · cases hs
    rfl
  · cases hs
    rfl

end Restore
end SignalKBackup
