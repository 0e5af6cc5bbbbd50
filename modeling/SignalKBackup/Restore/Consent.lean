import SignalKBackup.Restore.Route

/-!
# Consent — what a request without `confirmOverwrite` may touch

Consent is asked for once, at the conflict probe.  The run that follows takes its own `stat`,
stashes whatever it finds by then and drops the stash when it completes; an entry that the probe
did not see is moved, removed or written through like one the user gave up
(`reachable_overwrites`, `leavesAlone_iff`).  `Unchallenged` is the step condition under which the
probe's answer still holds when the run begins.
-/

namespace SignalKBackup
namespace Restore

open Lib
open Posix

variable {β : Type}

/-- The run at position `i` was not allowed to overwrite, and its step leaves alone what stood at
the target when it began, and what a link there leads to. -/
def LeavesAlone (s s' : Server β) (i : Nat) : Prop :=
  ∀ t await, s.tasks[i]? = some t → t.phase = .running await →
    t.ctx.request.confirmOverwrite = false → (t.start t.ctx.targetAt).isSome = true →
      s'.fs.subtree t.ctx.targetAt = s.fs.subtree t.ctx.targetAt ∧
        ∀ q, s.fs.follow MAX_LINKS t.ctx.targetAt = some q → s'.fs q = s.fs q

/-- The probe's `stat` fails only where nothing is, and no other process makes an entry at the
target between that `stat` and the beginning of the run. -/
def Unchallenged (s : Server β) : Action β → Prop
  | .settle i (.fails _) => ∀ t, s.tasks[i]? = some t → t.phase = .probing →
      s.fs t.ctx.targetAt = none
  | .others fs => ∀ t ∈ s.tasks, t.phase = .probed false → fs t.ctx.targetAt = none
  | _ => True

/-- The probe's answer still holds, and no run without consent began over an entry. -/
structure Cleared (s : Server β) : Prop where
  probed : ∀ (i : Nat) (t : Task β), s.tasks[i]? = some t → t.phase = .probed false →
    s.fs t.ctx.targetAt = none
  begun : ∀ (i : Nat) (t : Task β) (await : Await), s.tasks[i]? = some t →
    t.phase = .running await → t.ctx.request.confirmOverwrite = false →
      t.start t.ctx.targetAt = none

theorem Cleared.append {s s' : Server β} (h : Cleared s) {t : Task β}
    (htasks : s'.tasks = s.tasks ++ [t]) (hfs : s'.fs = s.fs) (hprobed : t.phase ≠ .probed false)
    (hbegun : ∀ await, t.phase = .running await → t.ctx.request.confirmOverwrite = true) :
    Cleared s' := by
  constructor
  · intro i u hu hphase
    rw [htasks] at hu
    rcases getElem?_concat_cases hu with hold | ⟨_, rfl⟩
    · rw [hfs]
      exact h.probed i u hold hphase
    · exact absurd hphase hprobed
  · intro i u await hu hphase hconfirm
    rw [htasks] at hu
    rcases getElem?_concat_cases hu with hold | ⟨_, rfl⟩
    · exact h.begun i u await hold hphase hconfirm
    · rw [hbegun await hphase] at hconfirm
      cases hconfirm

theorem Cleared.set {s s' : Server β} (h : Cleared s) {i : Nat} {t' : Task β}
    (htasks : s'.tasks = s.tasks.set i t')
    (hfs : ∀ (j : Nat) (u : Task β), j ≠ i → s.tasks[j]? = some u → u.phase = .probed false →
      s.fs u.ctx.targetAt = none → s'.fs u.ctx.targetAt = none)
    (hprobed : t'.phase = .probed false → s'.fs t'.ctx.targetAt = none)
    (hbegun : ∀ await, t'.phase = .running await → t'.ctx.request.confirmOverwrite = false →
      t'.start t'.ctx.targetAt = none) : Cleared s' := by
  constructor
  · intro j u hu hphase
    rw [htasks] at hu
    rcases getElem?_set_cases hu with ⟨_, rfl⟩ | ⟨hji, hold⟩
    · exact hprobed hphase
    · exact hfs j u hji hold hphase (h.probed j u hold hphase)
  · intro j u await hu hphase hconfirm
    rw [htasks] at hu
    rcases getElem?_set_cases hu with ⟨_, rfl⟩ | ⟨_, hold⟩
    · exact hbegun await hphase hconfirm
    · exact h.begun j u await hold hphase hconfirm

theorem cleared_step {cwd : List Char} {s s' : Server β} {a : Action β} (h : Cleared s)
    (hone : SingleFlight s) (hok : Unchallenged s a) (hs : ServerStep cwd s a s') :
    Cleared s' := by
  cases hs with
  | refused request stamp =>
      exact h
  | probes _ _ =>
      exact h.append rfl rfl (by simp) (by simp)
  | begins _ hconfirm =>
      exact h.append rfl rfl (by simp) fun _ _ => hconfirm
  | unready _ =>
      exact h.append rfl rfl (by simp) (by simp)
  | reset _ =>
      exact ⟨h.probed, h.begun⟩
  | resetRefused _ =>
      exact h
  | status =>
      exact h
  | @probe i t a existing ht hphase hfails =>
      refine h.set rfl (fun _ _ _ _ _ hnone => hnone) ?_ (by simp)
      intro hfalse
      cases hfalse
      -- the probe has failed: `Unchallenged` says that nothing is there
      rcases hfails rfl with ⟨message, rfl⟩
      exact hok t ht hphase
  | @run i t a await r ht hphase hr =>
      refine h.set rfl ?_ (by simp) ?_
      · -- another task is between its probe and its run, so this one only drops a stash
        intro j u hji hu hprobed hnone
        have hother := hone j u hu (by simp [Task.holds, hprobed])
        have hno : await.holds = false := by
          cases hb : await.holds with
          | false =>
              rfl
          | true =>
              exact absurd (hother.2 i t ht (by simpa [Task.holds, hphase] using hb)) (Ne.symm hji)
        exact (step_released hr hno).2.2 _ hnone
      · intro w _ hconfirm
        -- the memory of the beginning stays
        have hstart : r.start = t.start := step_start hr
        show r.start t.ctx.targetAt = none
        rw [hstart]
        exact h.begun i t await ht hphase hconfirm
  | conflict _ _ =>
      exact h.set rfl (fun _ _ _ _ _ hnone => hnone) (by simp) (by simp)
  | @goesOn i t ht hphase _ =>
      exact h.set rfl (fun _ _ _ _ _ hnone => hnone) (by simp) fun _ _ _ => h.probed i t ht hphase
  | goesOnUnready _ _ _ =>
      exact h.set rfl (fun _ _ _ _ _ hnone => hnone) (by simp) (by simp)
  | others fs =>
      exact ⟨fun i t ht hphase => hok t (List.mem_of_getElem? ht) hphase, h.begun⟩
  | upstream ready =>
      exact ⟨h.probed, h.begun⟩

/-! ## A run that has begun over an entry -/

/-- The task of a run keeps its place, its request and its memory of the beginning. -/
theorem settles_keep {cwd : List Char} {i : Nat} {as : List (Settle β)} {s s' : Server β}
    {t : Task β} {await : Await} (ht : s.tasks[i]? = some t) (hphase : t.phase = .running await)
    (hrun : (serverMachine cwd).run s (as.map (Action.settle i)) = some s') :
    ∃ t' await', s'.tasks[i]? = some t' ∧ t'.phase = .running await' ∧ t'.ctx = t.ctx ∧
      t'.start = t.start := by
  induction as generalizing s t await with
  | nil =>
      cases hrun
      exact ⟨t, await, ht, hphase, rfl, rfl⟩
  | cons a as ih =>
      rcases (Machine.run_cons_eq_some _).1 hrun with ⟨u, hu, hrest⟩
      have hstep : (step t.ctx (t.run s await) a).map (fun r => s.putRun i t r) = some u := by
        simpa [serverMachine, serverStep, ht, hphase] using hu
      rcases Option.map_eq_some_iff.1 hstep with ⟨r, hr, rfl⟩
      rcases ih (putRun_getElem? ht r) rfl hrest with ⟨t', await', ht', hphase', hctx, hstart⟩
      exact ⟨t', await', ht', hphase', hctx, hstart.trans (step_start hr)⟩

/-- A run without consent leaves its target alone, however its operations come out, if and only if
it began where nothing was. -/
theorem leavesAlone_iff {cwd : List Char} {s : Server β} {i : Nat} {t : Task β}
    (ht : s.tasks[i]? = some t) (hphase : t.phase = .running .stat)
    (hconfirm : t.ctx.request.confirmOverwrite = false) (hst : t.safetyStashed = false)
    (hstart : t.start = s.fs) :
    (∀ (as : List (Settle β)) (s₁ : Server β) (a : Settle β) (s₂ : Server β),
        (serverMachine cwd).run s (as.map (Action.settle i)) = some s₁ →
        serverStep cwd s₁ (.settle i a) = some s₂ → LeavesAlone s₁ s₂ i) ↔
      s.fs t.ctx.targetAt = none := by
  constructor
  · intro halone
    -- `stat` fails, the download fails, and the clean-up removal takes the entry
    let r₁ : Run β := toFetch (t.run s .stat)
    let t₁ : Task β := t.putRun r₁
    let s₁ : Server β := s.putRun i t r₁
    let r₂ : Run β := toCatch (t₁.run s₁ .fetch) "offline"
    let t₂ : Task β := t₁.putRun r₂
    let s₂ : Server β := s₁.putRun i t₁ r₂
    have ht₁ : s₁.tasks[i]? = some t₁ := putRun_getElem? ht r₁
    have ht₂ : s₂.tasks[i]? = some t₂ := putRun_getElem? ht₁ r₂
    have hstat : serverStep cwd s (.settle i (.fails "EIO")) = some s₁ :=
      serverStep_run ht hphase rfl
    have hfetch : serverStep cwd s₁ (.settle i (.fails "offline")) = some s₂ :=
      serverStep_run ht₁ rfl rfl
    have hscrub : ∃ s₃, serverStep cwd s₂ (.settle i .ok) = some s₃ ∧
        s₃.fs = s.fs.remove t.ctx.targetAt := by
      refine ⟨_, serverStep_run ht₂ rfl rfl, ?_⟩
      have hroll : toRollback { t₂.run s₂ (.scrub "offline") with
          fs := s.fs.remove t.ctx.targetAt, scrubbed := true } "offline" =
          toFailed { t₂.run s₂ (.scrub "offline") with
            fs := s.fs.remove t.ctx.targetAt, scrubbed := true } "offline" := by
        have hnot : t₂.safetyStashed = false := hst
        simp [toRollback, Task.run, hnot]
      exact congrArg Run.fs hroll
    rcases hscrub with ⟨s₃, hs₃, hfs⟩
    have hrun : (serverMachine cwd).run s ([Settle.fails "EIO", .fails "offline"].map
        (Action.settle i)) = some s₂ := by
      refine (Machine.run_cons_eq_some _).2 ⟨s₁, hstat, ?_⟩
      exact (Machine.run_cons_eq_some _).2 ⟨s₂, hfetch, rfl⟩
    cases hentry : s.fs t.ctx.targetAt with
    | none =>
        rfl
    | some node =>
        have hsome : (t.start t.ctx.targetAt).isSome = true := by
          rw [hstart, hentry]
          rfl
        have hsame := (halone _ s₂ .ok s₃ hrun hs₃ t₂ _ ht₂ rfl hconfirm hsome).1
        have hroot := congrFun hsame []
        rw [hfs] at hroot
        have hgone : (s.fs.remove t.ctx.targetAt).subtree t.ctx.targetAt [] = none := by
          rw [FileTree.subtree_remove_self]
        have hnone : s.fs.subtree t.ctx.targetAt [] = none := hroot.symm.trans hgone
        rw [← hentry]
        simpa [FileTree.subtree] using hnone
  · intro hnone as s₁ a s₂ hrun _ t' await ht' _ _ hsome
    -- the run keeps its memory, in which nothing was there
    rcases settles_keep ht hphase hrun with ⟨u, _, hu, _, hctx, hkept⟩
    have htu : t' = u := Option.some.inj (ht'.symm.trans hu)
    rw [htu, hkept, hctx, hstart, hnone] at hsome
    cases hsome

/-! ## Runs -/

/-- In every run whose steps are all `Unchallenged`, a restore without consent leaves alone what
stood at its target when it began. -/
theorem reachable_leavesAlone (cwd : List Char) (s : Server β)
    (h : (serverMachine cwd).ReachableUnder Unchallenged Registered s) :
    ∀ i a s', serverStep cwd s (.settle i a) = some s' → LeavesAlone s s' i := by
  have hinv : SingleFlight s ∧ Cleared s := by
    refine h.invariant (P := fun s => SingleFlight s ∧ Cleared s) ?_ ?_
    · intro s hreg
      refine ⟨hreg.singleFlight, ?_⟩
      rcases hreg with ⟨fs, upstream, rfl⟩
      constructor
      · intro i t ht
        simp at ht
      · intro i t await ht
        simp at ht
    · rintro s a s' ⟨hone, hclear⟩ hok hs
      have hstep := ServerStep.of_step hs
      exact ⟨singleFlight_step hone hstep, cleared_step hclear hone hok hstep⟩
  intro i a s' _ t await ht hphase hconfirm hsome
  rw [hinv.2.begun i t await ht hphase hconfirm] at hsome
  cases hsome

/-- A file restore without consent to a place where nothing is. -/
def chartRequest : HostRestoreRequest :=
  { backupId := "b1", sourcePath := "chart.db".toList, customPath := "/d/chart.db".toList
    isDir := false, confirmOverwrite := false }

theorem newYear_noSlash : '/' ∉ "2026-01-01T00-00-00-000Z".toList := by
  decide

def newYear : Stamp := ⟨_, newYear_noSlash⟩

def emptyDir : FileTree Seg Nat :=
  fun p => if p = [] ∨ p = ["d".toList] then some .dir else none

def registered : Server Nat :=
  { fs := emptyDir, status := idleStatus, upstream := true }

/-- The probe finds nothing, and the run begins. -/
def probedRun : List (Action Nat) :=
  [.post chartRequest newYear, .settle 0 (.fails "ENOENT"), .resume 0]

theorem reachable_leavesAlone_chart :
    ∃ s, (serverMachine ['/']).run registered probedRun = some s ∧
      ∀ i a s', serverStep ['/'] s (.settle i a) = some s' → LeavesAlone s s' i := by
  obtain ⟨s, hs⟩ : ∃ s, (serverMachine ['/']).run registered probedRun = some s := ⟨_, rfl⟩
  have hmeets : (serverMachine ['/']).Meets Unchallenged registered probedRun := by
    refine ⟨trivial, ?_⟩
    rintro _ ⟨⟩
    refine ⟨?_, fun _ _ => ⟨trivial, fun _ _ => trivial⟩⟩
    rintro t ⟨⟩ _
    decide
  have hreach := Machine.ReachableUnder.run (I := Registered) (.init ⟨_, _, rfl⟩) hmeets hs
  exact ⟨s, hs, reachable_leavesAlone ['/'] s hreach⟩

/-- Another process makes the file between the probe and the run, which moves it away. -/
def racedRun : List (Action Nat) :=
  [.post chartRequest newYear, .settle 0 (.fails "ENOENT"),
    .others (emptyDir.put ["d".toList, "chart.db".toList] (.file 1)), .resume 0, .settle 0 .ok]

theorem reachable_overwrites :
    ¬ ∀ (cwd : List Char) (s : Server Nat), (serverMachine cwd).Reachable Registered s →
      ∀ i a s', serverStep cwd s (.settle i a) = some s' → LeavesAlone s s' i := by
  intro halone
  obtain ⟨s, hs⟩ : ∃ s, (serverMachine ['/']).run registered racedRun = some s := ⟨_, rfl⟩
  obtain ⟨s', hs'⟩ : ∃ s', (serverMachine ['/']).run registered (racedRun ++ [.settle 0 .ok]) =
    some s' := ⟨_, rfl⟩
  have hreach := Machine.Reachable.run (I := Registered) (.init ⟨_, _, rfl⟩) hs
  have hstash := halone ['/'] s hreach 0 .ok s'
  cases hs
  cases hs'
  have hsame := (hstash rfl _ .stash rfl rfl rfl rfl).1
  exact absurd (congrFun hsame []) (by decide)

end Restore
end SignalKBackup
