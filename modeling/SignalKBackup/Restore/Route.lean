import SignalKBackup.Lib.Letters
import SignalKBackup.Lib.Machine
import SignalKBackup.Lib.Slot
import SignalKBackup.Restore.Run

/-!
# Route — the host-restore routes over one file system

Every accepted request is a `Task`: first its handler waits for the conflict probe, then its run
goes on by the steps of `Run`.  The tasks share the files and the status; a task may go on
whenever its await has settled, and other processes change the files at any time.

The status holds the single-flight slot: `SingleFlight` says that at most one task holds it.
-/

namespace SignalKBackup
namespace Restore

open Lib
open Posix

inductive Phase
  /-- The handler waits for the conflict probe. -/
  | probing
  /-- The probe's `stat` has settled; the handler is about to go on. -/
  | probed (existing : Bool)
  | running (await : Await)
  /-- Answered without a run. -/
  | answered (status : Nat)
  deriving DecidableEq

structure Task (β : Type) where
  ctx : RestoreContext
  phase : Phase
  safetyStashed : Bool := false
  start : FileTree Seg β
  scrubbed : Bool := false

structure Server (β : Type) where
  fs : FileTree Seg β
  status : HostRestoreStatus
  /-- Whether `getUpstreamBase()` has an address. -/
  upstream : Bool
  tasks : List (Task β) := []

inductive Action (β : Type)
  | post (request : HostRestoreRequest) (stamp : Stamp)
  | reset
  /-- `GET /api/restore-partial-host/status`, which reads only. -/
  | status
  /-- The awaited operation of the task at this position settles. -/
  | settle (i : Nat) (a : Settle β)
  /-- The handler at this position goes on after its probe. -/
  | resume (i : Nat)
  /-- Another process changes the files. -/
  | others (fs : FileTree Seg β)
  | upstream (ready : Bool)

variable {β : Type}

/-! ## The routes -/

def idleStatus : HostRestoreStatus :=
  { state := .idle, progress := 0, statusMessage := "" }

/-- The checks that answer 400. -/
def accepts (request : HostRestoreRequest) : Bool :=
  !request.customPath.all isWhitespace &&
    !(request.sourcePath.contains '\x00' || request.customPath.contains '\x00') &&
    !(request.sourcePath.splitOn '/').contains dotdot

/-- From the end of the probe to the call of `runRestore`. -/
def begin (s : Server β) (t : Task β) : Server β × Task β :=
  if s.upstream then
    (s, { t with phase := .running .stat, start := s.fs })
  else
    ({ s with status := idleStatus }, { t with phase := .answered 503 })

/-- The status that reserves the slot. -/
def preparingStatus (ctx : RestoreContext) : HostRestoreStatus :=
  { state := .preparing, progress := 0, statusMessage := "Preparing host-restore…"
    backupId := some ctx.request.backupId
    sourcePath := some ctx.request.sourcePath
    targetPath := some ctx.target.absoluteTarget }

/-- `POST /api/restore-partial-host`, up to its first await. -/
def post (cwd : List Char) (s : Server β) (request : HostRestoreRequest) (stamp : Stamp) :
    Server β :=
  if !accepts request || s.status.state.isRunning then s
  else
    let ctx : RestoreContext := { request, stamp, cwd }
    -- reserved before the first await
    let s := { s with status := preparingStatus ctx }
    let t : Task β := { ctx, phase := .probing, start := s.fs }
    if request.confirmOverwrite then
      let (s, t) := begin s t
      { s with tasks := s.tasks ++ [t] }
    else
      { s with tasks := s.tasks ++ [t] }

/-- The run of a task, on the shared files and status. -/
def Task.run (s : Server β) (t : Task β) (await : Await) : Run β :=
  { fs := s.fs, status := s.status, await := await, safetyStashed := t.safetyStashed
    start := t.start, scrubbed := t.scrubbed }

/-- The server after a step of the run at position `i`. -/
def Server.putRun (s : Server β) (i : Nat) (t : Task β) (r : Run β) : Server β :=
  { s with
    fs := r.fs
    status := r.status
    tasks := s.tasks.set i
      { t with
        phase := .running r.await, safetyStashed := r.safetyStashed
        start := r.start, scrubbed := r.scrubbed } }

def serverStep (cwd : List Char) (s : Server β) : Action β → Option (Server β)
  | .post request stamp => some (post cwd s request stamp)
  | .reset => some (if s.status.state.isRunning then s else { s with status := idleStatus })
  | .status => some s
  | .settle i a =>
      match s.tasks[i]? with
      | some t =>
          match t.phase with
          | .probing =>
              match a with
              | .ok =>
                  if s.fs.stat MAX_LINKS t.ctx.targetAt then
                    some { s with tasks := s.tasks.set i { t with phase := .probed true } }
                  else
                    none
              | .fails _ => some { s with tasks := s.tasks.set i { t with phase := .probed false } }
              | _ => none
          | .running await => (step t.ctx (t.run s await) a).map fun r => s.putRun i t r
          | _ => none
      | none => none
  | .resume i =>
      match s.tasks[i]? with
      | some t =>
          match t.phase with
          | .probed true =>
              some { s with
                status := idleStatus
                tasks := s.tasks.set i { t with phase := .answered 409 } }
          | .probed false =>
              let (s, t) := begin s t
              some { s with tasks := s.tasks.set i t }
          | _ => none
      | none => none
  | .others fs => some { s with fs := fs }
  | .upstream ready => some { s with upstream := ready }

def serverMachine (cwd : List Char) : Machine (Server β) (Action β) :=
  { step := serverStep cwd }

/-- The routes have just been registered. -/
def Registered (s : Server β) : Prop :=
  ∃ fs upstream, s = { fs := fs, status := idleStatus, upstream := upstream }

/-! ## What one step can do -/

/-- A request that keeps the slot: it passes the checks and is not turned down at once for want of
an address. -/
def reserves (s : Server β) (request : HostRestoreRequest) : Bool :=
  accepts request && !s.status.state.isRunning && (s.upstream || !request.confirmOverwrite)

theorem reserves_free {s : Server β} {request : HostRestoreRequest} (h : reserves s request = true) :
    s.status.state.isRunning = false := by
  simp only [reserves, Bool.and_eq_true, Bool.not_eq_true'] at h
  exact h.1.2

/-- The ways a step can go, with the guard of each. -/
inductive ServerStep (cwd : List Char) (s : Server β) : Action β → Server β → Prop where
  | refused (request : HostRestoreRequest) (stamp : Stamp) :
      ServerStep cwd s (.post request stamp) s
  | probes {request : HostRestoreRequest} {stamp : Stamp} :
      reserves s request = true → request.confirmOverwrite = false →
      ServerStep cwd s (.post request stamp)
        { s with
          status := preparingStatus { request, stamp, cwd }
          tasks := s.tasks ++ [{ ctx := { request, stamp, cwd }, phase := .probing, start := s.fs }] }
  | begins {request : HostRestoreRequest} {stamp : Stamp} :
      reserves s request = true → request.confirmOverwrite = true →
      ServerStep cwd s (.post request stamp)
        { s with
          status := preparingStatus { request, stamp, cwd }
          tasks := s.tasks ++
            [{ ctx := { request, stamp, cwd }, phase := .running .stat, start := s.fs }] }
  | unready {request : HostRestoreRequest} {stamp : Stamp} :
      s.status.state.isRunning = false →
      ServerStep cwd s (.post request stamp)
        { s with
          status := idleStatus
          tasks := s.tasks ++
            [{ ctx := { request, stamp, cwd }, phase := .answered 503, start := s.fs }] }
  | reset : s.status.state.isRunning = false →
      ServerStep cwd s .reset { s with status := idleStatus }
  | resetRefused : s.status.state.isRunning = true → ServerStep cwd s .reset s
  | status : ServerStep cwd s .status s
  | probe {i : Nat} {t : Task β} {a : Settle β} (existing : Bool) :
      s.tasks[i]? = some t → t.phase = .probing →
      (existing = false → ∃ message, a = .fails message) →
      ServerStep cwd s (.settle i a)
        { s with tasks := s.tasks.set i { t with phase := .probed existing } }
  | run {i : Nat} {t : Task β} {a : Settle β} {await : Await} {r : Run β} :
      s.tasks[i]? = some t → t.phase = .running await →
      step t.ctx (t.run s await) a = some r →
      ServerStep cwd s (.settle i a) (s.putRun i t r)
  | conflict {i : Nat} {t : Task β} :
      s.tasks[i]? = some t → t.phase = .probed true →
      ServerStep cwd s (.resume i)
        { s with status := idleStatus, tasks := s.tasks.set i { t with phase := .answered 409 } }
  | goesOn {i : Nat} {t : Task β} :
      s.tasks[i]? = some t → t.phase = .probed false → s.upstream = true →
      ServerStep cwd s (.resume i)
        { s with tasks := s.tasks.set i { t with phase := .running .stat, start := s.fs } }
  | goesOnUnready {i : Nat} {t : Task β} :
      s.tasks[i]? = some t → t.phase = .probed false → s.upstream = false →
      ServerStep cwd s (.resume i)
        { s with status := idleStatus, tasks := s.tasks.set i { t with phase := .answered 503 } }
  | others (fs : FileTree Seg β) : ServerStep cwd s (.others fs) { s with fs := fs }
  | upstream (ready : Bool) : ServerStep cwd s (.upstream ready) { s with upstream := ready }

theorem ServerStep.of_step {cwd : List Char} {s s' : Server β} {a : Action β}
    (hs : serverStep cwd s a = some s') : ServerStep cwd s a s' := by
  cases a with
  | post request stamp =>
      cases hs
      unfold post
      split
      · exact .refused request stamp
      · rename_i hok
        simp only [Bool.or_eq_true, not_or, Bool.not_eq_true, Bool.not_eq_false'] at hok
        rcases hok with ⟨haccepts, hrun⟩
        dsimp only
        split
        · rename_i hconfirm
          unfold begin
          split
          · rename_i hupstream
            have hready : s.upstream = true := hupstream
            exact .begins (by simp [reserves, haccepts, hrun, hready]) hconfirm
          · exact .unready hrun
        · rename_i hconfirm
          exact .probes (by simp [reserves, haccepts, hrun, hconfirm]) (by simpa using hconfirm)
  | reset =>
      cases hs
      split
      · rename_i hrun
        exact .resetRefused hrun
      · rename_i hrun
        exact .reset (by simpa using hrun)
  | status =>
      cases hs
      exact .status
  | settle i a =>
      simp only [serverStep] at hs
      split at hs
      · rename_i t ht
        split at hs
        · rename_i hphase
          split at hs
          · split at hs
            · cases hs
              exact .probe true ht hphase nofun
            · cases hs
          · rename_i message
            cases hs
            exact .probe false ht hphase fun _ => ⟨message, rfl⟩
          · cases hs
        · rename_i await hphase
          rcases Option.map_eq_some_iff.1 hs with ⟨r, hr, rfl⟩
          exact .run ht hphase hr
        · cases hs
      · cases hs
  | resume i =>
      simp only [serverStep] at hs
      split at hs
      · rename_i t ht
        split at hs
        · rename_i hphase
          cases hs
          exact .conflict ht hphase
        · rename_i hphase
          cases hs
          unfold begin
          split
          · rename_i hupstream
            exact .goesOn ht hphase hupstream
          · rename_i hupstream
            exact .goesOnUnready ht hphase (by simpa using hupstream)
        · cases hs
      · cases hs
  | others fs =>
      cases hs
      exact .others fs
  | upstream ready =>
      cases hs
      exact .upstream ready

/-- The task after a step of its run. -/
def Task.putRun (t : Task β) (r : Run β) : Task β :=
  { t with
    phase := .running r.await, safetyStashed := r.safetyStashed
    start := r.start, scrubbed := r.scrubbed }

theorem serverStep_run {cwd : List Char} {s : Server β} {i : Nat} {t : Task β} {await : Await}
    {a : Settle β} {r : Run β} (ht : s.tasks[i]? = some t) (hphase : t.phase = .running await)
    (hr : step t.ctx (t.run s await) a = some r) :
    serverStep cwd s (.settle i a) = some (s.putRun i t r) := by
  simp [serverStep, ht, hphase, hr]

theorem putRun_getElem? {s : Server β} {i : Nat} {t : Task β} (ht : s.tasks[i]? = some t)
    (r : Run β) : (s.putRun i t r).tasks[i]? = some (t.putRun r) := by
  rcases List.getElem?_eq_some_iff.1 ht with ⟨hlt, _⟩
  exact List.getElem?_set_self hlt

/-! ## One task holds the slot -/

/-- The awaits of a run that has not ended, nor completed but for its stash. -/
def Await.holds : Await → Bool
  | .dropStash => false
  | .ended _ => false
  | _ => true

/-- The task holds the single-flight slot. -/
def Task.holds (t : Task β) : Bool :=
  match t.phase with
  | .probing => true
  | .probed _ => true
  | .running await => await.holds
  | .answered _ => false

theorem toRollback_start (s : Run β) (message : String) : (toRollback s message).start = s.start := by
  unfold toRollback
  split <;> rfl

theorem toTarget_start (isDir : Bool) (s : Run β) : (toTarget isDir s).start = s.start := by
  unfold toTarget
  split <;> rfl

/-- No step touches the files as they were when the run began. -/
theorem step_start {ctx : RestoreContext} {s s' : Run β} {a : Settle β}
    (hs : step ctx s a = some s') : s'.start = s.start := by
  cases RunStep.of_step hs with
  | downloads _ =>
      exact toTarget_start _ s
  | scrubbed _ =>
      exact toRollback_start _ _
  | scrubbedSome keep _ =>
      exact toRollback_start _ _
  | _ =>
      rfl

theorem toRollback_running (s : Run β) (message : String)
    (h : (toRollback s message).await.holds = true) :
    (toRollback s message).status.state.isRunning = true := by
  by_cases hst : s.safetyStashed = true
  · simp [toRollback, hst, RunState.isRunning]
  · simp [toRollback, hst, toFailed, Await.holds] at h

theorem toCompleted_holds (s : Run β) : (toCompleted s).await.holds = false := by
  by_cases hst : s.safetyStashed = true
  · simp [toCompleted, hst, Await.holds]
  · simp [toCompleted, hst, Await.holds]

/-- A run that holds the slot keeps the status running as long as it does. -/
theorem step_keeps_running {ctx : RestoreContext} {s s' : Run β} {a : Settle β}
    (hs : step ctx s a = some s') (hrun : s.status.state.isRunning = true)
    (hholds : s'.await.holds = true) : s'.status.state.isRunning = true := by
  cases RunStep.of_step hs with
  | notFound message _ =>
      rfl
  | stashed _ _ =>
      rfl
  | downloads _ =>
      unfold toTarget
      split <;> rfl
  | extracted _ =>
      rw [toCompleted_holds] at hholds
      cases hholds
  | wroteTarget bytes _ _ =>
      rw [toCompleted_holds] at hholds
      cases hholds
  | scrubbed _ =>
      exact toRollback_running _ _ hholds
  | scrubbedSome keep _ =>
      exact toRollback_running _ _ hholds
  | dropped _ => cases hholds
  | droppedSome keep _ => cases hholds
  | rolledBack _ _ => cases hholds
  | notRolledBack error _ => cases hholds
  | _ =>
      exact hrun

theorem Await.of_released {w : Await} (h : w.holds = false) :
    w = .dropStash ∨ ∃ final, w = .ended final := by
  cases w with
  | dropStash =>
      exact Or.inl rfl
  | ended final =>
      exact Or.inr ⟨final, rfl⟩
  | _ =>
      cases h

/-- A run that only drops its stash leaves the status alone, and makes no entry. -/
theorem step_released {ctx : RestoreContext} {s s' : Run β} {a : Settle β}
    (hs : step ctx s a = some s') (hno : s.await.holds = false) :
    s'.await.holds = false ∧ s'.status = s.status ∧ ∀ p, s.fs p = none → s'.fs p = none := by
  rcases Await.of_released hno with hawait | ⟨final, hawait⟩
  · simp only [step, hawait] at hs
    split at hs
    · cases hs
      refine ⟨rfl, rfl, ?_⟩
      intro p hp
      simp [FileTree.remove, hp]
    · cases hs
      refine ⟨rfl, rfl, ?_⟩
      intro p hp
      simp [FileTree.removeSome, hp]
    · cases hs
  · simp [step, hawait] at hs

/-- At most one task holds the slot, and the status says so. -/
def SingleFlight (s : Server β) : Prop :=
  Exclusive Task.holds s.status.state.isRunning s.tasks

theorem singleFlight_step {cwd : List Char} {s s' : Server β} {a : Action β}
    (h : SingleFlight s) (hs : ServerStep cwd s a s') : SingleFlight s' := by
  cases hs with
  | refused request stamp =>
      exact h
  | probes hreserves _ =>
      exact Exclusive.append h (reserves_free hreserves) fun _ => rfl
  | begins hreserves _ =>
      exact Exclusive.append h (reserves_free hreserves) fun _ => rfl
  | unready hrun =>
      exact Exclusive.append h hrun nofun
  | reset hrun =>
      exact .of_free fun i t ht => Exclusive.free h hrun ht
  | resetRefused _ =>
      exact h
  | status =>
      exact h
  -- the flag stays as it is while the holder goes on
  | probe existing ht hphase _ =>
      have hholds := (h _ _ ht (by simp [Task.holds, hphase])).1
      exact Exclusive.set h ht (fun hno => by simp [Task.holds, hphase] at hno) fun _ _ => hholds
  | @run i t a await r ht hphase hr =>
      refine Exclusive.set h ht ?_ ?_
      · -- a run that has let go of the slot does not touch the status
        intro hno
        have hno' : await.holds = false := by simpa [Task.holds, hphase] using hno
        have hreleased := step_released hr hno'
        exact ⟨hreleased.1, congrArg (fun status => status.state.isRunning) hreleased.2.1⟩
      · intro hbefore hafter
        exact step_keeps_running hr (h i t ht hbefore).1 hafter
  | conflict ht hphase =>
      exact Exclusive.set h ht (fun hno => by simp [Task.holds, hphase] at hno) nofun
  | goesOn ht hphase _ =>
      have hholds := (h _ _ ht (by simp [Task.holds, hphase])).1
      exact Exclusive.set h ht (fun hno => by simp [Task.holds, hphase] at hno) fun _ _ => hholds
  | goesOnUnready ht hphase _ =>
      exact Exclusive.set h ht (fun hno => by simp [Task.holds, hphase] at hno) nofun
  | others fs =>
      exact h
  | upstream ready =>
      exact h

theorem Registered.singleFlight {s : Server β} (h : Registered s) : SingleFlight s := by
  rcases h with ⟨fs, upstream, rfl⟩
  exact .of_free (by simp)

/-! ## While no restore is running -/

/-- The request of the task at this position was accepted (202), and its run has begun. -/
def Server.Started (s : Server β) (i : ℕ) : Prop :=
  ∃ t await, s.tasks[i]? = some t ∧ t.phase = .running await

theorem started_append {s s' : Server β} {t : Task β} {i : ℕ} (htasks : s'.tasks = s.tasks ++ [t])
    (hidle : ∀ await, t.phase ≠ .running await) (h : s'.Started i) : s.Started i := by
  rcases h with ⟨u, await, hu, hphase⟩
  rw [htasks] at hu
  rcases getElem?_concat_cases hu with hold | ⟨_, rfl⟩
  · exact ⟨u, await, hold, hphase⟩
  · exact absurd hphase (hidle await)

theorem started_set {s s' : Server β} {i j : ℕ} {t t' : Task β} (ht : s.tasks[i]? = some t)
    (htasks : s'.tasks = s.tasks.set i t')
    (hbegun : ∀ await, t'.phase = .running await → ∃ before, t.phase = .running before)
    (h : s'.Started j) : s.Started j := by
  rcases h with ⟨u, await, hu, hphase⟩
  rw [htasks] at hu
  rcases getElem?_set_cases hu with ⟨rfl, rfl⟩ | ⟨_, hold⟩
  · rcases hbegun await hphase with ⟨before, hbefore⟩
    exact ⟨t, before, ht, hbefore⟩
  · exact ⟨u, await, hold, hphase⟩

/-- With no restore running, none begins without a request that keeps the slot. -/
theorem serverStep_free {cwd : List Char} {s s' : Server β} {a : Action β} (h : SingleFlight s)
    (hfree : s.status.state.isRunning = false)
    (hquiet : ∀ request stamp, a = .post request stamp → reserves s request = false)
    (hs : ServerStep cwd s a s') :
    s'.status.state.isRunning = false ∧ ∀ i, s'.Started i → s.Started i := by
  cases hs with
  | refused request stamp =>
      exact ⟨hfree, fun i hi => hi⟩
  | @probes request stamp hreserves _ =>
      rw [hquiet request stamp rfl] at hreserves
      cases hreserves
  | @begins request stamp hreserves _ =>
      rw [hquiet request stamp rfl] at hreserves
      cases hreserves
  | unready _ =>
      exact ⟨rfl, fun i => started_append rfl nofun⟩
  | reset _ =>
      exact ⟨rfl, fun i hi => hi⟩
  | resetRefused _ =>
      exact ⟨hfree, fun i hi => hi⟩
  | status =>
      exact ⟨hfree, fun i hi => hi⟩
  | probe existing ht hphase _ =>
      exact ⟨hfree, fun i => started_set ht rfl nofun⟩
  | @run i t a await r ht hphase hr =>
      -- a run that goes on without the slot only drops its stash
      have hheld := Exclusive.free h hfree ht
      simp only [Task.holds, hphase] at hheld
      have hstatus := (step_released hr hheld).2.1
      have hrunning := congrArg (fun status => status.state.isRunning) hstatus
      exact ⟨hrunning.trans hfree, fun j => started_set ht rfl fun _ _ => ⟨await, hphase⟩⟩
  | conflict ht hphase =>
      exact ⟨rfl, fun i => started_set ht rfl nofun⟩
  | goesOn ht hphase _ =>
      have hheld := Exclusive.free h hfree ht
      simp [Task.holds, hphase] at hheld
  | goesOnUnready ht hphase _ =>
      exact ⟨rfl, fun i => started_set ht rfl nofun⟩
  | others fs =>
      exact ⟨hfree, fun i hi => hi⟩
  | upstream ready =>
      exact ⟨hfree, fun i hi => hi⟩

/-! ## A request that keeps the slot -/

theorem post_begins {cwd : List Char} {s : Server β} {request : HostRestoreRequest} {stamp : Stamp}
    (h : reserves s request = true) (hconfirm : request.confirmOverwrite = true) :
    post cwd s request stamp =
      { s with
        status := preparingStatus { request, stamp, cwd }
        tasks := s.tasks ++
          [{ ctx := { request, stamp, cwd }, phase := .running .stat, start := s.fs }] } := by
  simp only [reserves, hconfirm, Bool.and_eq_true, Bool.not_eq_true', Bool.not_true, Bool.or_false] at h
  simp [post, begin, h.1.1, h.1.2, h.2, hconfirm]

theorem post_probes {cwd : List Char} {s : Server β} {request : HostRestoreRequest} {stamp : Stamp}
    (h : reserves s request = true) (hconfirm : request.confirmOverwrite = false) :
    post cwd s request stamp =
      { s with
        status := preparingStatus { request, stamp, cwd }
        tasks := s.tasks ++ [{ ctx := { request, stamp, cwd }, phase := .probing, start := s.fs }] } := by
  simp only [reserves, hconfirm, Bool.and_eq_true, Bool.not_eq_true', Bool.not_false, Bool.or_true] at h
  simp [post, h.1.1, h.1.2, hconfirm]

theorem not_started_length (s : Server β) : ¬s.Started s.tasks.length := by
  rintro ⟨t, await, ht, _⟩
  simp at ht

end Restore
end SignalKBackup
