import SignalKBackup.Plugin.Updating
import SignalKBackup.Restore.Consent

/-!
# HostRestore — the automatic updater next to the host restores

The plugin and the host-restore routes as one machine: the updater reads `isHostRestoreRunning()`,
the routes read `containerAddress`.  The updater asks before its first swap only, and the routes
never ask the updater.

`reachable_noOverlap`: in runs in which no request keeps the restore slot while the updater waits for
a server it recreates, no recreate begins under a restore and no restore is accepted in between.
`reserved_breaks` shows what such a request leads to.
-/

namespace SignalKBackup
namespace Plugin

open Lib

variable {β : Type}

/-! ## The two parts -/

structure Host (β : Type) where
  plugin : System
  restore : Restore.Server β

/-- A step of one part.  What the other part sees of it is not an action of its own. -/
inductive HostAction (β : Type)
  | plugin (a : Action)
  | restore (a : Restore.Action β)

/-- `getUpstreamBase` returns `containerAddress`. -/
def Host.putPlugin (h : Host β) (p : System) : Host β :=
  { plugin := p
    restore := { h.restore with upstream := (State.truthy p.state.containerAddress).isSome } }

def Host.putRestore (h : Host β) (r : Restore.Server β) : Host β :=
  { plugin :=
      { h.plugin with
        state := { h.plugin.state with hostRestoreRunning := r.status.state.isRunning } }
    restore := r }

def hostStep (cwd : List Char) (h : Host β) : HostAction β → Option (Host β)
  | .plugin (.hostRestore _) => none
  | .plugin a => (pluginStep h.plugin a).map h.putPlugin
  | .restore (.upstream _) => none
  | .restore a => (Restore.serverStep cwd h.restore a).map h.putRestore

def host (cwd : List Char) : Machine (Host β) (HostAction β) where
  step := hostStep cwd

/-- The plugin has just been loaded, and its routes registered. -/
def Installed (h : Host β) : Prop :=
  Loaded h.plugin ∧ Restore.Registered h.restore ∧ h.plugin.state.hostRestoreRunning = false

theorem hostStep_plugin {cwd : List Char} {h h' : Host β} {a : Action}
    (hs : hostStep cwd h (.plugin a) = some h') :
    ∃ p, pluginStep h.plugin a = some p ∧ h' = h.putPlugin p ∧ ∀ running, a ≠ .hostRestore running := by
  cases a with
  | hostRestore running => cases hs
  | _ =>
      simp only [hostStep, Option.map_eq_some_iff] at hs
      rcases hs with ⟨p, hp, rfl⟩
      exact ⟨p, hp, rfl, nofun⟩

theorem hostStep_restore {cwd : List Char} {h h' : Host β} {a : Restore.Action β}
    (hs : hostStep cwd h (.restore a) = some h') :
    ∃ r, Restore.serverStep cwd h.restore a = some r ∧ h' = h.putRestore r := by
  cases a with
  | upstream ready => cases hs
  | _ =>
      simp only [hostStep, Option.map_eq_some_iff] at hs
      rcases hs with ⟨r, hr, rfl⟩
      exact ⟨r, hr, rfl⟩

/-! ## The window of a replacement -/

/-- From the beginning of a recreate until the recreated server has answered, or is given up. -/
def InstallAwait.replacing : InstallAwait → Bool
  | .recreate _ _ => true
  | .address _ => true
  | .health _ _ => true
  | _ => false

def Next.replacing : Next → Bool
  | .await w => w.replacing
  | .done _ => false

/-- The same, of an install by the automatic updater. -/
def Await.replacing : Await → Bool
  | .check (.install _ w) => w.replacing
  | _ => false

/-- Which recreate the automatic updater waits for, if any. -/
def Await.recreates : Await → Option Swap
  | .check (.install _ (.recreate swap _)) => some swap
  | _ => none

def Replacing (p : System) : Prop :=
  ∃ t ∈ p.tasks, t.await.replacing = true

instance (p : System) : Decidable (Replacing p) :=
  inferInstanceAs (Decidable (∃ t ∈ p.tasks, t.await.replacing = true))

/-- The automatic updater begins a recreate. -/
def BeginsRecreate (p p' : System) : Prop :=
  ∃ (i : ℕ) (t' : Task), p'.tasks[i]? = some t' ∧ t'.await.recreates.isSome = true ∧
    ∀ t, p.tasks[i]? = some t → t.await.recreates ≠ t'.await.recreates

theorem BeginsRecreate.replacing {p p' : System} (h : BeginsRecreate p p') : Replacing p' := by
  rcases h with ⟨i, t', ht', hrecreates, _⟩
  refine ⟨t', List.mem_of_getElem? ht', ?_⟩
  revert hrecreates
  unfold Await.recreates
  split
  case h_1 swap image hawait =>
      intro _
      rw [hawait]
      rfl
  case h_2 =>
      intro hnone
      cases hnone

theorem Await.updating_of_replacing {w : Await} (h : w.replacing = true) : w.updating = true := by
  unfold Await.replacing at h
  split at h
  case h_1 =>
      rfl
  case h_2 =>
      cases h

/-! ## How the window opens -/

theorem InstallStep.replacing {s : State} {i : Install} {w : InstallAwait} {a : Settle}
    {r : State × Next} (h : InstallStep s i w a r) (hr : r.2.replacing = true) :
    w.replacing = true := by
  cases h with
  -- the target is up: the install saves, or ends
  | up =>
      rcases s.installed_cases i with ⟨_, heq⟩ | ⟨_, _, _, heq⟩ <;>
        · rw [heq] at hr
          cases hr
  | back => cases hr
  | saved options => cases hr
  | saveFailed options => cases hr
  | _ =>
      rfl

theorem inCheck_replacing (i : Install) (r : State × Next) :
    (State.inCheck i r).2.replacing = r.2.replacing := by
  rcases r with ⟨s, w | result⟩ <;> rfl

theorem inApply_replacing (i : Install) (r : State × Next) :
    (State.inApply i r).2.replacing = false := by
  rcases r with ⟨s, w | result⟩
  · rfl
  · cases result <;> rfl

theorem ApplyStep.replacing {s : State} {w : ApplyAwait} {a : Settle} {r : State × Await}
    (h : ApplyStep s w a r) : r.2.replacing = false := by
  cases h with
  | pulled => exact inApply_replacing _ _
  | install => exact inApply_replacing _ _
  | _ =>
      rfl

/-- The window opens only while the updater is not busy. -/
theorem TaskStep.replacing {s : State} {gen : ℕ} {w : Await} {a : Settle} {r : State × Await}
    (h : TaskStep s gen w a r) (hr : r.2.replacing = true) :
    w.replacing = true ∨ s.busy = false := by
  cases h with
  | startup h =>
      exact absurd (h.idle.symm.trans (Await.updating_of_replacing hr)) nofun
  | apply h =>
      exact absurd (h.replacing.symm.trans hr) nofun
  | check h =>
      cases h with
      | installs hwanted hbusy =>
          exact Or.inr hbusy
      | install hstep =>
          rw [inCheck_replacing] at hr
          exact Or.inl (hstep.replacing hr)
      | _ => cases hr
  | dbExport h =>
      cases h <;> cases hr

theorem Replacing.of_append {p p' : System} {t : Task} (htasks : p'.tasks = p.tasks ++ [t])
    (ht : t.await.replacing = false) (h : Replacing p') : Replacing p := by
  rcases h with ⟨u, hu, hreplacing⟩
  rw [htasks] at hu
  rcases List.mem_append.1 hu with hold | hnew
  · exact ⟨u, hold, hreplacing⟩
  · simp only [List.mem_singleton] at hnew
    subst hnew
    exact absurd (ht.symm.trans hreplacing) nofun

theorem Await.replacing_of_idle {w : Await} (h : w.updating = false) : w.replacing = false := by
  by_contra hreplacing
  rw [Bool.not_eq_false] at hreplacing
  exact absurd (h.symm.trans (Await.updating_of_replacing hreplacing)) nofun

theorem applyServerUpdate_replacing (s : State) (requested : String) :
    (s.applyServerUpdate requested).2.replacing = false := by
  unfold State.applyServerUpdate
  dsimp only
  split <;> rfl

theorem replacing_export {p p' : System} (hexport : p' = p ∨ ∃ s w, Frame p.state s ∧
      p' = p.begin p.state.lifecycleGeneration (s, .dbExport w))
    (hr : Replacing p') : Replacing p := by
  rcases hexport with rfl | ⟨s, w, _, rfl⟩
  · exact hr
  · exact hr.of_append rfl rfl

theorem replacing_step {p p' : System} {a : Action} (hs : pluginStep p a = some p')
    (hr : Replacing p') : Replacing p ∨ p.state.busy = false := by
  cases a with
  | start config =>
      cases hs
      exact Or.inl (hr.of_append rfl (Await.replacing_of_idle (asyncStart_idle _ _)))
  | stop =>
      cases hs
      exact Or.inl hr
  | apply manager tag valid =>
      cases hs
      unfold System.apply at hr
      split at hr
      case isTrue =>
          exact Or.inl hr
      case isFalse =>
          exact Or.inl (hr.of_append rfl (applyServerUpdate_replacing _ _))
  | timer =>
      simp only [pluginStep, Option.map_eq_some_iff] at hs
      rcases hs with ⟨timer, _, rfl⟩
      exact Or.inl (hr.of_append rfl (Await.replacing_of_idle (checkServerUpdate_idle _ _)))
  | settle i o =>
      rcases settle_cases hs with ⟨t, r, ht, hstep, rfl⟩
      -- the task inside the window is another one, or the one that has moved
      rcases hr with ⟨u, hu, hreplacing⟩
      rcases List.mem_or_eq_of_mem_set hu with hold | rfl
      · exact Or.inl ⟨u, hold, hreplacing⟩
      · rcases hstep.replacing hreplacing with hbefore | hbusy
        · exact Or.inl ⟨t, List.mem_of_getElem? ht, hbefore⟩
        · exact Or.inr hbusy
  | dbExport body =>
      exact Or.inl (replacing_export (export_cases (.dbExport body) rfl hs) hr)
  | backup =>
      exact Or.inl (replacing_export (export_cases .backup rfl hs) hr)
  | exportTick =>
      exact Or.inl (replacing_export (export_cases .exportTick rfl hs) hr)
  | hostRestore running =>
      cases hs
      exact Or.inl hr

theorem hostRestore_export {p p' : System} (hexport : p' = p ∨ ∃ s w, Frame p.state s ∧
      p' = p.begin p.state.lifecycleGeneration (s, .dbExport w)) :
    p'.state.hostRestoreRunning = p.state.hostRestoreRunning := by
  rcases hexport with rfl | ⟨s, w, hframe, rfl⟩
  · rfl
  · exact State.control_hostRestore hframe.1

/-- Only the restores change the flag that `isHostRestoreRunning()` reads. -/
theorem hostRestore_step {p p' : System} {a : Action} (hs : pluginStep p a = some p')
    (ha : ∀ running, a ≠ .hostRestore running) :
    p'.state.hostRestoreRunning = p.state.hostRestoreRunning := by
  cases a with
  | start config =>
      cases hs
      have hcontrol := (asyncStart_control (p.state.start config)
        (p.state.start config).lifecycleGeneration).1
      have hflag := State.control_hostRestore hcontrol
      exact hflag
  | stop =>
      cases hs
      rfl
  | apply manager tag valid =>
      cases hs
      unfold System.apply
      split
      · rfl
      · have hframe := applyServerUpdate_frame p.state (requestedTag p.state tag)
        have hflag := congrArg State.hostRestoreRunning hframe
        exact hflag
  | timer =>
      simp only [pluginStep, Option.map_eq_some_iff] at hs
      rcases hs with ⟨timer, _, rfl⟩
      have hframe := checkServerUpdate_state p.state.stopServerUpdateTimer timer.gen
      have hflag := congrArg State.hostRestoreRunning hframe
      exact hflag
  | settle i o =>
      rcases settle_cases hs with ⟨t, r, ht, hstep, rfl⟩
      exact hstep.keeps.hostRestore
  | dbExport body =>
      exact hostRestore_export (export_cases (.dbExport body) rfl hs)
  | backup =>
      exact hostRestore_export (export_cases .backup rfl hs)
  | exportTick =>
      exact hostRestore_export (export_cases .exportTick rfl hs)
  | hostRestore running =>
      exact absurd rfl (ha running)

/-! ## No overlap -/

/-- No recreate begins under a restore, and no restore is accepted inside the window. -/
def NoOverlap (h : Host β) (_ : HostAction β) (h' : Host β) : Prop :=
  (BeginsRecreate h.plugin h'.plugin → h.restore.status.state.isRunning = false) ∧
    (Replacing h.plugin → ∀ i, h'.restore.Started i → h.restore.Started i)

/-- No request keeps the restore slot inside the window. -/
def Unreserved (h : Host β) : HostAction β → Prop
  | .restore (.post request _) => Replacing h.plugin → Restore.reserves h.restore request = false
  | _ => True

structure Apart (h : Host β) : Prop where
  flag : h.plugin.state.hostRestoreRunning = h.restore.status.state.isRunning
  slot : Restore.SingleFlight h.restore
  free : Replacing h.plugin → h.restore.status.state.isRunning = false

theorem Installed.apart {h : Host β} (hinstalled : Installed h) : Apart h := by
  rcases hinstalled with ⟨hloaded, hregistered, hflag⟩
  have hidle : h.restore.status.state.isRunning = false := by
    rcases hregistered with ⟨_, _, heq⟩
    rw [heq]
    rfl
  exact ⟨hflag.trans hidle.symm, hregistered.singleFlight, fun _ => hidle⟩

/-- A plugin step that ends inside the window finds no restore running. -/
theorem Apart.of_replacing {h : Host β} {a : Action} {p : System} (hinv : Apart h)
    (hs : pluginStep h.plugin a = some p) (hr : Replacing p) :
    h.restore.status.state.isRunning = false := by
  rcases replacing_step hs hr with hbefore | hbusy
  · exact hinv.free hbefore
  · simp only [State.busy, Bool.or_eq_false_iff] at hbusy
    exact hinv.flag.symm.trans hbusy.2

theorem apart_step {cwd : List Char} {h h' : Host β} {a : HostAction β} (hinv : Apart h)
    (hquiet : Unreserved h a) (hs : (host cwd).step h a = some h') :
    Apart h' ∧ NoOverlap h a h' := by
  cases a with
  | plugin a =>
      rcases hostStep_plugin hs with ⟨p, hp, rfl, ha⟩
      refine ⟨⟨(hostRestore_step hp ha).trans hinv.flag, hinv.slot, hinv.of_replacing hp⟩, ?_, ?_⟩
      · intro hbegins
        exact hinv.of_replacing hp hbegins.replacing
      · intro _ i hi
        exact hi
  | restore a =>
      rcases hostStep_restore hs with ⟨r, hr, rfl⟩
      have hstep := Restore.ServerStep.of_step hr
      have hfree : Replacing h.plugin →
          r.status.state.isRunning = false ∧ ∀ i, r.Started i → h.restore.Started i := by
        intro hreplacing
        refine Restore.serverStep_free hinv.slot (hinv.free hreplacing) ?_ hstep
        rintro request stamp rfl
        exact hquiet hreplacing
      refine ⟨⟨rfl, Restore.singleFlight_step hinv.slot hstep, fun hr => (hfree hr).1⟩, ?_, ?_⟩
      · -- the tasks of the plugin stay as they are
        rintro ⟨i, t', ht', _, hnew⟩
        exact absurd rfl (hnew t' ht')
      · intro hreplacing
        exact (hfree hreplacing).2

/-- In runs in which no request keeps the restore slot inside the window, the updater and the
restores do not overlap. -/
theorem reachable_noOverlap {cwd : List Char} {h h' : Host β} {a : HostAction β}
    (hreach : (host cwd).ReachableUnder Unreserved Installed h) (hquiet : Unreserved h a)
    (hs : (host cwd).step h a = some h') : NoOverlap h a h' := by
  have hapart : Apart h :=
    hreach.invariant (fun _ hinstalled => hinstalled.apart) fun _ _ _ hinv hquiet hs =>
      (apart_step hinv hquiet hs).1
  exact (apart_step hapart hquiet hs).2

/-- A request that keeps the slot inside the window is accepted there, at once or after a probe that
finds nothing. -/
theorem reserved_breaks {cwd : List Char} {h : Host β} {request : Restore.HostRestoreRequest}
    {stamp : Restore.Stamp} (hwindow : Replacing h.plugin)
    (hreserves : Restore.reserves h.restore request = true) (hready : h.restore.upstream = true) :
    ∃ as a h₁ h₂, (as ++ [a]).head? = some (.restore (.post request stamp)) ∧
      (host cwd).run h as = some h₁ ∧ (host cwd).step h₁ a = some h₂ ∧ ¬NoOverlap h₁ a h₂ := by
  have hbreaks : ∀ {h₁ h₂ : Host β} {a : HostAction β} {n : ℕ}, Replacing h₁.plugin →
      h₂.restore.Started n → ¬h₁.restore.Started n → ¬NoOverlap h₁ a h₂ :=
    fun hreplacing hstarted hnew hapart => hnew (hapart.2 hreplacing _ hstarted)
  -- with consent the run begins at once, without it behind the probe
  cases hconfirm : request.confirmOverwrite with
  | true =>
      refine ⟨[], .restore (.post request stamp), h, _, rfl, rfl, rfl, ?_⟩
      refine hbreaks hwindow ?_ (Restore.not_started_length h.restore)
      rw [Restore.post_begins hreserves hconfirm]
      exact ⟨_, .stat, List.getElem?_concat_length, rfl⟩
  | false =>
      let n := h.restore.tasks.length
      let probed : Restore.Task β :=
        { ctx := { request, stamp, cwd }, phase := .probed false, start := h.restore.fs }
      let r : Restore.Server β :=
        { h.restore with
          status := Restore.preparingStatus probed.ctx
          tasks := h.restore.tasks ++ [probed] }
      have hrun : (host cwd).run h
          [.restore (.post request stamp), .restore (.settle n (.fails "ENOENT"))] =
            some (h.putRestore r) := by
        simp [Machine.run, host, hostStep, Restore.serverStep, Host.putRestore,
          Restore.post_probes hreserves hconfirm, n, r, probed]
      have hprobed : r.tasks[n]? = some probed := List.getElem?_concat_length
      have hresume : (host cwd).step (h.putRestore r) (.restore (.resume n)) =
          some ((h.putRestore r).putRestore
            { r with tasks := r.tasks.set n { probed with phase := .running .stat } }) := by
        simp [host, hostStep, Restore.serverStep, Host.putRestore, hprobed, Restore.begin, hready, r,
          probed]
      refine ⟨_, .restore (.resume n), _, _, rfl, hrun, hresume, hbreaks (n := n) hwindow ?_ ?_⟩
      · have hlt : n < r.tasks.length := (List.getElem?_eq_some_iff.1 hprobed).1
        exact ⟨_, .stat, List.getElem?_set_self hlt, rfl⟩
      · rintro ⟨t, await, ht, hphase⟩
        cases hprobed.symm.trans ht
        cases hphase

/-- A host on which nothing has happened yet. -/
def newHost : Host ℕ :=
  { plugin := unstarted
    restore := { fs := Restore.emptyDir, status := Restore.idleStatus, upstream := false } }

theorem newHost_installed : Installed newHost :=
  ⟨unstarted_loaded, ⟨_, _, rfl⟩, rfl⟩

/-- The updater's server does not answer, and the rollback begins; no restore was asked for. -/
theorem reachable_noOverlap_rollback :
    ∃ h h' : Host ℕ, (host ['/']).ReachableUnder Unreserved Installed h ∧
      (host ['/']).step h (.plugin (.settle 1 .fails)) = some h' ∧
      BeginsRecreate h.plugin h'.plugin ∧ h.restore.status.state.isRunning = false := by
  obtain ⟨h, hh⟩ : ∃ h, (host ['/']).run newHost (awaitsHealth.map .plugin) = some h := ⟨_, rfl⟩
  have hmeets : (host ['/']).Meets Unreserved newHost (awaitsHealth.map .plugin) :=
    .of_forall (by simp [awaitsHealth, pullsUpdate, firstCheck, Unreserved]) _
  have hreach : (host ['/']).ReachableUnder Unreserved Installed h :=
    .run (.init newHost_installed) hmeets hh
  cases hh
  have hapart := reachable_noOverlap (a := .plugin (.settle 1 .fails)) hreach trivial rfl
  refine ⟨_, _, hreach, rfl, ?begins, hapart.1 ?begins⟩
  exact ⟨1, _, rfl, rfl, by rintro t ⟨⟩; decide⟩

/-- A restore is accepted while the recreated server is asked for its health. -/
def acceptsInWindow : List (HostAction ℕ) :=
  awaitsHealth.map .plugin ++
    [.restore (.post { Restore.chartRequest with confirmOverwrite := true } Restore.newYear)]

/-- The server does not answer: the rollback recreates the container under the restore. -/
theorem reachable_overlaps :
    ∃ h h' : Host ℕ, (host ['/']).Reachable Installed h ∧
      (host ['/']).step h (.plugin (.settle 1 .fails)) = some h' ∧
      h.restore.status.state = .preparing ∧ h.restore.Started 0 ∧
      ¬NoOverlap h (.plugin (.settle 1 .fails)) h' := by
  obtain ⟨h, hh⟩ : ∃ h, (host ['/']).run newHost acceptsInWindow = some h := ⟨_, rfl⟩
  have hreach : (host ['/']).Reachable Installed h :=
    Machine.Reachable.run (.init newHost_installed) hh
  cases hh
  refine ⟨_, _, hreach, rfl, rfl, ⟨_, _, rfl, rfl⟩, ?_⟩
  intro hapart
  exact absurd (hapart.1 ⟨1, _, rfl, rfl, by rintro t ⟨⟩; decide⟩) (by decide)

end Plugin
end SignalKBackup
