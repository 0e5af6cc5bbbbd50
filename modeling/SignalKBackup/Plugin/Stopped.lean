import SignalKBackup.Plugin.Assembly

/-!
# Stopped — what is left behind stop()

`stop()` clears the timers, the subscriber and the reporter, and moves the generation on.  What it
cannot take back is the work in flight: a request that is past its checks goes on behind its await,
and a read of the event stream that has resolved is handled.

* `LeavesNothing`: after a step, nothing runs, is published or is asked of the container;
* `Await.revives`: the awaits behind which the work in flight arms or issues something all the same.

A stopped plugin stays as `stop()` left it exactly as long as no step revives it
(`reachable_leavesNothing`).
-/

namespace SignalKBackup

open Lib
open Config

/-! ## A stopped reporter -/

namespace Uplink

variable {T : Type}

/-- No subscription and no timer. -/
structure Idle (w : World T) : Prop where
  subscribed : w.subscribed = false
  resendTimer : w.resendTimer = none
  waitTimer : w.waitTimer = none

theorem Idle.congr {w w' : World T} (h : Idle w) (hsame : SameClock w w') : Idle w' := by
  refine ⟨hsame.subscribed.trans h.subscribed, ?_, hsame.waitTimer.trans h.waitTimer⟩
  have hstopped : ¬Running w' := by
    rw [hsame.running, Running, h.resendTimer]
    exact Bool.false_ne_true
  simpa [Running] using hstopped

theorem stop_idle (w : World T) : Idle (stop w) :=
  ⟨rfl, rfl, rfl⟩

theorem start_not_idle (b : Bool) (cached : List Delta) (w : World T) :
    ¬Idle (start b cached w) := by
  intro hidle
  have hrunning : Running (start b cached w) :=
    keeps_start (P := Running) (fun s v hs => publish_running v hs)
      (fun s hs => (report_sameClock b s).running.2 hs) cached rfl
  rw [Running, hidle.resendTimer] at hrunning
  cases hrunning

variable [DecidableEq T]

theorem Idle.step {b : Bool} {w w' : World T} (h : Idle w) {a : Action T} (hown : a.own = true)
    (hs : step b w a = some w') : Idle w' := by
  have hcases := Step.of_step hs
  cases hcases with
  | start cached => cases hown
  | stop => cases hown
  | report => cases hown
  | retarget t => cases hown
  | retargetStart t cached => cases hown
  | retargetStop t => cases hown
  | delta d hsubscribed =>
      rw [h.subscribed] at hsubscribed
      cases hsubscribed
  | waitFires hdue _ =>
      rw [h.waitTimer] at hdue
      cases hdue
  | resendFires hdue _ =>
      rw [h.resendTimer] at hdue
      cases hdue
  | sendTail _ =>
      unfold sendTail
      split
      · exact ⟨h.subscribed, h.resendTimer, h.waitTimer⟩
      · split <;> exact ⟨h.subscribed, h.resendTimer, h.waitTimer⟩
  | @reportTail i _ =>
      unfold reportTail
      dsimp only
      split
      · refine Idle.congr ?_ (report_sameClock b _)
        exact ⟨h.subscribed, h.resendTimer, h.waitTimer⟩
      · exact ⟨h.subscribed, h.resendTimer, h.waitTimer⟩
  | resolved _ =>
      unfold recordPut
      split <;> exact ⟨h.subscribed, h.resendTimer, h.waitTimer⟩
  | _ =>
      exact ⟨h.subscribed, h.resendTimer, h.waitTimer⟩

end Uplink

namespace Plugin

/-! ## A cleared plugin -/

/-- Nothing is connected, and no timer is armed. -/
structure State.Cleared (s : State) : Prop where
  client : s.client = none
  emitter : s.emitter = none
  dbExportTimer : s.dbExportTimer = none
  serverUpdateTimer : s.serverUpdateTimer = none

/-- The container is being recreated. -/
def Await.recreating : Await → Bool
  | .apply (.recreate _ _) => true
  | .apply (.install _ (.recreate _ _)) => true
  | .check (.install _ (.recreate _ _)) => true
  | _ => false

/-- The container is being started. -/
def Await.startsContainer : Await → Bool
  | .startup (.container _) => true
  | _ => false

/-- The install a task is at. -/
def Await.install : Await → Option Install
  | .apply (.install i _) => some i
  | .check (.install i _) => some i
  | _ => none

/-- Whether `container.start` starts anything, by whether its signal is aborted; the container helper
is another package. -/
abbrev ContainerStart := Bool → Bool

/-- The helper gives up on an aborted signal. -/
def ContainerStart.HonoursAbort (starts : ContainerStart) : Prop :=
  starts true = false

/-- A helper that looks at the signal. -/
def startsUnlessAborted : ContainerStart :=
  fun aborted => !aborted

theorem startsUnlessAborted_honoursAbort : startsUnlessAborted.HonoursAbort :=
  rfl

/-- A recreate is issued, or a start that the helper carries out; the signal of a `start()` is aborted
with its generation. -/
def Issues (starts : ContainerStart) (p p' : System) : Prop :=
  ∃ (i : ℕ) (t : Task), p'.tasks[i]? = some t ∧ p.tasks[i]? ≠ some t ∧
    (t.await.recreating = true ∨
      t.await.startsContainer = true ∧
        starts (decide (t.gen ≠ p'.state.lifecycleGeneration)) = true)

theorem ContainerStart.HonoursAbort.current {starts : ContainerStart} {gen now : ℕ}
    (h : starts.HonoursAbort) (hstarts : starts (decide (gen ≠ now)) = true) : gen = now := by
  by_contra hne
  rw [decide_eq_true hne, h] at hstarts
  cases hstarts

/-! ## The awaits that revive a stopped plugin -/

/-- The export would run on an interval. -/
def State.exportsManaged (s : State) : Bool :=
  s.settings.any fun c => c.managedContainer && c.databaseExport.enabled

def InstallAwait.revives (s : State) : InstallAwait → Settle → Bool
  -- the reporter is started again
  | .save _, .ok => true
  | .adopted .target, .ok => s.settings.isNone
  | _, _ => false

/-- The awaits behind which nothing looks whether the plugin was stopped meanwhile. -/
def Await.revives (s : State) : Await → Settle → Bool
  | .dbExport (.save _), .ok => s.exportsManaged
  -- the container is recreated
  | .apply .check, .update answer _ => (concreteUpdate answer).isNone
  | .apply (.pull _), .ok => true
  | .apply (.health _ _ _), .ok => true
  | .apply (.install _ w), a => w.revives s a
  | .check (.install _ w), a => w.revives s a
  | _, _ => false

/-- A task of an earlier lifecycle, with its install. -/
structure Task.Before (t : Task) (generation : ℕ) : Prop where
  gen : t.gen < generation
  install : ∀ i, t.await.install = some i → i.gen < generation

/-! ## One step of a stopped plugin -/

theorem State.startDbExportTimer_exports (s : State) :
    s.startDbExportTimer.dbExportTimer.isSome = s.exportsManaged := by
  unfold State.startDbExportTimer State.exportsManaged
  split
  case h_1 hnone =>
      rw [hnone]
      rfl
  case h_2 c hsome =>
      rw [hsome]
      dsimp only
      split
      case isTrue hidle =>
          simp only [State.stopDbExportTimer, Option.isSome_none, Option.any_some]
          cases hmanaged : c.managedContainer with
          | true =>
              simpa [hmanaged] using hidle
          | false =>
              rfl
      case isFalse hactive =>
          simp only [Bool.or_eq_true, Bool.not_eq_true', not_or, Bool.not_eq_false] at hactive
          simp [hactive.1, hactive.2]

/-- What the code behind an await leaves as it is: the cleared variables stay, the container is left
alone, and an install goes on as the install it was. -/
structure Inactive (s : State) (gen : ℕ) (w : Await) (r : State × Await) : Prop where
  armed : r.1.armed = s.armed
  recreates : r.2.recreating = false
  starts : r.2.startsContainer = true → gen ≠ s.lifecycleGeneration
  install : ∀ i, r.2.install = some i → w.install = some i

section Step

variable {s : State} {gen : ℕ} {a : Settle} {r : State × Await}

/-- The next await is none of the container's, and no part of an install. -/
theorem Inactive.of_armed {w : Await} (harmed : r.1.armed = s.armed)
    (hrecreating : r.2.recreating = false) (hstarts : r.2.startsContainer = false)
    (hinstall : r.2.install = none) : Inactive s gen w r := by
  refine ⟨harmed, hrecreating, fun hstarting => ?_, fun i hi => ?_⟩
  · rw [hstarts] at hstarting
    cases hstarting
  · rw [hinstall] at hi
    cases hi

theorem StartupStep.inactive {w : StartupAwait} (hgen : gen ≠ s.lifecycleGeneration)
    (h : StartupStep s gen w a r) : Inactive s gen (.startup w) r := by
  cases h with
  | external url =>
      refine .of_armed ?_ rfl rfl rfl
      simp only [State.finishExternal, ne_eq, hgen, not_false_eq_true, if_true]
  | unreachable url hcurrent => exact absurd hcurrent hgen
  | retry url hcurrent => exact absurd hcurrent hgen
  | manager hcurrent => exact absurd hcurrent hgen
  | resolved hcurrent => exact absurd hcurrent hgen
  | resolvedSaving hcurrent => exact absurd hcurrent hgen
  | container image address hcurrent => exact absurd hcurrent hgen
  | saved options =>
      exact ⟨rfl, rfl, fun _ => hgen, by simp [State.containerStart, Await.install]⟩
  | saveFailed options =>
      exact ⟨rfl, rfl, fun _ => hgen, by simp [State.containerStart, Await.install]⟩
  | _ =>
      exact .of_armed rfl rfl rfl rfl

/-- A swap of a superseded install is not rolled back. -/
theorem State.swapFailed_superseded (s : State) {i : Install} (hgen : i.gen ≠ s.lifecycleGeneration)
    (swap : Swap) : s.swapFailed i swap = s.installFailed i .notBack := by
  rcases s.swapFailed_cases i swap with hfailed | ⟨_, hcurrent, _⟩
  · exact hfailed
  · exact absurd hcurrent hgen

/-- The same of an install, which is a part of two kinds of tasks. -/
structure InstallInactive (s : State) (r : State × Next) : Prop where
  armed : r.1.armed = s.armed
  recreates : ∀ swap image, r.2 ≠ .await (.recreate swap image)

theorem InstallStep.inactive {i : Install} {w : InstallAwait} {r : State × Next}
    (hclient : s.client = none) (hgen : i.gen ≠ s.lifecycleGeneration)
    (hno : w.revives s a = false) (h : InstallStep s i w a r) : InstallInactive s r := by
  cases h with
  | recreated swap image =>
      exact ⟨rfl, by simp⟩
  | recreateFailed swap image container =>
      rw [State.swapFailed_superseded { s with container } hgen]
      exact ⟨rfl, by simp [State.installFailed]⟩
  | located swap addr =>
      exact ⟨rfl, by simp⟩
  | notLocated swap _ =>
      rw [s.swapFailed_superseded hgen]
      exact ⟨rfl, by simp [State.installFailed]⟩
  | answered swap addr =>
      -- without a client no address is adopted
      rw [State.adoptServerAddress_none hclient]
      exact ⟨rfl, by simp⟩
  | noAnswer swap addr =>
      rw [s.swapFailed_superseded hgen]
      exact ⟨rfl, by simp [State.installFailed]⟩
  | up =>
      rcases s.installed_cases i with ⟨hunloaded, _⟩ | ⟨s', options, hsave, heq⟩
      · simp [InstallAwait.revives, hunloaded] at hno
      · rw [heq]
        exact ⟨State.persistAppliedTag_armed hsave, by simp⟩
  | back =>
      exact ⟨rfl, by simp [State.installFailed]⟩
  | saved options => cases hno
  | saveFailed options =>
      exact ⟨rfl, by simp⟩

theorem InstallInactive.inApply {i : Install} {w : InstallAwait} {r : State × Next}
    (h : InstallInactive s r) : Inactive s gen (.apply (.install i w)) (State.inApply i r) := by
  refine ⟨by rw [inApply_state]; exact h.armed, ?_, ?_, ?_⟩
  all_goals rcases r with ⟨s', w' | result⟩
  · cases w' with
    | recreate swap image =>
        exact absurd rfl (h.recreates swap image)
    | _ =>
        rfl
  · cases result <;> rfl
  · simp [State.inApply, Await.startsContainer]
  · cases result <;> simp [State.inApply, Await.startsContainer]
  · simp [State.inApply, Await.install]
  · cases result <;> simp [State.inApply, Await.install]

theorem InstallInactive.inCheck {i : Install} {w : InstallAwait} {r : State × Next}
    (h : InstallInactive s r) : Inactive s gen (.check (.install i w)) (State.inCheck i r) := by
  refine ⟨by rw [inCheck_state]; exact h.armed, ?_, ?_, ?_⟩
  all_goals rcases r with ⟨s', w' | result⟩
  · cases w' with
    | recreate swap image =>
        exact absurd rfl (h.recreates swap image)
    | _ =>
        rfl
  · rfl
  · simp [State.inCheck, Await.startsContainer]
  · simp [State.inCheck, Await.startsContainer]
  · simp [State.inCheck, Await.install]
  · simp [State.inCheck, Await.install]

theorem ApplyStep.inactive {w : ApplyAwait} (hclient : s.client = none)
    (hgen : ∀ i, (Await.apply w).install = some i → i.gen ≠ s.lifecycleGeneration)
    (hno : (Await.apply w).revives s a = false) (h : ApplyStep s w a r) :
    Inactive s gen (.apply w) r := by
  cases h with
  | noUpdate check manager hnone =>
      simp [Await.revives, hnone] at hno
  | pulled _ => cases hno
  | answered image addr saveFailed => cases hno
  | install hstep =>
      exact (hstep.inactive hclient (hgen _ rfl) hno).inApply
  | recreatedSaving hsave =>
      have harmed := State.persistAppliedTag_armed hsave
      exact .of_armed harmed rfl rfl rfl
  | located image addr saveFailed =>
      rw [State.adoptServerAddress_none hclient]
      exact .of_armed rfl rfl rfl rfl
  | scheduled tag hsome =>
      -- the updater is scheduled only beside a client
      rw [hclient] at hsome
      cases hsome
  | _ =>
      exact .of_armed rfl rfl rfl rfl

theorem CheckStep.inactive {w : CheckAwait} (hclient : s.client = none)
    (hgen : gen ≠ s.lifecycleGeneration)
    (hinstall : ∀ i, (Await.check w).install = some i → i.gen ≠ s.lifecycleGeneration)
    (hno : (Await.check w).revives s a = false) (h : CheckStep s gen w a r) :
    Inactive s gen (.check w) r := by
  cases h with
  | picked hwanted => exact absurd (State.wanted_generation hwanted) hgen
  | linkUp target hwanted => exact absurd (State.wanted_generation hwanted) hgen
  | pulled target hwanted => exact absurd (State.wanted_generation hwanted) hgen
  | installs hwanted => exact absurd (State.wanted_generation hwanted) hgen
  | scheduled nextMs hcurrent => exact absurd hcurrent hgen
  | install hstep =>
      exact (hstep.inactive hclient (hinstall _ rfl) hno).inCheck
  | _ =>
      exact .of_armed rfl rfl rfl rfl

theorem ExportStep.inactive {w : ExportAwait} (hcleared : s.Cleared)
    (hno : (Await.dbExport w).revives s a = false) (h : ExportStep s w a r) :
    Inactive s gen (.dbExport w) r := by
  cases h with
  | saved options =>
      have hexports := State.startDbExportTimer_exports { s with stored := some options }
      have hidle : (State.startDbExportTimer { s with stored := some options }).dbExportTimer = none := by
        have hmanaged : State.exportsManaged { s with stored := some options } = false := hno
        simpa [hmanaged] using hexports
      refine .of_armed ?_ rfl rfl rfl
      have harmed := State.startDbExportTimer_armed { s with stored := some options }
      rw [hidle] at harmed
      rw [harmed]
      simp [State.armed, hcleared.dbExportTimer]
  | saveFailed options =>
      exact .of_armed rfl rfl rfl rfl
  | exported =>
      exact .of_armed rfl rfl rfl rfl

theorem TaskStep.inactive {w : Await} (hcleared : s.Cleared) (hgen : gen ≠ s.lifecycleGeneration)
    (hinstall : ∀ i, w.install = some i → i.gen ≠ s.lifecycleGeneration)
    (hno : w.revives s a = false) (h : TaskStep s gen w a r) : Inactive s gen w r := by
  cases h with
  | startup h =>
      exact h.inactive hgen
  | apply h =>
      exact h.inactive hcleared.client hinstall hno
  | check h =>
      exact h.inactive hcleared.client hgen hinstall hno
  | dbExport h =>
      exact h.inactive hcleared hno

/-- Something runs again, or the container is being recreated. -/
inductive Revived (s : State) (w : Await) (r : State × Await) : Prop where
  | dbExport : r.1.dbExportTimer.isSome = true → Revived s w r
  | recreates : r.2.recreating = true → w.recreating = false → Revived s w r
  | reporter : r.1.uplinkStarts ≠ s.uplinkStarts → Revived s w r

/-- An install that revives the plugin starts the reporter. -/
theorem installStep_revived {i : Install} {w : InstallAwait} {r : State × Next}
    (hrevives : w.revives s a = true) (h : installStep s i w a = some r) :
    r.1.uplinkStarts ≠ s.uplinkStarts := by
  unfold InstallAwait.revives at hrevives
  split at hrevives
  case h_1 options =>
      cases h
      exact Nat.succ_ne_self _
  case h_2 =>
      cases h
      rcases s.installed_cases i with ⟨_, heq⟩ | ⟨s', options, hsave, _⟩
      · rw [heq]
        exact Nat.succ_ne_self _
      · have hnone : s.persistAppliedTag "auto" i.target = none :=
          State.persistAppliedTag_eq_none.2 (Option.isNone_iff_eq_none.1 hrevives)
        rw [hsave] at hnone
        cases hnone
  case h_3 =>
      cases hrevives

theorem applyStep_revived {w : ApplyAwait} (hrevives : (Await.apply w).revives s a = true)
    (h : s.applyStep w a = some r) : Revived s (.apply w) r := by
  cases w with
  | check =>
      cases a with
      | update answer manager =>
          have hnone : concreteUpdate answer = none := Option.isNone_iff_eq_none.1 hrevives
          simp only [State.applyStep] at h
          split at h
          case h_1 =>
              cases h
              exact .recreates rfl rfl
          case h_2 latest hlatest =>
              rw [concreteUpdate, hlatest] at hnone
              have hother : isConcreteSemver latest = false := by simpa using hnone
              rw [hother] at h
              cases h
              exact .recreates rfl rfl
      | _ => cases hrevives
  | pull latest =>
      cases a with
      | ok =>
          -- the install takes the generation as it is behind the pull
          have hinstall := s.installServerRelease_current latest
          simp only [State.applyStep, hinstall] at h
          cases h
          exact .recreates rfl rfl
      | _ => cases hrevives
  | health image addr saveFailed =>
      cases a with
      | ok =>
          cases h
          exact .reporter (Nat.succ_ne_self _)
      | _ => cases hrevives
  | install i w =>
      rcases Option.map_eq_some_iff.1 h with ⟨next, hstep, rfl⟩
      refine .reporter ?_
      rw [inApply_state]
      exact installStep_revived hrevives hstep
  | _ => cases a <;> cases hrevives

theorem taskStep_revived {t : Task} (hrevives : t.await.revives s a = true)
    (h : t.step s a = some r) : Revived s t.await r := by
  unfold Task.step at h
  split at h
  case h_1 w hw =>
      rw [hw] at hrevives
      cases hrevives
  case h_2 w hw =>
      rw [hw] at hrevives ⊢
      exact applyStep_revived hrevives h
  case h_3 w hw =>
      rw [hw] at hrevives ⊢
      cases w with
      | install i w =>
          rcases Option.map_eq_some_iff.1 h with ⟨next, hstep, rfl⟩
          refine .reporter ?_
          rw [inCheck_state]
          exact installStep_revived hrevives hstep
      | _ => cases hrevives
  case h_4 w hw =>
      rw [hw] at hrevives ⊢
      cases w with
      | save options =>
          cases a with
          | ok =>
              cases h
              refine .dbExport ?_
              rw [State.startDbExportTimer_exports]
              exact hrevives
          | _ => cases hrevives
      | tick => cases hrevives
  case h_5 =>
      cases h

end Step

/-! ## The generations of the installs -/

theorem State.installServerRelease_gen {s : State} {target : String} {gen : ℕ} {i : Install}
    {r : State × Next} (h : s.installServerRelease target gen = (i, r)) : i.gen = gen := by
  unfold State.installServerRelease at h
  dsimp only at h
  split at h
  case h_1 =>
      cases h
      rfl
  case h_2 =>
      cases h
      rfl

theorem inApply_install {i j : Install} {r : State × Next}
    (h : (State.inApply i r).2.install = some j) : j = i := by
  rcases r with ⟨s, w | result⟩
  · cases h
    rfl
  · cases result <;> cases h

theorem inCheck_install {i j : Install} {r : State × Next}
    (h : (State.inCheck i r).2.install = some j) : j = i := by
  rcases r with ⟨s, w | result⟩
  · cases h
    rfl
  · cases h

/-- An install is the one the task was at, or is begun for the task's or the current generation. -/
theorem TaskStep.install_from {s : State} {gen : ℕ} {w : Await} {a : Settle} {r : State × Await}
    (h : TaskStep s gen w a r) {i : Install} (hi : r.2.install = some i) :
    w.install = some i ∨ i.gen = gen ∨ i.gen = s.lifecycleGeneration := by
  cases h with
  | startup h =>
      cases h <;> cases hi
  | apply h =>
      cases h with
      | pulled hinstall =>
          rw [inApply_install hi]
          exact Or.inr (Or.inr (State.installServerRelease_gen hinstall))
      | install hstep =>
          rw [inApply_install hi]
          exact Or.inl rfl
      | _ => cases hi
  | check h =>
      cases h with
      | installs _ _ _ _ hinstall =>
          rw [inCheck_install hi]
          exact Or.inr (Or.inl (State.installServerRelease_gen hinstall))
      | install hstep =>
          rw [inCheck_install hi]
          exact Or.inl rfl
      | _ => cases hi
  | dbExport h =>
      cases h <;> cases hi

/-- No install is ahead of the current generation. -/
def Dated (p : System) : Prop :=
  ∀ t ∈ p.tasks, ∀ i, t.await.install = some i → i.gen ≤ p.state.lifecycleGeneration

theorem generation_mono {p p' : System} {a : Action} (hs : pluginStep p a = some p') :
    p.state.lifecycleGeneration ≤ p'.state.lifecycleGeneration := by
  cases a with
  | start config =>
      cases hs
      have hcontrol := (asyncStart_control (p.state.start config)
        (p.state.start config).lifecycleGeneration).1
      have hgen : (p.start config).state.lifecycleGeneration = p.state.lifecycleGeneration + 1 :=
        State.control_generation hcontrol
      omega
  | stop =>
      cases hs
      exact Nat.le_succ _
  | settle i o =>
      rcases settle_cases hs with ⟨t, r, _, hstep, rfl⟩
      exact hstep.keeps.generation.ge
  | _ =>
      exact (calm_outside rfl hs).2.ge

theorem Await.install_of_first {w : Await} (h : w.first = true) : w.install = none := by
  unfold Await.install
  split
  case h_1 =>
      cases h
  case h_2 =>
      cases h
  case h_3 =>
      rfl

theorem dated_step {p p' : System} {a : Action} (h : Dated p) (hconnected : Connected p)
    (hs : pluginStep p a = some p') : Dated p' := by
  intro t' ht' j hj
  rcases List.getElem?_of_mem ht' with ⟨k, hk⟩
  have hmono := generation_mono hs
  have hcase := task_cases hs hk
  cases hcase with
  | same hold _ =>
      exact (h t' (List.mem_of_getElem? hold) j hj).trans hmono
  | @moved t o r _ ht hstep heq _ =>
      rw [heq] at hj
      rcases hstep.install_from hj with hsame | hgen | hgen
      · exact (h t (List.mem_of_getElem? ht) j hsame).trans hmono
      · rw [hgen]
        exact (hconnected.bound t (List.mem_of_getElem? ht)).trans hmono
      · rw [hgen]
        exact hmono
  | begun _ hfirst =>
      rw [Await.install_of_first hfirst] at hj
      cases hj

/-- `POST /api/update/apply`, `POST /api/db-export/config` and `POST /api/backups`. -/
def Action.isRequest : Action → Bool
  | .apply _ _ _ => true
  | .dbExport _ => true
  | .backup => true
  | _ => false

namespace Assembly

variable (p : Assembly)

/-- Requests arrive before `stop()` only. -/
def inScope : AssemblyAction → Bool
  | .plugin a _ => !(p.stopped && a.isRequest)
  | _ => true

/-- Work in flight goes on behind an await that revives the stopped plugin, or with a late chunk. -/
def revives (parse : List Char → Option Deltas.Event) : AssemblyAction → Bool
  | .plugin (.settle i o) _ =>
      p.stopped && p.plugin.tasks[i]?.any fun t => t.await.revives p.plugin.state o
  | .stream a => p.stopped && p.streams.late parse a
  | _ => false

/-- Requests arrive before `stop()`, and no step revives the plugin behind it. -/
def Kept (parse : List Char → Option Deltas.Event) (p : Assembly) (a : AssemblyAction) : Prop :=
  p.inScope a = true ∧ p.revives parse a = false

instance (parse : List Char → Option Deltas.Event) (p : Assembly) (a : AssemblyAction) :
    Decidable (Kept parse p a) :=
  inferInstanceAs (Decidable (_ ∧ _))

/-- Nothing is armed behind a step, and in it nothing is published and nothing asked of the
container. -/
structure LeavesNothing (starts : ContainerStart) (p p' : Assembly) : Prop where
  dbExportTimer : p'.plugin.state.dbExportTimer = none
  serverUpdateTimer : p'.plugin.state.serverUpdateTimer = none
  uplink : Uplink.Idle p'.uplink
  reconnectTimers : ∀ u ∈ p'.streams.subscribers, u.emitter.reconnectTimer = none
  deltas : p'.streams.deltas = p.streams.deltas
  issues : ¬Issues starts p.plugin p'.plugin

/-- Between `stop()` and the next `start()`. -/
structure Halted (p : Assembly) : Prop where
  cleared : p.plugin.state.Cleared
  tasks : ∀ t ∈ p.plugin.tasks, t.Before p.plugin.state.lifecycleGeneration
  uplink : Uplink.Idle p.uplink
  streams : p.streams.state = none

structure Halts (p : Assembly) : Prop where
  generations : Generations p.plugin
  connected : Connected p.plugin
  dated : Dated p.plugin
  sound : p.streams.Sound
  halted : p.stopped = true → Halted p

variable {p} {starts : ContainerStart}

theorem not_issues_of_tasks {q q' : System} (h : q'.tasks = q.tasks) : ¬Issues starts q q' := by
  rintro ⟨i, t, ht', ht, _⟩
  rw [h] at ht'
  exact ht ht'

/-- A step that ends in a stopped plugin, with nothing published and nothing asked of the container. -/
structure Rests (starts : ContainerStart) (p p' : Assembly) : Prop where
  halted : Halted p'
  deltas : p'.streams.deltas = p.streams.deltas
  issues : ¬Issues starts p.plugin p'.plugin

theorem Rests.leavesNothing {p' : Assembly} (h : Rests starts p p') (hsound : p'.streams.Sound) :
    LeavesNothing starts p p' :=
  ⟨h.halted.cleared.dbExportTimer, h.halted.cleared.serverUpdateTimer, h.halted.uplink,
    fun _ hu => hsound.no_timer h.halted.streams hu, h.deltas, h.issues⟩

end Assembly

section Run

variable {hasPluginsList : Bool} {parse : List Char → Option Deltas.Event} {p p' : Assembly}
  {starts : ContainerStart}

theorem callEmitter_none {s s' : State} (h : s'.emitter = none) (streams : Deltas.Streams) :
    (callEmitter s s' streams).state = none ∧
      (callEmitter s s' streams).deltas = streams.deltas := by
  unfold callEmitter
  rw [h]
  exact ⟨Deltas.Streams.stopSignalKEmitter_state, Deltas.Streams.stopSignalKEmitter_deltas⟩

/-- A reporter that the plugin leaves alone stays idle. -/
theorem callReporter_idle {cached : List Uplink.Delta} {a : Action} {s s' : State}
    {w : Uplink.World Client} (h : Uplink.Idle w) (harmed : s'.armed = s.armed) :
    Uplink.Idle (callReporter hasPluginsList cached a s s' w) := by
  have hstarts : s'.uplinkStarts = s.uplinkStarts := congrArg Armed.uplinkStarts harmed
  have hclient : s'.client = s.client := congrArg Armed.client harmed
  unfold callReporter
  split
  case h_1 =>
      exact Uplink.stop_idle _
  case h_2 =>
      exact Uplink.stop_idle _
  case h_3 =>
      simp only [hstarts, hclient, ne_eq, not_true_eq_false, if_false]
      exact ⟨h.subscribed, h.resendTimer, h.waitTimer⟩

theorem State.Cleared.of_armed {s s' : State} (h : s.Cleared) (harmed : s'.armed = s.armed) :
    s'.Cleared :=
  ⟨(congrArg Armed.client harmed).trans h.client, (congrArg Armed.emitter harmed).trans h.emitter,
    (congrArg Armed.dbExportTimer harmed).trans h.dbExportTimer,
    (congrArg Armed.serverUpdateTimer harmed).trans h.serverUpdateTimer⟩

/-- `stop()`: what is in flight now belongs to an earlier lifecycle. -/
theorem rests_stop (h : Assembly.Halts p) {cached : List Uplink.Delta}
    (hs : assemblyStep hasPluginsList parse p (.plugin .stop cached) = some p') :
    Assembly.Rests starts p p' := by
  cases hs
  have hcleared : p.plugin.state.stop.Cleared := ⟨rfl, rfl, rfl, rfl⟩
  have hemitter := callEmitter_none (s := p.plugin.state) hcleared.emitter p.streams
  refine ⟨⟨hcleared, fun t ht => ?_, Uplink.stop_idle _, hemitter.1⟩, hemitter.2,
    Assembly.not_issues_of_tasks rfl⟩
  exact ⟨Nat.lt_succ_of_le (h.connected.bound t ht),
    fun i hi => Nat.lt_succ_of_le (h.dated t ht i hi)⟩

/-- Work in flight settles behind `stop()`. -/
theorem rests_settle (h : Assembly.Halted p) (hstopped : p.stopped = true)
    (hhonours : starts.HonoursAbort) {i : ℕ} {o : Settle} {cached : List Uplink.Delta}
    (hno : p.revives parse (.plugin (.settle i o) cached) = false)
    (hs : assemblyStep hasPluginsList parse p (.plugin (.settle i o) cached) = some p') :
    Assembly.Rests starts p p' := by
  rcases Option.map_eq_some_iff.1 hs with ⟨q, hq, rfl⟩
  rcases settle_cases hq with ⟨t, r, ht, hstep, rfl⟩
  have hbefore := h.tasks t (List.mem_of_getElem? ht)
  have hquiet : t.await.revives p.plugin.state o = false := by
    simpa [Assembly.revives, hstopped, ht] using hno
  have hinactive := hstep.inactive h.cleared hbefore.gen.ne (fun j hj => (hbefore.install j hj).ne)
    hquiet
  have hgen := hstep.keeps.generation
  have hcleared := h.cleared.of_armed hinactive.armed
  have hemitter := callEmitter_none (s := p.plugin.state) hcleared.emitter p.streams
  have hidle : Uplink.Idle
      (callReporter hasPluginsList cached (.settle i o) p.plugin.state r.1 p.uplink) :=
    callReporter_idle h.uplink hinactive.armed
  refine ⟨⟨hcleared, fun t' ht' => ?_, hidle, hemitter.1⟩, hemitter.2, ?_⟩
  · change t'.Before r.1.lifecycleGeneration
    rw [hgen]
    rcases List.mem_or_eq_of_mem_set ht' with hold | rfl
    · exact h.tasks t' hold
    · exact ⟨hbefore.gen, fun j hj => hbefore.install j (hinactive.install j hj)⟩
  · rintro ⟨k, t', hk', hk, hissued⟩
    -- the only await that is new is that of the task
    rcases getElem?_set_cases hk' with ⟨rfl, rfl⟩ | ⟨_, hold⟩
    · rcases hissued with hrecreates | ⟨hstarts, hcarried⟩
      · exact absurd (hinactive.recreates.symm.trans hrecreates) (by simp)
      · exact hinactive.starts hstarts ((hhonours.current hcarried).trans hgen)
    · exact hk hold

theorem request_out_of_scope (hstopped : p.stopped = true) {a : Action} (ha : a.isRequest = true)
    {cached : List Uplink.Delta} : ¬p.inScope (.plugin a cached) = true := by
  simp [Assembly.inScope, hstopped, ha]

/-- What a stopped plugin does besides: no timer is armed, so none fires. -/
theorem rests_plugin (h : Assembly.Halts p) (hhonours : starts.HonoursAbort) {a : Action}
    {cached : List Uplink.Delta}
    (hkept : Assembly.Kept parse p (.plugin a cached))
    (hs : assemblyStep hasPluginsList parse p (.plugin a cached) = some p')
    (hstopped : p'.stopped = true) : Assembly.Rests starts p p' := by
  have hflag : a.stops p.stopped = true := by
    rcases Option.map_eq_some_iff.1 hs with ⟨q, _, rfl⟩
    exact hstopped
  cases a with
  | start config => cases hflag
  | stop =>
      exact rests_stop h hs
  | settle i o =>
      exact rests_settle (h.halted hflag) hflag hhonours hkept.2 hs
  | timer =>
      have hnone := (h.halted hflag).cleared.serverUpdateTimer
      simp [assemblyStep, pluginStep, hnone] at hs
  | exportTick =>
      have hnone := (h.halted hflag).cleared.dbExportTimer
      simp [assemblyStep, pluginStep, hnone] at hs
  | hostRestore running =>
      have hhalted := h.halted hflag
      cases hs
      have hcleared : State.Cleared { p.plugin.state with hostRestoreRunning := running } :=
        hhalted.cleared.of_armed rfl
      have hemitter := callEmitter_none (s := p.plugin.state) hcleared.emitter p.streams
      have hidle : Uplink.Idle (callReporter hasPluginsList cached (.hostRestore running)
          p.plugin.state { p.plugin.state with hostRestoreRunning := running } p.uplink) :=
        callReporter_idle hhalted.uplink rfl
      exact ⟨⟨hcleared, hhalted.tasks, hidle, hemitter.1⟩, hemitter.2,
        Assembly.not_issues_of_tasks rfl⟩
  | apply manager tag valid =>
      exact absurd hkept.1 (request_out_of_scope hflag rfl)
  | dbExport body =>
      exact absurd hkept.1 (request_out_of_scope hflag rfl)
  | backup =>
      exact absurd hkept.1 (request_out_of_scope hflag rfl)

/-- A step of a stopped plugin, of its reporter or of a subscriber. -/
theorem rests_step (h : Assembly.Halts p) (hhonours : starts.HonoursAbort) {a : AssemblyAction}
    (hkept : Assembly.Kept parse p a)
    (hs : assemblyStep hasPluginsList parse p a = some p') (hstopped : p'.stopped = true) :
    Assembly.Rests starts p p' := by
  cases a with
  | plugin a cached =>
      exact rests_plugin h hhonours hkept hs hstopped
  | uplink a =>
      rcases uplink_cases hs with ⟨hown, w, hw, rfl⟩
      have hhalted := h.halted hstopped
      exact ⟨⟨hhalted.cleared, hhalted.tasks, hhalted.uplink.step hown hw, hhalted.streams⟩, rfl,
        Assembly.not_issues_of_tasks rfl⟩
  | stream a =>
      rcases Option.map_eq_some_iff.1 hs with ⟨streams, hstreams, rfl⟩
      have hhalted := h.halted hstopped
      have hstate := (h.sound.step hstreams).2
      have hlate : p.streams.late parse a = false := by
        have hstopped' : p.stopped = true := hstopped
        simpa [Assembly.revives, hstopped'] using hkept.2
      have hdeltas := (h.sound.published hhalted.streams hstreams).2 hlate
      exact ⟨⟨hhalted.cleared, hhalted.tasks, hhalted.uplink, hstate.trans hhalted.streams⟩, hdeltas,
        Assembly.not_issues_of_tasks rfl⟩

theorem halts_step (h : Assembly.Halts p) {a : AssemblyAction} (hkept : Assembly.Kept parse p a)
    (hs : assemblyStep hasPluginsList parse p a = some p') : Assembly.Halts p' := by
  have hsound := sound_step h.sound hs
  have hhalted : p'.stopped = true → Assembly.Halted p' := fun hstopped =>
    (rests_step h startsUnlessAborted_honoursAbort hkept hs hstopped).halted
  cases a with
  | plugin a cached =>
      rcases Option.map_eq_some_iff.1 hs with ⟨q, hq, rfl⟩
      exact ⟨generations_step h.generations hq, connected_step h.connected h.generations hq,
        dated_step h.dated h.connected hq, hsound, hhalted⟩
  | uplink a =>
      rcases uplink_cases hs with ⟨_, w, _, rfl⟩
      exact ⟨h.generations, h.connected, h.dated, hsound, hhalted⟩
  | stream a =>
      rcases Option.map_eq_some_iff.1 hs with ⟨streams, _, rfl⟩
      exact ⟨h.generations, h.connected, h.dated, hsound, hhalted⟩

theorem Assembled.halts (h : Assembled p) : Assembly.Halts p := by
  refine ⟨h.plugin.generations, h.plugin.connected, fun t ht => ?_, ⟨?_, ?_⟩, fun hstopped => ?_⟩
  · rw [h.plugin.1] at ht
    cases ht
  · rw [h.subscribers]
    simp
  · rw [h.subscribers]
    simp
  · rw [h.stopped] at hstopped
    cases hstopped

/-- An await that revives a stopped plugin leaves something behind. -/
theorem settle_leaves {i : ℕ} {o : Settle} {cached : List Uplink.Delta}
    (hrevives : p.revives parse (.plugin (.settle i o) cached) = true)
    (hs : assemblyStep hasPluginsList parse p (.plugin (.settle i o) cached) = some p') :
    ¬Assembly.LeavesNothing starts p p' := by
  intro hleaves
  rcases Option.map_eq_some_iff.1 hs with ⟨q, hq, rfl⟩
  simp only [pluginStep, Option.bind_eq_some_iff, Option.map_eq_some_iff] at hq
  rcases hq with ⟨t, ht, r, hstep, rfl⟩
  have hawait : t.await.revives p.plugin.state o = true := by
    simp only [Assembly.revives, ht, Option.any_some, Bool.and_eq_true] at hrevives
    exact hrevives.2
  have hrevived := taskStep_revived hawait hstep
  cases hrevived with
  | dbExport harmed =>
      have hnone : r.1.dbExportTimer = none := hleaves.dbExportTimer
      rw [hnone] at harmed
      cases harmed
  | recreates hnew hold =>
      -- the recreate is new: the task was not at one
      refine hleaves.issues ⟨i, { t with await := r.2 }, ?_, ?_, Or.inl hnew⟩
      · exact List.getElem?_set_self (List.getElem?_eq_some_iff.1 ht).1
      · rw [ht]
        intro hsame
        have hawaits : t.await = r.2 := congrArg Task.await (Option.some.inj hsame)
        rw [hawaits, hnew] at hold
        cases hold
  | reporter hstarts =>
      have hidle : Uplink.Idle
          (callReporter hasPluginsList cached (.settle i o) p.plugin.state r.1 p.uplink) :=
        hleaves.uplink
      simp only [callReporter, ne_eq, hstarts, not_false_eq_true, if_true] at hidle
      exact Uplink.start_not_idle _ _ _ hidle

theorem revives_leaves (h : Assembly.Halts p) {a : AssemblyAction}
    (hrevives : p.revives parse a = true) (hs : assemblyStep hasPluginsList parse p a = some p') :
    ¬Assembly.LeavesNothing starts p p' := by
  cases a with
  | plugin a cached =>
      cases a with
      | settle i o =>
          exact settle_leaves hrevives hs
      | _ => cases hrevives
  | uplink a => cases hrevives
  | stream a =>
      rcases Option.map_eq_some_iff.1 hs with ⟨streams, hstreams, rfl⟩
      simp only [Assembly.revives, Bool.and_eq_true] at hrevives
      intro hleaves
      have hpublished := h.sound.published (h.halted hrevives.1).streams hstreams
      have hlate := hpublished.1 hleaves.deltas
      rw [hrevives.2] at hlate
      cases hlate

/-! ## Runs -/

theorem reachable_halts
    (h : (assembly hasPluginsList parse).ReachableUnder (Assembly.Kept parse) Assembled p) :
    Assembly.Halts p :=
  h.invariant (fun _ hassembled => hassembled.halts) fun _ _ _ hhalts hkept hs =>
    halts_step hhalts hkept hs

end Run

/-- In runs in which nothing revives the stopped plugin, a step into a stopped state leaves nothing
behind exactly when it revives nothing either. -/
theorem reachable_leavesNothing (hasPluginsList : Bool) (parse : List Char → Option Deltas.Event)
    {starts : ContainerStart} (hhonours : starts.HonoursAbort) {p p' : Assembly} {a : AssemblyAction}
    (h : (assembly hasPluginsList parse).ReachableUnder (Assembly.Kept parse) Assembled p)
    (hscope : p.inScope a = true) (hs : (assembly hasPluginsList parse).step p a = some p')
    (hstopped : p'.stopped = true) :
    Assembly.LeavesNothing starts p p' ↔ p.revives parse a = false := by
  have hhalts := reachable_halts h
  constructor
  · intro hleaves
    by_contra hrevives
    exact revives_leaves hhalts (by simpa using hrevives) hs hleaves
  · intro hno
    have hrests := rests_step hhalts hhonours ⟨hscope, hno⟩ hs hstopped
    exact hrests.leavesNothing (sound_step hhalts.sound hs)

/-- The export is switched on in a managed plugin that is up, and `stop()` comes before the new
configuration is saved. -/
def stopsBeforeSave : List AssemblyAction :=
  [.plugin (.start { imageTag := some "0.9.0" }) [],
    .plugin (.settle 0 (.address (some "http://127.0.0.1:3010"))) [],
    .plugin (.dbExport { questdb := some true }) [], .plugin .stop []]

/-- The save fails, and no timer is armed. -/
theorem reachable_leavesNothing_notSaved :
    ∃ p p' : Assembly, (assembly false fun _ => none).run unassembled stopsBeforeSave = some p ∧
      (assembly false fun _ => none).step p (.plugin (.settle 1 .fails) []) = some p' ∧
      Assembly.LeavesNothing startsUnlessAborted p p' := by
  obtain ⟨p', hp'⟩ : ∃ p', (assembly false fun _ => none).run unassembled
      (stopsBeforeSave ++ [.plugin (.settle 1 .fails) []]) = some p' := ⟨_, rfl⟩
  rcases (Machine.run_concat_eq_some _).1 hp' with ⟨p, hp, hs⟩
  have hmeets : (assembly false fun _ => none).Meets (Assembly.Kept fun _ => none) unassembled
      stopsBeforeSave := by decide +kernel
  have hreach : (assembly false fun _ => none).ReachableUnder (Assembly.Kept fun _ => none) Assembled
      p := .run (.init unassembled_assembled) hmeets hp
  refine ⟨p, p', hp, hs, ?_⟩
  cases hp
  have hstopped : p'.stopped = true := by
    cases hs
    rfl
  exact (reachable_leavesNothing false (fun _ => none) startsUnlessAborted_honoursAbort hreach rfl hs
    hstopped).2 (by decide)

/-- The save succeeds, and the stopped plugin goes on to arm its export interval. -/
theorem reachable_leaves_interval :
    ¬∀ (hasPluginsList : Bool) (parse : List Char → Option Deltas.Event) (p p' : Assembly)
        (a : AssemblyAction),
      (assembly hasPluginsList parse).ReachableUnder (fun p a => p.inScope a = true) Assembled p →
        p.inScope a = true → (assembly hasPluginsList parse).step p a = some p' →
          p'.stopped = true → Assembly.LeavesNothing startsUnlessAborted p p' := by
  intro hall
  obtain ⟨p', hp'⟩ : ∃ p', (assembly false fun _ => none).run unassembled
      (stopsBeforeSave ++ [.plugin (.settle 1 .ok) []]) = some p' := ⟨_, rfl⟩
  rcases (Machine.run_concat_eq_some _).1 hp' with ⟨p, hp, hs⟩
  have hmeets : (assembly false fun _ => none).Meets (fun p a => p.inScope a = true) unassembled
      stopsBeforeSave := by decide +kernel
  have hreach : (assembly false fun _ => none).ReachableUnder (fun p a => p.inScope a = true)
      Assembled p := .run (.init unassembled_assembled) hmeets hp
  cases hp
  have hstopped : p'.stopped = true := by
    cases hs
    rfl
  have hleaves := hall false (fun _ => none) _ _ _ hreach rfl hs hstopped
  cases hs
  exact absurd hleaves.dbExportTimer (by decide)

end Plugin
end SignalKBackup
