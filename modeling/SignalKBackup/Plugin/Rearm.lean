import SignalKBackup.Plugin.Connected

/-!
# Rearm — the automatic updater goes on

Each check arms the timer for the next one, as long as the mode is "auto".  A pinned tag ends the
chain; whoever puts "auto" back has to begin it again.

* `Scheduled`: a timer is armed, or a check of the current lifecycle is under way;
* `Rearms`: the steps that put "auto" back without a new timer do so only where one is not missed;
* `reachable_neverStalls`: in runs of such steps the updater never stalls.
-/

namespace SignalKBackup
namespace Plugin

open Lib

/-! ## Where the updater is at work -/

/-- Managed-container mode. -/
def State.managed (s : State) : Bool :=
  s.settings.any Settings.managedContainer

def Await.applying : Await → Bool
  | .apply _ => true
  | _ => false

def Await.checking : Await → Bool
  | .check _ => true
  | _ => false

/-- An "Apply update" that has not been answered yet. -/
def Task.applying (t : Task) : Bool :=
  t.await.applying

/-- A check of this generation that is in flight. -/
def Task.checkingIn (gen : ℕ) (t : Task) : Bool :=
  t.gen == gen && t.await.checking

def Applying (p : System) : Prop :=
  ∃ t ∈ p.tasks, t.applying = true

instance (p : System) : Decidable (Applying p) :=
  inferInstanceAs (Decidable (∃ t ∈ p.tasks, t.applying = true))

def Scheduled (p : System) : Prop :=
  p.state.serverUpdateTimer.isSome = true ∨
    ∃ t ∈ p.tasks, t.checkingIn p.state.lifecycleGeneration = true

instance (p : System) : Decidable (Scheduled p) :=
  inferInstanceAs (Decidable (_ ∨ _))

def NeverStalls (p : System) : Prop :=
  p.state.managed = true → p.state.client.isSome = true → ¬Applying p →
    p.state.autoUpdateEnabled = true → Scheduled p

instance (p : System) : Decidable (NeverStalls p) :=
  inferInstanceAs (Decidable (_ → _ → _ → _ → _))

/-! ## The condition -/

/-- A server is connected in managed-container mode, and no "Apply update" is in progress but
possibly the task `i`. -/
def Unattended (p : System) (i : ℕ) : Prop :=
  p.state.managed = true ∧ p.state.client.isSome = true ∧
    ∀ t ∈ p.tasks.eraseIdx i, t.applying = false

instance (p : System) (i : ℕ) : Decidable (Unattended p i) :=
  inferInstanceAs (Decidable (_ ∧ _ ∧ _))

/-- The end of a failed "Apply update". -/
def Await.failed : Await → Bool
  | .apply (.returned none) => true
  | _ => false

/-- The target of an automatic update has come up: its tag is about to be saved, with "auto". -/
def Await.comesUp : Await → Bool
  | .check (.install _ (.adopted .target)) => true
  | _ => false

/-- An "Apply update" that fails under "auto" ends, and an install that outlives its lifecycle puts
"auto" into the new one, only where the updater is scheduled. -/
def Rearms (p : System) : Action → Prop
  | .settle i .ok => ∀ t, p.tasks[i]? = some t → Unattended p i →
      (t.await.failed = true → p.state.autoUpdateEnabled = true → Scheduled p) ∧
      (t.await.comesUp = true → t.gen ≠ p.state.lifecycleGeneration →
        p.state.settings.any Settings.autoUpdateServer = true → Scheduled p)
  | _ => True

instance (p : System) (a : Action) : Decidable (Rearms p a) :=
  match a with
  | .settle i .ok => inferInstanceAs
      (Decidable (∀ t ∈ p.tasks[i]?, Unattended p i →
        (t.await.failed = true → p.state.autoUpdateEnabled = true → Scheduled p) ∧
        (t.await.comesUp = true → t.gen ≠ p.state.lifecycleGeneration →
          p.state.settings.any Settings.autoUpdateServer = true → Scheduled p)))
  | .settle _ .fails | .settle _ (.recreateFails _) | .settle _ (.address _) |
    .settle _ (.update _ _) | .settle _ (.link _ _) | .settle _ (.idle _) | .settle _ (.lookup _) |
    .start _ | .stop | .apply _ _ _ | .timer | .dbExport _ | .backup | .exportTick | .hostRestore _ =>
      inferInstanceAs (Decidable True)

/-! ## Steps the updater does not notice -/

/-- The settings the updater reads. -/
structure Mode where
  managedContainer : Bool
  imageTag : String
  autoUpdateServer : Bool
  deriving DecidableEq

def Settings.mode (c : Settings) : Mode :=
  { managedContainer := c.managedContainer
    imageTag := c.imageTag
    autoUpdateServer := c.autoUpdateServer }

def State.mode (s : State) : Option Mode :=
  s.settings.map Settings.mode

namespace State

theorem managed_eq_mode (s : State) : s.managed = s.mode.any Mode.managedContainer := by
  unfold managed mode
  cases s.settings <;> rfl

theorem autoUpdateEnabled_eq_mode (s : State) :
    s.autoUpdateEnabled = s.mode.any fun m => m.imageTag == "auto" && m.autoUpdateServer := by
  unfold autoUpdateEnabled mode
  cases s.settings <;> rfl

end State

/-- What the updater depends on stays as it is. -/
structure Steady (s s' : State) : Prop where
  generation : s'.lifecycleGeneration = s.lifecycleGeneration
  timer : s'.serverUpdateTimer = s.serverUpdateTimer
  mode : s'.mode = s.mode
  client : s'.client.isSome = s.client.isSome

namespace Steady

variable {s s' t : State}

theorem refl (s : State) : Steady s s :=
  ⟨rfl, rfl, rfl, rfl⟩

theorem trans (h : Steady s s') (h' : Steady s' t) : Steady s t :=
  ⟨h'.generation.trans h.generation, h'.timer.trans h.timer, h'.mode.trans h.mode,
    h'.client.trans h.client⟩

theorem of_frame (hframe : Frame s s') (hmode : s'.mode = s.mode)
    (hclient : s'.client.isSome = s.client.isSome) : Steady s s' :=
  ⟨State.control_generation hframe.1, hframe.2, hmode, hclient⟩

theorem managed (h : Steady s s') : s'.managed = s.managed := by
  rw [s'.managed_eq_mode, s.managed_eq_mode, h.mode]

theorem auto (h : Steady s s') : s'.autoUpdateEnabled = s.autoUpdateEnabled := by
  rw [s'.autoUpdateEnabled_eq_mode, s.autoUpdateEnabled_eq_mode, h.mode]

end Steady

namespace State

variable {s s' : State}

theorem modifySettings_steady (s : State) {f : Settings → Settings}
    (hf : ∀ c, (f c).mode = c.mode) : Steady s (s.modifySettings f) := by
  refine .of_frame ⟨s.modifySettings_control f, s.modifySettings_timer f⟩ ?_ ?_
  · simp only [mode, modifySettings_settings, Option.map_map]
    congr 1
    exact funext hf
  · unfold modifySettings
    split <;> rfl

theorem callSave_steady {options : Settings} (h : s.callSave = some (s', options)) :
    Steady s s' := by
  rw [(callSave_eq_some h).2]
  exact ⟨rfl, rfl, rfl, rfl⟩

theorem persistResolvedTag_steady {tag : String} {gen : ℕ} {options : Settings}
    (h : s.persistResolvedTag tag gen = some (s', options)) : Steady s s' :=
  (s.modifySettings_steady (f := fun c => { c with resolvedImageTag := tag }) fun _ => rfl).trans
    (callSave_steady (persistResolvedTag_cases h).2)

theorem setDbExport_steady {body : DbExportBody} {options : Settings}
    (h : s.setDbExport body = some (s', options)) : Steady s s' := by
  unfold setDbExport at h
  split at h
  case isTrue =>
      cases h
  case isFalse =>
      exact (s.modifySettings_steady
        (f := fun c => { c with databaseExport := body.next c.databaseExport }) fun _ => rfl).trans
        (callSave_steady h)

theorem startDbExportTimer_steady (s : State) : Steady s s.startDbExportTimer := by
  have hview := s.startDbExportTimer_view
  refine .of_frame ⟨s.startDbExportTimer_control, s.startDbExportTimer_timer⟩ ?_ ?_
  · exact congrArg (Option.map Settings.mode) (congrArg View.settings hview)
  · rw [show s.startDbExportTimer.client = s.client from congrArg View.client hview]

theorem adoptServerAddress_steady (s : State) (address : String) :
    Steady s (s.adoptServerAddress address) := by
  refine .of_frame ⟨s.adoptServerAddress_control address, s.adoptServerAddress_timer address⟩ ?_
    (s.adoptServerAddress_client address)
  rcases s.adoptServerAddress_fields address with ⟨_, _, _, _, _, heq⟩
  rw [heq]
  rfl

theorem swapFailed_steady (s : State) (i : Install) (swap : Swap) :
    Steady s (s.swapFailed i swap).1 := by
  rcases s.swapFailed_cases i swap with heq | ⟨_, _, heq⟩
  · rw [heq]
    exact ⟨rfl, rfl, rfl, rfl⟩
  · rw [heq]
    exact ⟨rfl, rfl, rfl, rfl⟩

/-- Saving the applied tag puts it into the settings. -/
theorem persistAppliedTag_mode {requestedTag resolvedTag : String} {options : Settings}
    (h : s.persistAppliedTag requestedTag resolvedTag = some (s', options)) :
    s'.mode = s.mode.map (fun m => { m with imageTag := requestedTag }) ∧
      s'.client = s.client := by
  cases hloaded : s.settings with
  | none =>
      rw [persistAppliedTag_eq_none.2 hloaded] at h
      cases h
  | some c =>
      have hmodified := s.modifySettings_settings fun c =>
        { c with imageTag := requestedTag, resolvedImageTag := resolvedTag }
      rw [persistAppliedTag_loaded hloaded] at h
      cases h
      refine ⟨?_, ?_⟩
      · simp only [mode, settings] at hmodified hloaded ⊢
        rw [hmodified, hloaded]
        rfl
      · unfold modifySettings
        split <;> rfl

end State

/-! ## What a task does to it -/

theorem InstallStep.steady {s : State} {i : Install} {w : InstallAwait} {a : Settle}
    {r : State × Next} (h : InstallStep s i w a r) (hup : w ≠ .adopted .target) :
    Steady s r.1 := by
  cases h with
  | recreateFailed swap image container =>
      have hfailed := State.swapFailed_steady { s with container } i swap
      exact ⟨hfailed.generation, hfailed.timer, hfailed.mode, hfailed.client⟩
  | notLocated swap _ =>
      exact s.swapFailed_steady i swap
  | answered swap addr =>
      exact s.adoptServerAddress_steady _
  | noAnswer swap addr =>
      exact s.swapFailed_steady i swap
  | up => exact absurd rfl hup
  | _ =>
      exact ⟨rfl, rfl, rfl, rfl⟩

/-- A superseded check that goes on is not noticed, until its target has come up. -/
theorem CheckStep.steady {s : State} {gen : ℕ} {w : CheckAwait} {a : Settle} {r : State × Await}
    (h : CheckStep s gen w a r) (hgen : gen ≠ s.lifecycleGeneration)
    (hup : (Await.check w).comesUp = false) : Steady s r.1 := by
  cases h with
  | installs hwanted _ _ _ _ =>
      exact absurd (State.wanted_generation hwanted) hgen
  | @install i w a next hstep =>
      rw [inCheck_state]
      refine hstep.steady ?_
      rintro rfl
      cases hup
  | scheduled nextMs hcurrent =>
      exact absurd hcurrent hgen
  | _ =>
      exact ⟨rfl, rfl, rfl, rfl⟩

theorem ExportStep.steady {s : State} {w : ExportAwait} {a : Settle} {r : State × Await}
    (h : ExportStep s w a r) : Steady s r.1 := by
  cases h with
  | saved options =>
      have hsteady := State.startDbExportTimer_steady { s with stored := some options }
      exact ⟨hsteady.generation, hsteady.timer, hsteady.mode, hsteady.client⟩
  | _ =>
      exact .refl s

/-- Scheduling arms the timer wherever the updater is on. -/
def Rearmed (s : State) : Prop :=
  s.autoUpdateEnabled = true → s.serverUpdateTimer.isSome = true

theorem State.scheduleServerUpdate_rearmed (s : State) (gen delayMs : ℕ) :
    Rearmed (s.scheduleServerUpdate gen delayMs) := by
  unfold scheduleServerUpdate
  split
  case isTrue =>
      exact fun _ => rfl
  case isFalse hoff =>
      exact fun hon => absurd hon hoff

theorem State.finishStartup_rearmed {s : State} {gen : ℕ} (hgen : gen = s.lifecycleGeneration)
    (address : String) : Rearmed (s.finishStartup gen address) := by
  have hcurrent : ¬gen ≠ s.lifecycleGeneration := not_not.2 hgen
  simp only [finishStartup, hcurrent, if_false]
  exact State.scheduleServerUpdate_rearmed _ _ _

/-- A startup is not noticed before it publishes its client. -/
theorem StartupStep.steady {s : State} {gen : ℕ} {w : StartupAwait} {a : Settle} {r : State × Await}
    (h : StartupStep s gen w a r) :
    Steady s r.1 ∨ gen = s.lifecycleGeneration ∧
      ((∃ url, w = .external url) ∨ Rearmed r.1) := by
  cases h with
  | external url =>
      by_cases hgen : gen = s.lifecycleGeneration
      · exact Or.inr ⟨hgen, Or.inl ⟨url, rfl⟩⟩
      · simp only [State.finishExternal, ne_eq, hgen, not_false_eq_true, if_true]
        exact Or.inl (.refl s)
  | resolvedSaving _ _ hsave =>
      have hsteady := State.persistResolvedTag_steady hsave
      exact Or.inl ⟨hsteady.generation, hsteady.timer, hsteady.mode, hsteady.client⟩
  | container image address hgen =>
      have hrearmed := State.finishStartup_rearmed
        (s := { s with container := some image, containerAddress := some address }) hgen address
      exact Or.inr ⟨hgen, Or.inr hrearmed⟩
  | _ =>
      exact Or.inl ⟨rfl, rfl, rfl, rfl⟩

/-! ## One step -/

theorem NeverStalls.of_steady {p p' : System} (h : NeverStalls p) (hsteady : Steady p.state p'.state)
    (happlying : Applying p → Applying p')
    (hchecking : (∃ t ∈ p.tasks, t.checkingIn p.state.lifecycleGeneration = true) →
      ∃ t ∈ p'.tasks, t.checkingIn p.state.lifecycleGeneration = true) : NeverStalls p' := by
  intro hmanaged hclient hidle hauto
  rw [hsteady.managed] at hmanaged
  rw [hsteady.client] at hclient
  rw [hsteady.auto] at hauto
  unfold Scheduled
  rw [hsteady.timer, hsteady.generation]
  exact (h hmanaged hclient (mt happlying hidle) hauto).imp_right hchecking

theorem NeverStalls.of_scheduled {p : System} (h : Scheduled p) : NeverStalls p :=
  fun _ _ _ _ => h

theorem NeverStalls.of_rearmed {p : System} (h : Rearmed p.state) : NeverStalls p :=
  fun _ _ _ hauto => Or.inl (h hauto)

theorem NeverStalls.of_applying {p : System} (h : Applying p) : NeverStalls p :=
  fun _ _ hidle => absurd h hidle

variable {p : System} {i : ℕ} {t : Task} {o : Settle} {r : State × Await}

/-- The plugin behind a step of the task `i`. -/
theorem neverStalls_steady (h : NeverStalls p) (ht : p.tasks[i]? = some t)
    (hsteady : Steady p.state r.1) (happlying : t.await.applying = true → r.2.applying = true)
    (hchecking : t.gen = p.state.lifecycleGeneration → t.await.checking = true →
      r.2.checking = true) :
    NeverStalls { state := r.1, tasks := p.tasks.set i { t with await := r.2 } } := by
  refine h.of_steady hsteady ?_ ?_
  · refine exists_mem_set (f := Task.applying) ht ?_
    exact happlying
  · refine exists_mem_set ht ?_
    simp only [Task.checkingIn, Bool.and_eq_true, beq_iff_eq]
    exact fun hcurrent => ⟨hcurrent.1, hchecking hcurrent.1 hcurrent.2⟩

theorem neverStalls_startup {w : StartupAwait} (hconnected : Connected p) (h : NeverStalls p)
    (ht : p.tasks[i]? = some t) (hw : t.await = .startup w)
    (hstep : StartupStep p.state t.gen w o r) :
    NeverStalls { state := r.1, tasks := p.tasks.set i { t with await := r.2 } } := by
  rcases hstep.steady with hsteady | ⟨hgen, ⟨url, rfl⟩ | hrearmed⟩
  · refine neverStalls_steady h ht hsteady ?_ ?_
    · rw [hw]
      exact nofun
    · rw [hw]
      exact fun _ => nofun
  · -- an external server: no managed container
    have hmem := List.mem_of_getElem? ht
    have hunmanaged := (hconnected.external t hmem hgen url (by rw [hw]; rfl)).2
    have hsettings : p.state.currentSettings = some t.gen := by
      rw [hgen]
      exact hconnected.object t hmem (by simp [Task.startingIn, hgen, hw, Await.starting])
    have hsame := hstep.link.same
    intro hmanaged
    have hoff : r.1.managed = false := by
      simp [State.managed, State.settings, hsame.currentSettings, hsettings,
        hsame.managedContainer, hunmanaged]
    rw [hoff] at hmanaged
    cases hmanaged
  · exact .of_rearmed hrearmed

theorem neverStalls_apply {w : ApplyAwait} (hrearms : Rearms p (.settle i o))
    (ht : p.tasks[i]? = some t) (hw : t.await = .apply w) (hstep : ApplyStep p.state w o r) :
    NeverStalls { state := r.1, tasks := p.tasks.set i { t with await := r.2 } } := by
  have hset : (p.tasks.set i { t with await := r.2 })[i]? = some { t with await := r.2 } :=
    List.getElem?_set_self (List.getElem?_eq_some_iff.1 ht).1
  cases hstep with
  | scheduled tag _ =>
      exact .of_rearmed (p.state.scheduleServerUpdate_rearmed _ _)
  | returned result hresult =>
      rcases hresult with rfl | hclient
      · intro hmanaged hclient hidle hauto
        have hothers := eraseIdx_of_set (f := Task.applying) hidle
        have hscheduled := (hrearms t ht ⟨hmanaged, hclient, hothers⟩).1 (by rw [hw]; rfl) hauto
        refine hscheduled.imp_right (exists_mem_set ht ?_)
        simp [Task.checkingIn, hw, Await.checking]
      · intro _ hsome
        rw [hclient] at hsome
        cases hsome
  | pulled =>
      rcases inApply_await _ _ with ⟨w', hawait⟩
      exact .of_applying ⟨_, List.mem_of_getElem? hset, by rw [hawait]; rfl⟩
  | install =>
      rcases inApply_await _ _ with ⟨w', hawait⟩
      exact .of_applying ⟨_, List.mem_of_getElem? hset, by rw [hawait]; rfl⟩
  | _ =>
      exact .of_applying ⟨_, List.mem_of_getElem? hset, rfl⟩

/-- The target of an automatic update has come up. -/
structure CameUp (s s' : State) : Prop where
  generation : s'.lifecycleGeneration = s.lifecycleGeneration
  timer : s'.serverUpdateTimer = s.serverUpdateTimer
  mode : s'.mode = s.mode.map fun m => { m with imageTag := "auto" }
  client : s'.client = s.client

namespace CameUp

variable {s s' : State}

theorem managed (h : CameUp s s') : s'.managed = s.managed := by
  rw [s'.managed_eq_mode, s.managed_eq_mode, h.mode, Option.any_map]

theorem auto (h : CameUp s s') :
    s'.autoUpdateEnabled = s.settings.any Settings.autoUpdateServer := by
  rw [s'.autoUpdateEnabled_eq_mode, h.mode]
  unfold State.mode
  cases s.settings with
  | none =>
      rfl
  | some c =>
      simp [Settings.mode]

end CameUp

theorem CheckStep.cameUp {s : State} {gen : ℕ} {w : CheckAwait} {a : Settle} {r : State × Await}
    (h : CheckStep s gen w a r) (hup : (Await.check w).comesUp = true) :
    CameUp s r.1 ∧ a = .ok ∧ r.2.checking = true := by
  cases h with
  | @install i w a next hstep =>
      have hchecking : (State.inCheck i next).2.checking = true := by
        rcases inCheck_await i next with ⟨_, _, hawait⟩ | hawait <;>
          · rw [hawait]
            rfl
      rw [inCheck_state]
      cases hstep with
      | up =>
          refine ⟨?_, rfl, hchecking⟩
          have hframe := (InstallStep.up (s := s) (i := i)).frame
          -- the tag is written only where settings are loaded
          rcases s.installed_cases i with ⟨hnone, heq⟩ | ⟨s', options, hsave, heq⟩
          · rw [heq]
            refine ⟨rfl, rfl, ?_, rfl⟩
            simp only [State.mode, State.uplinkStart]
            simp only [State.settings] at hnone ⊢
            rw [hnone]
            rfl
          · rw [heq] at hframe ⊢
            rcases State.persistAppliedTag_mode hsave with ⟨hmode, hclient⟩
            exact ⟨State.control_generation hframe.1, hframe.2, hmode, hclient⟩
      | _ => cases hup
  | done nextMs hsearching =>
      unfold Await.comesUp at hup
      split at hup
      case h_1 hawait =>
          cases hawait
          cases hsearching
      case h_2 => cases hup
  | _ => cases hup

theorem CheckStep.checking {s : State} {gen : ℕ} {w : CheckAwait} {a : Settle} {r : State × Await}
    (h : CheckStep s gen w a r) :
    r.2.checking = true ∨ r.2 = .finished ∧ (gen ≠ s.lifecycleGeneration ∨ Rearmed r.1) := by
  cases h with
  | installs =>
      rcases inCheck_await _ _ with ⟨_, _, hawait⟩ | hawait <;>
        · rw [hawait]
          exact Or.inl rfl
  | install =>
      rcases inCheck_await _ _ with ⟨_, _, hawait⟩ | hawait <;>
        · rw [hawait]
          exact Or.inl rfl
  | scheduled nextMs _ =>
      exact Or.inr ⟨rfl, Or.inr (s.scheduleServerUpdate_rearmed _ _)⟩
  | returned nextMs hgen =>
      exact Or.inr ⟨rfl, Or.inl hgen⟩
  | _ =>
      exact Or.inl rfl

theorem neverStalls_check {w : CheckAwait} (h : NeverStalls p) (hrearms : Rearms p (.settle i o))
    (ht : p.tasks[i]? = some t) (hw : t.await = .check w) (hstep : CheckStep p.state t.gen w o r) :
    NeverStalls { state := r.1, tasks := p.tasks.set i { t with await := r.2 } } := by
  have hset : (p.tasks.set i { t with await := r.2 })[i]? = some { t with await := r.2 } :=
    List.getElem?_set_self (List.getElem?_eq_some_iff.1 ht).1
  have hgeneration := hstep.keeps.generation
  have happlying : t.await.applying = true → r.2.applying = true := by
    rw [hw]
    exact nofun
  by_cases hgen : t.gen = p.state.lifecycleGeneration
  · -- the check itself is the one in flight, or it has just armed the timer
    rcases hstep.checking with hchecking | ⟨_, hover | hrearmed⟩
    · refine .of_scheduled (Or.inr ⟨_, List.mem_of_getElem? hset, ?_⟩)
      simp [Task.checkingIn, hchecking, hgeneration, hgen]
    · exact absurd hgen hover
    · exact .of_rearmed hrearmed
  · cases hup : t.await.comesUp with
    | false =>
        -- a superseded check touches nothing that the updater depends on
        have hsteady := hstep.steady hgen (by rw [← hw]; exact hup)
        exact neverStalls_steady h ht hsteady happlying fun hcurrent => absurd hcurrent hgen
    | true =>
        -- it comes up, and puts "auto" into the settings of the new lifecycle
        rcases hstep.cameUp (by rw [← hw]; exact hup) with ⟨hcameUp, rfl, _⟩
        intro hmanaged hclient hidle hauto
        rw [hcameUp.managed] at hmanaged
        rw [hcameUp.client] at hclient
        rw [hcameUp.auto] at hauto
        have hothers := eraseIdx_of_set (f := Task.applying) hidle
        have hscheduled := (hrearms t ht ⟨hmanaged, hclient, hothers⟩).2 hup hgen hauto
        unfold Scheduled
        rw [hcameUp.timer, hcameUp.generation]
        refine hscheduled.imp_right (exists_mem_set ht ?_)
        simp [Task.checkingIn, hgen]

theorem neverStalls_settle (hconnected : Connected p) (h : NeverStalls p)
    (hrearms : Rearms p (.settle i o)) (ht : p.tasks[i]? = some t)
    (hstep : TaskStep p.state t.gen t.await o r) :
    NeverStalls { state := r.1, tasks := p.tasks.set i { t with await := r.2 } } := by
  cases hw : t.await with
  | startup w =>
      rw [hw] at hstep
      cases hstep with
      | startup hstep => exact neverStalls_startup hconnected h ht hw hstep
  | apply w =>
      rw [hw] at hstep
      cases hstep with
      | apply hstep => exact neverStalls_apply hrearms ht hw hstep
  | check w =>
      rw [hw] at hstep
      cases hstep with
      | check hstep => exact neverStalls_check h hrearms ht hw hstep
  | dbExport w =>
      rw [hw] at hstep
      cases hstep with
      | dbExport hstep =>
          refine neverStalls_steady h ht hstep.steady ?_ ?_
          · rw [hw]
            exact nofun
          · rw [hw]
            exact fun _ => nofun
  | finished =>
      rw [hw] at hstep
      cases hstep

theorem neverStalls_export {p p' : System} {a : Action} (h : NeverStalls p) (ha : a.exports = true)
    (hs : pluginStep p a = some p') : NeverStalls p' := by
  have hsteady : Steady p.state p'.state := by
    rcases export_state ha hs with hsame | ⟨body, options, hsave⟩
    · rw [hsame]
      exact .refl _
    · exact State.setDbExport_steady hsave
  have hold : ∀ t ∈ p.tasks, t ∈ p'.tasks := by
    rcases export_cases a ha hs with rfl | ⟨s, w, _, rfl⟩
    · exact fun _ ht => ht
    · exact fun _ ht => List.mem_append_left _ ht
  refine h.of_steady hsteady ?_ ?_
  · rintro ⟨t, ht, happlying⟩
    exact ⟨t, hold t ht, happlying⟩
  · rintro ⟨t, ht, hchecking⟩
    exact ⟨t, hold t ht, hchecking⟩

theorem applyServerUpdate_applying (s : State) (requested : String) :
    (s.applyServerUpdate requested).2.applying = true := by
  unfold State.applyServerUpdate
  dsimp only
  split <;> rfl

theorem checkServerUpdate_checking (s : State) (gen : ℕ) :
    (s.checkServerUpdate gen).2.checking = true := by
  unfold State.checkServerUpdate
  split <;> rfl

theorem Task.checkingIn_intro {t : Task} {gen : ℕ} (hgen : t.gen = gen)
    (hchecking : t.await.checking = true) : t.checkingIn gen = true := by
  simp [checkingIn, hgen, hchecking]

theorem NeverStalls.of_none {p : System} (h : p.state.client = none) : NeverStalls p := by
  intro _ hclient
  rw [h] at hclient
  cases hclient

theorem neverStalls_step {p p' : System} {a : Action} (hgen : Generations p)
    (hconnected : Connected p) (h : NeverStalls p) (hrearms : Rearms p a)
    (hs : plugin.step p a = some p') : NeverStalls p' := by
  change pluginStep p a = some p' at hs
  cases a with
  | start config =>
      cases hs
      exact .of_none (asyncStart_launched _ _).client
  | stop =>
      cases hs
      exact .of_none rfl
  | settle i o =>
      rcases settle_cases hs with ⟨t, r, ht, hstep, rfl⟩
      exact neverStalls_settle hconnected h hrearms ht hstep
  | apply manager tag valid =>
      cases hs
      unfold System.apply
      split
      case isTrue =>
          exact h
      case isFalse =>
          exact .of_applying ⟨_, List.mem_append_right _ (List.mem_singleton_self _),
            applyServerUpdate_applying p.state (requestedTag p.state tag)⟩
  | timer =>
      simp only [pluginStep, Option.map_eq_some_iff] at hs
      rcases hs with ⟨timer, htimer, rfl⟩
      -- the timer is gone, and its check is in flight
      have hstate := checkServerUpdate_state p.state.stopServerUpdateTimer timer.gen
      have hcurrent : (p.state.stopServerUpdateTimer.checkServerUpdate timer.gen).1.lifecycleGeneration =
          timer.gen := by
        rw [hstate]
        exact (hgen.timer timer htimer).symm
      exact .of_scheduled (Or.inr ⟨_, List.mem_append_right _ (List.mem_singleton_self _),
        Task.checkingIn_intro hcurrent.symm (checkServerUpdate_checking _ _)⟩)
  | hostRestore running =>
      cases hs
      exact h
  | _ =>
      exact neverStalls_export h rfl hs

/-- A step against the condition leaves the updater with nothing to wait for. -/
theorem stalls_of_not_rearms {p p' : System} {a : Action} (hrearms : ¬Rearms p a)
    (hs : plugin.step p a = some p') : ¬NeverStalls p' := by
  change pluginStep p a = some p' at hs
  intro hnever
  apply hrearms
  unfold Rearms
  split
  case h_1 i =>
      intro t ht hunattended
      rcases hunattended with ⟨hmanaged, hclient, hothers⟩
      rcases settle_cases hs with ⟨t', r, ht', hstep, rfl⟩
      cases ht.symm.trans ht'
      refine ⟨fun hfailed hauto => ?_, fun hup hgen hserver => ?_⟩
      · -- an apply that fails, with no other beside it
        cases hw : t.await with
        | apply w =>
            rw [hw] at hfailed hstep
            cases hstep with
            | apply hstep =>
                cases hstep with
                | returned result _ =>
                    have hidle := not_exists_mem_set (f := Task.applying)
                      (x := { t with await := .finished }) hothers rfl
                    have hscheduled := hnever hmanaged hclient hidle hauto
                    refine hscheduled.imp_right (exists_mem_of_set ?_)
                    simp [Task.checkingIn, Await.checking]
                | error hgivesUp =>
                    unfold Await.failed at hfailed
                    split at hfailed
                    case h_1 hawait =>
                        cases hawait
                        cases hgivesUp
                    case h_2 => cases hfailed
                | _ => cases hfailed
        | _ =>
            rw [hw] at hfailed
            cases hfailed
      · -- an install that comes up behind its lifecycle
        cases hw : t.await with
        | check w =>
            rw [hw] at hup hstep
            cases hstep with
            | check hstep =>
                rcases hstep.cameUp hup with ⟨hcameUp, _, hchecking⟩
                have hidle := not_exists_mem_set (f := Task.applying)
                  (x := { t with await := r.2 }) hothers ?_
                · have hscheduled := hnever (hcameUp.managed.trans hmanaged)
                    (by rw [hcameUp.client]; exact hclient) hidle (hcameUp.auto.trans hserver)
                  unfold Scheduled at hscheduled
                  rw [hcameUp.timer, hcameUp.generation] at hscheduled
                  refine hscheduled.imp_right (exists_mem_of_set ?_)
                  simp [Task.checkingIn, hgen]
                · cases hr : r.2 with
                  | check w' => rfl
                  | _ =>
                      rw [hr] at hchecking
                      cases hchecking
        | _ =>
            rw [hw] at hup
            cases hup
  case h_2 => trivial

/-! ## Runs -/

/-- In runs in which "auto" comes back behind the timer only where the updater is scheduled, it never
stalls. -/
theorem reachable_neverStalls {p : System} (h : plugin.ReachableUnder Rearms Loaded p) :
    NeverStalls p := by
  have hall : Generations p ∧ Connected p ∧ NeverStalls p := by
    refine h.invariant (P := fun p => Generations p ∧ Connected p ∧ NeverStalls p) ?_ ?_
    · intro p hloaded
      exact ⟨hloaded.generations, hloaded.connected, .of_none hloaded.2.2.2.1⟩
    · rintro p a p' ⟨hgen, hconnected, hnever⟩ hrearms hs
      exact ⟨generations_step hgen hs, connected_step hconnected hgen hs,
        neverStalls_step hgen hconnected hnever hrearms hs⟩
  exact hall.2.2

/-- "Apply update" with "auto", on a pinned container that has come up. -/
def backToAuto : List Action :=
  [.start { imageTag := some "0.9.0" }, .settle 0 (.address (some "http://127.0.0.1:3010")),
    .apply true (some "auto") true, .settle 1 (.update none true), .settle 1 .ok]

theorem reachable_neverStalls_apply :
    ∃ p : System, plugin.run unstarted
        (backToAuto ++ [.settle 1 .ok, .settle 1 (.address (some "127.0.0.1:3011")), .settle 1 .ok,
          .settle 1 .ok, .settle 1 .ok]) = some p ∧
      p.state.autoUpdateEnabled = true ∧ NeverStalls p := by
  let actions := backToAuto ++ [.settle 1 .ok, .settle 1 (.address (some "127.0.0.1:3011")),
    .settle 1 .ok, .settle 1 .ok, .settle 1 .ok]
  obtain ⟨p, hp⟩ : ∃ p, plugin.run unstarted actions = some p := ⟨_, rfl⟩
  have hmeets : plugin.Meets Rearms unstarted actions := by decide +kernel
  have hreach : plugin.ReachableUnder Rearms Loaded p := .run (.init unstarted_loaded) hmeets hp
  refine ⟨p, hp, ?_, reachable_neverStalls hreach⟩
  cases hp
  rfl

/-- The save fails: the error is thrown past the call that would begin the chain again. -/
theorem reachable_stalls : ¬∀ p : System, plugin.Reachable Loaded p → NeverStalls p := by
  intro hall
  obtain ⟨p, hp⟩ : ∃ p, plugin.run unstarted
      (backToAuto ++ [.settle 1 .fails, .settle 1 (.address (some "127.0.0.1:3011")), .settle 1 .ok,
        .settle 1 .ok, .settle 1 .ok]) = some p := ⟨_, rfl⟩
  have hreach : plugin.Reachable Loaded p := Machine.Reachable.run (.init unstarted_loaded) hp
  have hnever := hall p hreach
  cases hp
  exact absurd hnever (by decide)

end Plugin
end SignalKBackup
