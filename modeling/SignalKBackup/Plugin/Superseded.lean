import SignalKBackup.Plugin.Steps

/-!
# Superseded — work of a lifecycle that is over

A task is superseded once `lifecycleGeneration` has moved past the generation in which it was begun.
The startup and the checks of the automatic updater look at the generation behind each of their
awaits.  An update does not: behind the awaits of `Await.unguarded` it goes on to write, whatever
lifecycle is current by then.

`superseded_inert`: in runs in which no superseded task gets past such an await, no step of a
superseded task changes what belongs to the current lifecycle.  Such are all runs in which `start()`
and `stop()` come only while no update is in progress (`undisturbed_inert`).
-/

namespace SignalKBackup
namespace Plugin

open Lib
open Config

def Task.superseded (t : Task) (s : State) : Prop :=
  t.born ≠ s.lifecycleGeneration

instance (t : Task) (s : State) : Decidable (t.superseded s) :=
  inferInstanceAs (Decidable (t.born ≠ s.lifecycleGeneration))

/-- The awaits behind which a task changes the plugin without a look at the generation. -/
def Await.unguarded : Await → Settle → Bool
  | .apply (.pull _), .ok => true
  | .apply (.install _ w), a => w.unguarded a
  | .apply (.recreate _ _), .ok => true
  | .apply (.address _ _), .address (some _) => true
  | .apply (.health _ _ _), .ok => true
  | .check (.install _ w), a => w.unguarded a
  | _, _ => false

/-- No superseded task gets past an unguarded await. -/
def Guarded (p : System) : Action → Prop
  | .settle i a => ∀ t, p.tasks[i]? = some t → t.superseded p.state → t.await.unguarded a = false
  | _ => True

instance (p : System) (a : Action) : Decidable (Guarded p a) :=
  match a with
  | .settle i a => inferInstanceAs
      (Decidable (∀ t ∈ p.tasks[i]?, t.superseded p.state → t.await.unguarded a = false))
  | .start _ | .stop | .apply _ _ _ | .timer | .dbExport _ | .backup | .exportTick | .hostRestore _ =>
      inferInstanceAs (Decidable True)

/-- A step of a superseded task changes nothing that belongs to the current lifecycle. -/
def Inert (p : System) (a : Action) (p' : System) : Prop :=
  ∀ i o t, a = .settle i o → p.tasks[i]? = some t → t.superseded p.state →
    p'.state.view = p.state.view

/-! ## One step of a superseded task -/

section Step

variable {s : State} {gen : ℕ} {a : Settle} {r : State × Await}

theorem StartupStep.inert {w : StartupAwait} (hgen : gen ≠ s.lifecycleGeneration)
    (h : StartupStep s gen w a r) : r.1.view = s.view := by
  cases h with
  | external url =>
      simp only [State.finishExternal, ne_eq, hgen, not_false_eq_true, if_true]
  | resolved hcurrent =>
      exact absurd hcurrent hgen
  | resolvedSaving hcurrent =>
      exact absurd hcurrent hgen
  | container image address hcurrent =>
      exact absurd hcurrent hgen
  | _ =>
      rfl

theorem ApplyStep.inert {w : ApplyAwait} (hguarded : (Await.apply w).unguarded a = false)
    (h : ApplyStep s w a r) : r.1.view = s.view := by
  cases h with
  | pulled => cases hguarded
  | recreated => cases hguarded
  | recreatedSaving => cases hguarded
  | located => cases hguarded
  | answered => cases hguarded
  | install hstep =>
      rw [inApply_state]
      exact hstep.view hguarded
  | scheduled tag hclient =>
      exact s.scheduleServerUpdate_view _ _
  | _ =>
      rfl

theorem CheckStep.inert {w : CheckAwait} (hgen : gen ≠ s.lifecycleGeneration)
    (hguarded : (Await.check w).unguarded a = false) (h : CheckStep s gen w a r) :
    r.1.view = s.view := by
  cases h with
  | installs hwanted =>
      exact absurd (State.wanted_generation hwanted) hgen
  | install hstep =>
      rw [inCheck_state]
      exact hstep.view hguarded
  | scheduled nextMs hcurrent =>
      exact absurd hcurrent hgen
  | _ =>
      rfl

theorem ExportStep.inert {w : ExportAwait} (h : ExportStep s w a r) : r.1.view = s.view := by
  cases h with
  | saved options =>
      have hview := State.startDbExportTimer_view { s with stored := some options }
      exact hview
  | saveFailed options =>
      rfl
  | exported =>
      rfl

theorem TaskStep.inert {w : Await} (hgen : gen ≠ s.lifecycleGeneration)
    (hguarded : w.unguarded a = false) (h : TaskStep s gen w a r) : r.1.view = s.view := by
  cases h with
  | startup h =>
      exact h.inert hgen
  | apply h =>
      exact h.inert hguarded
  | check h =>
      exact h.inert hgen hguarded
  | dbExport h =>
      exact h.inert

end Step

/-! ## The generations of the tasks -/

/-- Every task works for the generation it was begun in, and an armed update timer for the current
one. -/
structure Generations (p : System) : Prop where
  tasks : ∀ t ∈ p.tasks, t.gen = t.born
  timer : ∀ timer, p.state.serverUpdateTimer = some timer →
    timer.gen = p.state.lifecycleGeneration

theorem Generations.begin {p : System} {gen : ℕ} {r : State × Await} (h : ∀ t ∈ p.tasks, t.gen = t.born)
    (hgen : gen = p.state.lifecycleGeneration)
    (htimer : ∀ timer, r.1.serverUpdateTimer = some timer → timer.gen = r.1.lifecycleGeneration) :
    Generations (p.begin gen r) := by
  refine ⟨fun t ht => ?_, htimer⟩
  rcases List.mem_append.1 ht with hold | hnew
  · exact h t hold
  · simp only [List.mem_singleton] at hnew
    subst hnew
    exact hgen

theorem asyncStart_control (s : State) (gen : ℕ) :
    (s.asyncStart gen).1.control = s.control ∧
      (s.asyncStart gen).1.serverUpdateTimer = s.serverUpdateTimer := by
  unfold State.asyncStart
  dsimp only
  split
  · split <;> exact ⟨rfl, rfl⟩
  · split <;> exact ⟨rfl, rfl⟩

theorem applyServerUpdate_frame (s : State) (requested : String) :
    (s.applyServerUpdate requested).1 = { s with serverInstalling := true } := by
  unfold State.applyServerUpdate
  dsimp only
  split <;> rfl

theorem checkServerUpdate_state (s : State) (gen : ℕ) : (s.checkServerUpdate gen).1 = s := by
  unfold State.checkServerUpdate
  split <;> rfl

theorem generations_export {p p' : System} (h : Generations p)
    (hexport : p' = p ∨ ∃ s w, Frame p.state s ∧
      p' = p.begin p.state.lifecycleGeneration (s, .dbExport w)) : Generations p' := by
  rcases hexport with rfl | ⟨s, w, hframe, rfl⟩
  · exact h
  · refine .begin h.tasks rfl fun timer htimer => ?_
    have hgen : s.lifecycleGeneration = p.state.lifecycleGeneration :=
      State.control_generation hframe.1
    have hold : p.state.serverUpdateTimer = some timer := hframe.2.symm.trans htimer
    exact (h.timer timer hold).trans hgen.symm

theorem generations_step {p p' : System} {a : Action} (h : Generations p)
    (hs : plugin.step p a = some p') : Generations p' := by
  cases a with
  | start config =>
      cases hs
      have hasync := (asyncStart_control (p.state.start config)
        (p.state.start config).lifecycleGeneration).2
      refine Generations.begin (p := { p with state := p.state.start config })
        (r := (p.state.start config).asyncStart (p.state.start config).lifecycleGeneration)
        h.tasks rfl fun timer htimer => ?_
      -- start() has cleared the timer, and asyncStart arms none
      rw [hasync] at htimer
      cases htimer
  | stop =>
      cases hs
      exact ⟨h.tasks, fun timer htimer => by cases htimer⟩
  | apply manager tag valid =>
      cases hs
      unfold System.apply
      split
      · exact h
      · refine .begin h.tasks rfl fun timer htimer => ?_
        rw [applyServerUpdate_frame] at htimer ⊢
        exact h.timer timer htimer
  | timer =>
      simp only [plugin, pluginStep, Option.map_eq_some_iff] at hs
      rcases hs with ⟨timer, htimer, rfl⟩
      refine .begin h.tasks (h.timer timer htimer) fun timer' htimer' => ?_
      rw [checkServerUpdate_state] at htimer'
      cases htimer'
  | settle i o =>
      rcases settle_cases hs with ⟨t, r, ht, hstep, rfl⟩
      refine ⟨fun t' ht' => ?_, fun timer htimer => ?_⟩
      · rcases List.mem_or_eq_of_mem_set ht' with hold | rfl
        · exact h.tasks t' hold
        · exact h.tasks t (List.mem_of_getElem? ht)
      · rw [hstep.keeps.generation]
        rcases hstep.keeps.timer timer htimer with hold | hnew
        · exact h.timer timer hold
        · exact hnew
  | dbExport body =>
      exact generations_export h (export_cases (.dbExport body) rfl hs)
  | backup =>
      exact generations_export h (export_cases .backup rfl hs)
  | exportTick =>
      exact generations_export h (export_cases .exportTick rfl hs)
  | hostRestore running =>
      cases hs
      exact ⟨h.tasks, h.timer⟩

theorem Loaded.generations {p : System} (h : Loaded p) : Generations p := by
  rcases h with ⟨htasks, _, _, _, _, _, _, _, htimer⟩
  refine ⟨fun t ht => ?_, fun timer ht => ?_⟩
  · rw [htasks] at ht
    cases ht
  · rw [htimer] at ht
    cases ht

theorem reachable_generations {C : System → Action → Prop} {p : System}
    (h : plugin.ReachableUnder C Loaded p) : Generations p :=
  h.invariant (fun _ hloaded => hloaded.generations) fun _ _ _ hinv _ hs => generations_step hinv hs

theorem inert_of_guarded {p p' : System} {a : Action} (hgenerations : Generations p)
    (hguarded : Guarded p a) (hs : plugin.step p a = some p') : Inert p a p' := by
  rintro i o t rfl ht hsuperseded
  rcases settle_cases hs with ⟨t', r, ht', hstep, rfl⟩
  cases ht.symm.trans ht'
  have hgen : t.gen ≠ p.state.lifecycleGeneration := by
    rw [hgenerations.tasks t (List.mem_of_getElem? ht)]
    exact hsuperseded
  exact hstep.inert hgen (hguarded t ht hsuperseded)

/-- As long as no superseded task gets past an unguarded await, the work of a superseded lifecycle
changes nothing. -/
theorem superseded_inert {p p' : System} {a : Action}
    (hreach : plugin.ReachableUnder Guarded Loaded p) (hguarded : Guarded p a)
    (hs : plugin.step p a = some p') : Inert p a p' :=
  inert_of_guarded (reachable_generations hreach) hguarded hs

/-- A managed plugin under "auto" that starts offline, up to its first update check. -/
def firstCheck : List Action :=
  [.start {}, .settle 0 .ok, .settle 0 (.lookup .noManager), .settle 0 .ok,
    .settle 0 (.address (some "http://127.0.0.1:3010")), .timer]

/-- The check finds 1.5.0 and pulls it. -/
def pullsUpdate : List Action :=
  firstCheck ++
    [.settle 1 (.update (some ⟨true, some "1.5.0", ""⟩) true),
      .settle 1 (.link (some (some .online)) true)]

/-- The check installs it, and the recreated server is asked for its health. -/
def awaitsHealth : List Action :=
  pullsUpdate ++
    [.settle 1 .ok, .settle 1 (.idle true), .settle 1 .ok,
      .settle 1 (.address (some "127.0.0.1:3011"))]

/-- A config saved during the pull ends the check. -/
theorem superseded_inert_pull :
    ∃ p p' : System, plugin.ReachableUnder Guarded Loaded p ∧
      plugin.step p (.settle 1 .ok) = some p' ∧
      p.tasks[1]?.map Task.await = some (.check (.pull "1.5.0")) ∧
      p.tasks[1]?.map Task.born = some 1 ∧ p.state.lifecycleGeneration = 2 ∧
      p'.state.view = p.state.view := by
  obtain ⟨p, hp⟩ : ∃ p, plugin.run unstarted
      (pullsUpdate ++ [.start { imageTag := some "1.3.0" }]) = some p := ⟨_, rfl⟩
  have hmeets : plugin.Meets Guarded unstarted
      (pullsUpdate ++ [.start { imageTag := some "1.3.0" }]) := by decide +kernel
  have hreach : plugin.ReachableUnder Guarded Loaded p := .run (.init unstarted_loaded) hmeets hp
  cases hp
  refine ⟨_, _, hreach, rfl, by decide, by decide, by decide, ?_⟩
  exact superseded_inert (a := .settle 1 .ok) hreach (by decide +kernel) rfl 1 .ok _ rfl rfl (by decide)

/-- A config saved during the health wait: the recreated server answers, and the pinned tag that was
just saved is replaced by "auto". -/
theorem superseded_overwrites :
    ∃ p p' : System, plugin.Reachable Loaded p ∧ plugin.step p (.settle 1 .ok) = some p' ∧
      p.tasks[1]?.map Task.born = some 1 ∧ p.state.lifecycleGeneration = 2 ∧
      p.state.settings.map Settings.imageTag = some "1.3.0" ∧
      p'.state.settings.map Settings.imageTag = some "auto" ∧
      ¬Inert p (.settle 1 .ok) p' := by
  obtain ⟨p, hp⟩ : ∃ p, plugin.run unstarted
      (awaitsHealth ++ [.start { imageTag := some "1.3.0" }, .settle 1 .ok]) = some p := ⟨_, rfl⟩
  have hreach : plugin.Reachable Loaded p := Machine.Reachable.run (.init unstarted_loaded) hp
  cases hp
  refine ⟨_, _, hreach, rfl, by decide, by decide, by decide, by decide, ?_⟩
  intro hinert
  -- the settings were saved once more
  have hview := hinert 1 .ok _ rfl rfl (by decide)
  exact absurd (congrArg (fun v => v.saves.length) hview) (by decide)

end Plugin
end SignalKBackup
