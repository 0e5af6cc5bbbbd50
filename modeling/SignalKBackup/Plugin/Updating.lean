import SignalKBackup.Plugin.Superseded

/-!
# Updating — one update at a time

"Apply update" and the installs of the automatic updater run inside `exclusively`: `serverInstalling`
is a slot, and at most one task holds it (`reachable_oneUpdate`).

The last section is about runs in which `start()` and `stop()` come only while the slot is free.
There the task that holds the slot is never superseded (`reachable_holderCurrent`), so these runs
meet the condition of `superseded_inert`.
-/

namespace SignalKBackup
namespace Plugin

open Lib
open Config

/-- Inside `exclusively`. -/
def Await.updating : Await → Bool
  | .apply (.returned _) => false
  | .apply _ => true
  | .check (.install _ _) => true
  | .check .leaving => true
  | _ => false

def Task.updating (t : Task) : Bool :=
  t.await.updating

/-- At most one task is inside `exclusively`, and the flag says so. -/
def OneUpdate (p : System) : Prop :=
  Exclusive Task.updating p.state.serverInstalling p.tasks

/-! ## What a task does to the slot -/

/-- A task leaves the slot as it is, takes it while it is free and the task is current, or gives it
up. -/
inductive Lock (s : State) (gen : ℕ) (w : Await) (r : State × Await) : Prop where
  | same : r.2.updating = w.updating → r.1.serverInstalling = s.serverInstalling → Lock s gen w r
  | takes : gen = s.lifecycleGeneration → s.serverInstalling = false →
      r.1.serverInstalling = true → Lock s gen w r
  | leaves : w.updating = true → r.2.updating = false → Lock s gen w r

theorem inApply_updating (i : Install) (r : State × Next) : (State.inApply i r).2.updating = true := by
  rcases r with ⟨s, w | result⟩
  · rfl
  · cases result <;> rfl

theorem inCheck_updating (i : Install) (r : State × Next) : (State.inCheck i r).2.updating = true := by
  rcases r with ⟨s, w | result⟩ <;> rfl

theorem StartupStep.idle {s : State} {gen : ℕ} {w : StartupAwait} {a : Settle} {r : State × Await}
    (h : StartupStep s gen w a r) : r.2.updating = false := by
  cases h <;> rfl

theorem ApplyStep.lock {s : State} {w : ApplyAwait} {a : Settle} {r : State × Await}
    (h : ApplyStep s w a r) (gen : ℕ) : Lock s gen (.apply w) r := by
  cases h with
  | pulled hinstall =>
      refine .same (inApply_updating _ _) ?_
      rw [inApply_state]
      exact State.control_installing (State.installServerRelease_frame rfl hinstall).1
  | install hstep =>
      refine .same (inApply_updating _ _) ?_
      rw [inApply_state]
      exact State.control_installing hstep.frame.1
  | recreatedSaving hsave =>
      have hframe := State.persistAppliedTag_control hsave
      have hinstalling := State.control_installing hframe.1
      exact .same rfl hinstalling
  | located image addr saveFailed =>
      exact .same rfl (State.control_installing (s.adoptServerAddress_control _))
  | leaving result =>
      exact .leaves rfl rfl
  | scheduled tag hclient =>
      exact .same rfl (State.control_installing (s.scheduleServerUpdate_control _ _))
  | error hgives =>
      refine .same ?_ rfl
      cases w with
      | leaving => cases hgives
      | returned => cases hgives
      | _ =>
          rfl
  | _ =>
      exact .same rfl rfl

theorem CheckStep.lock {s : State} {gen : ℕ} {w : CheckAwait} {a : Settle} {r : State × Await}
    (h : CheckStep s gen w a r) : Lock s gen (.check w) r := by
  cases h with
  | done nextMs hsearching =>
      refine .same ?_ rfl
      cases w with
      | install => cases hsearching
      | leaving => cases hsearching
      | _ =>
          rfl
  | installs hwanted hbusy hcurrent hpick hinstall =>
      -- the slot was free when the check took it
      simp only [State.busy, Bool.or_eq_false_iff] at hbusy
      refine .takes (State.wanted_generation hwanted) hbusy.1 ?_
      rw [inCheck_state]
      have hframe := State.installServerRelease_frame (s := { s with serverInstalling := true })
        (State.wanted_generation hwanted) hinstall
      have htaken := State.control_installing hframe.1
      exact htaken
  | install hstep =>
      refine .same (inCheck_updating _ _) ?_
      rw [inCheck_state]
      exact State.control_installing hstep.frame.1
  | leaving =>
      exact .leaves rfl rfl
  | scheduled nextMs hgen =>
      exact .same rfl (State.control_installing (s.scheduleServerUpdate_control _ _))
  | _ =>
      exact .same rfl rfl

theorem TaskStep.lock {s : State} {gen : ℕ} {w : Await} {a : Settle} {r : State × Await}
    (h : TaskStep s gen w a r) : Lock s gen w r := by
  cases h with
  | startup h =>
      exact .same h.idle (State.control_installing h.control)
  | apply h =>
      exact h.lock gen
  | check h =>
      exact h.lock
  | dbExport h =>
      have hflag := State.control_installing h.frame.1
      exact .same (by cases h <;> rfl) hflag

/-! ## One update -/

theorem asyncStart_idle (s : State) (gen : ℕ) : (s.asyncStart gen).2.updating = false := by
  unfold State.asyncStart
  dsimp only
  split
  · split <;> rfl
  · split <;> rfl

theorem checkServerUpdate_idle (s : State) (gen : ℕ) :
    (s.checkServerUpdate gen).2.updating = false := by
  unfold State.checkServerUpdate
  split <;> rfl

theorem oneUpdate_export {p p' : System} (h : OneUpdate p)
    (hexport : p' = p ∨ ∃ s w, Frame p.state s ∧
      p' = p.begin p.state.lifecycleGeneration (s, .dbExport w)) : OneUpdate p' := by
  rcases hexport with rfl | ⟨s, w, hframe, rfl⟩
  · exact h
  · have hsame : (p.begin p.state.lifecycleGeneration (s, .dbExport w)).state.serverInstalling =
        p.state.serverInstalling := State.control_installing hframe.1
    unfold OneUpdate
    rw [hsame]
    exact Exclusive.append_idle h rfl

theorem oneUpdate_step {p p' : System} {a : Action} (h : OneUpdate p)
    (hs : plugin.step p a = some p') : OneUpdate p' := by
  cases a with
  | start config =>
      cases hs
      have hcontrol := (asyncStart_control (p.state.start config)
        (p.state.start config).lifecycleGeneration).1
      have hflag := State.control_installing hcontrol
      have hsame : (p.start config).state.serverInstalling = p.state.serverInstalling := hflag
      unfold OneUpdate
      rw [hsame]
      exact Exclusive.append_idle h (asyncStart_idle _ _)
  | stop =>
      cases hs
      exact h
  | apply manager tag valid =>
      cases hs
      unfold System.apply
      split
      · exact h
      · rename_i hrefused
        -- `exclusively` refuses while the slot is taken
        simp only [Bool.or_eq_true, not_or, Bool.not_eq_true] at hrefused
        refine Exclusive.append h hrefused.2 fun _ => ?_
        exact congrArg State.serverInstalling (applyServerUpdate_frame p.state _)
  | timer =>
      simp only [plugin, pluginStep, Option.map_eq_some_iff] at hs
      rcases hs with ⟨timer, _, rfl⟩
      have hflag := congrArg State.serverInstalling
        (checkServerUpdate_state p.state.stopServerUpdateTimer timer.gen)
      have hsame : (p.begin timer.gen
          (p.state.stopServerUpdateTimer.checkServerUpdate timer.gen)).state.serverInstalling =
            p.state.serverInstalling := hflag
      unfold OneUpdate
      rw [hsame]
      exact Exclusive.append_idle h (checkServerUpdate_idle _ _)
  | settle i o =>
      rcases settle_cases hs with ⟨t, r, ht, hstep, rfl⟩
      cases hstep.lock with
      | same hawait hflag =>
          refine Exclusive.set h ht (fun hidle => ⟨hawait.trans hidle, hflag⟩) fun hholds _ => ?_
          exact hflag.trans (h i t ht hholds).1
      | takes _ hfree htaken =>
          exact Exclusive.take h hfree htaken
      | leaves hholds hidle =>
          refine Exclusive.set h ht (fun hnot => ?_) fun _ hholds' => ?_
          · cases hholds.symm.trans hnot
          · cases hidle.symm.trans hholds'
  | dbExport body =>
      exact oneUpdate_export h (export_cases (.dbExport body) rfl hs)
  | backup =>
      exact oneUpdate_export h (export_cases .backup rfl hs)
  | exportTick =>
      exact oneUpdate_export h (export_cases .exportTick rfl hs)
  | hostRestore running =>
      cases hs
      exact h

theorem Loaded.oneUpdate {p : System} (h : Loaded p) : OneUpdate p := by
  refine .of_free fun i t ht => ?_
  rw [h.1] at ht
  cases ht

theorem reachable_oneUpdate {C : System → Action → Prop} {p : System}
    (h : plugin.ReachableUnder C Loaded p) : OneUpdate p :=
  h.invariant (fun _ hloaded => hloaded.oneUpdate) fun _ _ _ hinv _ hs => oneUpdate_step hinv hs

/-! ## Restarts between updates -/

/-- `start()` and `stop()` come only while no update is in progress. -/
def Undisturbed (p : System) : Action → Prop
  | .start _ => p.state.serverInstalling = false
  | .stop => p.state.serverInstalling = false
  | _ => True

/-- The task inside `exclusively` belongs to the current generation. -/
def HolderCurrent (p : System) : Prop :=
  ∀ (i : ℕ) (t : Task), p.tasks[i]? = some t → t.updating = true →
    t.born = p.state.lifecycleGeneration

theorem holderCurrent_export {p p' : System} (h : HolderCurrent p)
    (hexport : p' = p ∨ ∃ s w, Frame p.state s ∧
      p' = p.begin p.state.lifecycleGeneration (s, .dbExport w)) : HolderCurrent p' := by
  rcases hexport with rfl | ⟨s, w, hframe, rfl⟩
  · exact h
  · intro i t ht hholds
    have hgen : s.lifecycleGeneration = p.state.lifecycleGeneration :=
      State.control_generation hframe.1
    rcases getElem?_concat_cases ht with hold | ⟨_, rfl⟩
    · exact (h i t hold hholds).trans hgen.symm
    · cases hholds

theorem holderCurrent_step {p p' : System} {a : Action} (hgen : Generations p) (hone : OneUpdate p)
    (h : HolderCurrent p) (hundisturbed : Undisturbed p a) (hs : plugin.step p a = some p') :
    HolderCurrent p' := by
  cases a with
  | start config =>
      cases hs
      intro i t ht hholds
      rcases getElem?_concat_cases ht with hold | ⟨_, rfl⟩
      · -- the slot is free, so no task holds it
        rw [hone.free hundisturbed hold] at hholds
        cases hholds
      · exact absurd ((asyncStart_idle _ _).symm.trans hholds) nofun
  | stop =>
      cases hs
      intro i t ht hholds
      rw [hone.free hundisturbed ht] at hholds
      cases hholds
  | apply manager tag valid =>
      cases hs
      unfold System.apply
      split
      · exact h
      · intro i t ht hholds
        have hflag := congrArg State.lifecycleGeneration
          (applyServerUpdate_frame p.state (requestedTag p.state tag))
        rcases getElem?_concat_cases ht with hold | ⟨_, rfl⟩
        · exact (h i t hold hholds).trans hflag.symm
        · exact hflag.symm
  | timer =>
      simp only [plugin, pluginStep, Option.map_eq_some_iff] at hs
      rcases hs with ⟨timer, _, rfl⟩
      intro i t ht hholds
      have hflag := congrArg State.lifecycleGeneration
        (checkServerUpdate_state p.state.stopServerUpdateTimer timer.gen)
      rcases getElem?_concat_cases ht with hold | ⟨_, rfl⟩
      · exact (h i t hold hholds).trans hflag.symm
      · exact absurd ((checkServerUpdate_idle _ _).symm.trans hholds) nofun
  | settle i o =>
      rcases settle_cases hs with ⟨t, r, ht, hstep, rfl⟩
      intro j u hu hholds
      rw [hstep.keeps.generation]
      rcases getElem?_set_cases hu with ⟨rfl, rfl⟩ | ⟨_, hold⟩
      · cases hstep.lock with
        | same hawait _ =>
            exact h j t ht (hawait.symm.trans hholds)
        -- a check takes the slot behind its guard
        | takes hcurrent _ _ =>
            exact (hgen.tasks t (List.mem_of_getElem? ht)).symm.trans hcurrent
        | leaves _ hidle =>
            exact absurd (hidle.symm.trans hholds) nofun
      · exact h j u hold hholds
  | dbExport body =>
      exact holderCurrent_export h (export_cases (.dbExport body) rfl hs)
  | backup =>
      exact holderCurrent_export h (export_cases .backup rfl hs)
  | exportTick =>
      exact holderCurrent_export h (export_cases .exportTick rfl hs)
  | hostRestore running =>
      cases hs
      exact h

theorem reachable_holderCurrent {p : System} (h : plugin.ReachableUnder Undisturbed Loaded p) :
    HolderCurrent p := by
  have hall : Generations p ∧ OneUpdate p ∧ HolderCurrent p := by
    refine h.invariant (P := fun p => Generations p ∧ OneUpdate p ∧ HolderCurrent p) ?_ ?_
    · intro p hloaded
      refine ⟨hloaded.generations, hloaded.oneUpdate, fun i t ht => ?_⟩
      rw [hloaded.1] at ht
      cases ht
    · rintro p a p' ⟨hgen, hone, hcurrent⟩ hundisturbed hs
      exact ⟨generations_step hgen hs, oneUpdate_step hone hs,
        holderCurrent_step hgen hone hcurrent hundisturbed hs⟩
  exact hall.2.2

/-- An unguarded await is inside `exclusively`. -/
theorem Await.updating_of_unguarded {w : Await} {a : Settle} (h : w.unguarded a = true) :
    w.updating = true := by
  cases w with
  | startup w => cases h
  | dbExport w => cases h
  | finished => cases h
  | apply w =>
      cases w with
      | returned result => cases h
      | _ =>
          rfl
  | check w =>
      cases w with
      | install i w =>
          rfl
      | _ => cases h

theorem guarded_of_undisturbed {p : System} (h : plugin.ReachableUnder Undisturbed Loaded p)
    (a : Action) : Guarded p a := by
  cases a with
  | settle i o =>
      intro t ht hsuperseded
      -- such a task would hold the slot, and the holder is current
      by_contra hunguarded
      rw [Bool.not_eq_false] at hunguarded
      exact hsuperseded (reachable_holderCurrent h i t ht (Await.updating_of_unguarded hunguarded))
  | _ =>
      trivial

/-- With restarts between updates only, the work of a superseded lifecycle changes nothing. -/
theorem undisturbed_inert {p p' : System} {a : Action}
    (hreach : plugin.ReachableUnder Undisturbed Loaded p) (hs : plugin.step p a = some p') :
    Inert p a p' :=
  inert_of_guarded (reachable_generations hreach) (guarded_of_undisturbed hreach a) hs

end Plugin
end SignalKBackup
