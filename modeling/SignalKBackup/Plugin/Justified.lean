import SignalKBackup.Plugin.Updating

/-!
# Justified — the guards of an automatic swap

Between the answer that names a release and the swap to it a check waits five times.  What it has
read before may be out of date by then; `run_justified` says what holds at the moment of the swap.
-/

namespace SignalKBackup
namespace Plugin

open Lib
open Config

/-- Which target an automatic install swaps to at this await, if it does. -/
def Await.swapsTo : Await → Option String
  | .check (.install i (.recreate .target _)) => some i.target
  | _ => none

/-- A check reaches `swap(target)`: the recreate for the target begins. -/
def Swaps (p p' : System) (i : ℕ) (target : String) : Prop :=
  (∃ t', p'.tasks[i]? = some t' ∧ t'.await.swapsTo = some target) ∧
    ∀ t, p.tasks[i]? = some t → t.await.swapsTo = none

/-- What has to hold when the task at position `i` swaps to `target`. -/
structure Justified (p : System) (i : ℕ) (target : String) : Prop where
  generation : ∀ t, p.tasks[i]? = some t →
    t.born = p.state.lifecycleGeneration ∧ t.gen = p.state.lifecycleGeneration
  automatic : ∃ c, p.state.settings = some c ∧ c.imageTag = "auto" ∧ c.autoUpdateServer = true
  alone : p.state.serverInstalling = false ∧
    ∀ (j : ℕ) (u : Task), p.tasks[j]? = some u → u.updating = false
  noRestore : p.state.hostRestoreRunning = false
  /-- A final release, newer than the resolved tag and of its major, that has not failed. -/
  release : ∃ current, p.state.resolvedAutoTag = some current ∧ isConcreteSemver current = true ∧
    isConcreteSemver target = true ∧ '-' ∉ target.toList ∧ 0 < compareSemver target current ∧
      majorOf target = majorOf current ∧ target ∉ p.state.failedServerVersions

/-- The pull of the task at position `i` has ended, and nothing it waited for since has settled. -/
def PullEnded (p₀ : System) (as : List Action) (i : ℕ) (target : String) : Prop :=
  ∃ before after p t, as = before ++ .settle i .ok :: after ∧ plugin.run p₀ before = some p ∧
    p.tasks[i]? = some t ∧ t.await = .check (.pull target) ∧ ∀ o, .settle i o ∉ after

/-! ## The step of the swap -/

theorem inCheck_swapsTo {i : Install} {r : State × Next} {target : String}
    (h : (State.inCheck i r).2.swapsTo = some target) :
    i.target = target ∧ ∃ image, r.2 = .await (.recreate .target image) := by
  rcases inCheck_await i r with ⟨w, hnext, hawait⟩ | hawait
  · rw [hawait] at h
    cases w with
    | recreate swap image =>
        cases swap with
        | target =>
            exact ⟨Option.some.inj h, image, hnext⟩
        | previous => cases h
    | _ => cases h
  · rw [hawait] at h
    cases h

/-- An install that goes on begins no recreate for its target. -/
theorem InstallStep.next_recreate {s : State} {i : Install} {w : InstallAwait} {a : Settle}
    {r : State × Next} {image : String} (h : InstallStep s i w a r) :
    r.2 ≠ .await (.recreate .target image) := by
  -- a swap that fails goes back to the previous version, never to the target
  have hfailed : ∀ (s : State) (swap : Swap),
      (s.swapFailed i swap).2 ≠ .await (.recreate .target image) := by
    intro s swap
    rcases s.swapFailed_cases i swap with heq | ⟨_, _, heq⟩
    · rw [heq]
      simp [State.installFailed]
    · rw [heq]
      simp
  cases h with
  | recreated swap image =>
      simp
  | recreateFailed swap image container =>
      exact hfailed _ swap
  | located swap addr =>
      simp
  | notLocated swap _ =>
      exact hfailed _ swap
  | answered swap addr =>
      simp
  | noAnswer swap addr =>
      exact hfailed _ swap
  | up =>
      rcases s.installed_cases i with ⟨_, heq⟩ | ⟨_, _, _, heq⟩
      · rw [heq]
        simp
      · rw [heq]
        simp
  | back =>
      simp [State.installFailed]
  | saved options =>
      simp
  | saveFailed options =>
      simp

/-- The swap comes right behind the answer of an idle server, with every guard still in force. -/
theorem TaskStep.swaps {s : State} {gen : ℕ} {w : Await} {a : Settle} {r : State × Await}
    {target : String} (h : TaskStep s gen w a r) (hr : r.2.swapsTo = some target) :
    w = .check (.idle target true) ∧ a = .idle true ∧ s.wanted gen = true ∧ s.busy = false ∧
      ∃ current, s.resolvedAutoTag = some current ∧
        pickServerUpdate current (some target) s.failedServerVersions = some target := by
  cases h with
  | startup h =>
      cases h <;> cases hr
  | apply h =>
      rcases h.await with ⟨w', hawait⟩ | hawait <;>
        · rw [hawait] at hr
          cases hr
  | check h =>
      cases h with
      | installs hwanted hbusy hcurrent hpick hinstall =>
          rcases inCheck_swapsTo hr with ⟨htarget, _⟩
          have hinst := congrArg (fun x => x.1.target) hinstall
          simp only [State.wanted_generation hwanted] at hinst
          rw [State.installServerRelease_current { s with serverInstalling := true }] at hinst
          cases hinst.trans htarget
          exact ⟨rfl, rfl, hwanted, hbusy, _, hcurrent, hpick⟩
      | install hstep =>
          rcases inCheck_swapsTo hr with ⟨_, image, hnext⟩
          exact absurd hnext hstep.next_recreate
      | _ => cases hr
  | dbExport h =>
      cases h <;> cases hr

theorem Await.first_swapsTo {w : Await} (h : w.first = true) : w.swapsTo = none := by
  unfold Await.first at h
  split at h <;> first | rfl | cases h

/-! ## The pull before the idle probe -/

/-- The idle probe is asked right behind the pull. -/
theorem TaskStep.asks {s : State} {gen : ℕ} {w : Await} {a : Settle} {r : State × Await}
    {target : String} {asked : Bool} (h : TaskStep s gen w a r)
    (hr : r.2 = .check (.idle target asked)) : w = .check (.pull target) ∧ a = .ok := by
  cases h with
  | startup h =>
      cases h <;> cases hr
  | apply h =>
      rcases h.await with ⟨w', hawait⟩ | hawait <;>
        · rw [hawait] at hr
          cases hr
  | check h =>
      cases h with
      | pulled target' _ _ =>
          cases hr
          exact ⟨rfl, rfl⟩
      | @installs target' current i next =>
          rcases inCheck_await i next with ⟨_, _, hawait⟩ | hawait <;> cases hawait.symm.trans hr
      | @install i w a next =>
          rcases inCheck_await i next with ⟨_, _, hawait⟩ | hawait <;> cases hawait.symm.trans hr
      | _ => cases hr
  | dbExport h =>
      cases h <;> cases hr

theorem pullEnded_run {p₀ p : System} {as : List Action} (hloaded : Loaded p₀)
    (hrun : plugin.run p₀ as = some p) {i : ℕ} {t : Task} {target : String} {asked : Bool}
    (ht : p.tasks[i]? = some t) (hawait : t.await = .check (.idle target asked)) :
    PullEnded p₀ as i target := by
  -- on the run from its end: the last action is the end of the pull, or none of this task's
  induction as using List.reverseRecOn generalizing p t with
  | nil =>
      cases hrun
      rw [hloaded.1] at ht
      cases ht
  | append_singleton as a ih =>
      rcases (Machine.run_concat_eq_some _).1 hrun with ⟨q, hq, hs⟩
      cases task_cases hs ht with
      | same hold hother =>
          rcases ih hq hold hawait with ⟨before, after, q', t', rfl, hq', ht', hpull, hno⟩
          refine ⟨before, after ++ [a], q', t', by simp, hq', ht', hpull, ?_⟩
          intro o hmem
          rcases List.mem_append.1 hmem with hmem | hmem
          · exact hno o hmem
          · simp only [List.mem_singleton] at hmem
            exact hother o hmem.symm
      | moved ha hold hstep heq _ =>
          subst heq
          rcases hstep.asks hawait with ⟨hpull, rfl⟩
          exact ⟨as, [], q, _, by rw [ha], hq, hold, hpull, by simp⟩
      | begun _ hfirst =>
          rw [hawait] at hfirst
          cases hfirst

/-! ## Every automatic swap is justified -/

theorem justified_step {p p' : System} {a : Action} {i : ℕ} {target : String}
    (hgenerations : Generations p) (hone : OneUpdate p) (hs : plugin.step p a = some p')
    (hswaps : Swaps p p' i target) :
    Justified p i target ∧ a = .settle i (.idle true) ∧
      p.tasks[i]?.map Task.await = some (.check (.idle target true)) := by
  rcases hswaps with ⟨⟨t', ht', htarget⟩, hbefore⟩
  cases task_cases hs ht' with
  | same hold _ =>
      rw [hbefore t' hold] at htarget
      cases htarget
  | begun _ hfirst =>
      rw [Await.first_swapsTo hfirst] at htarget
      cases htarget
  | @moved t o r ha ht hstep heq hstate =>
      subst heq
      -- only the answer of an idle server leads to a swap
      rcases hstep.swaps htarget with ⟨hawait, rfl, hwanted, hbusy, current, hcurrent, hpick⟩
      simp only [State.busy, Bool.or_eq_false_iff] at hbusy
      have hgen := State.wanted_generation hwanted
      simp only [State.wanted, Bool.and_eq_true] at hwanted
      refine ⟨⟨?_, ?_, ⟨hbusy.1, fun j u hu => hone.free hbusy.1 hu⟩, hbusy.2, ?_⟩, ha, ?_⟩
      · intro u hu
        cases ht.symm.trans hu
        exact ⟨(hgenerations.tasks t (List.mem_of_getElem? ht)).symm.trans hgen, hgen⟩
      · -- the guard reads the settings as they are now
        have henabled := hwanted.2
        unfold State.autoUpdateEnabled at henabled
        cases hc : p.state.settings with
        | none =>
            rw [hc] at henabled
            cases henabled
        | some c =>
            rw [hc] at henabled
            simp only [Option.any_some, Bool.and_eq_true, beq_iff_eq] at henabled
            exact ⟨c, rfl, henabled.1, henabled.2⟩
      · rcases pickServerUpdate_eq_some.1 hpick with
          ⟨_, hconcrete, hdash, hconcrete', hnewer, hmajor, hfailed⟩
        exact ⟨current, hcurrent, hconcrete', hconcrete, hdash, hnewer, hmajor, hfailed⟩
      · rw [ht]
        exact congrArg some hawait

/-- Whenever a check reaches the swap to its target, all that justifies it holds at that moment, and
the server has answered that it is idle since the pull ended. -/
theorem run_justified {p₀ p p' : System} {as : List Action} {a : Action} {i : ℕ} {target : String}
    (hloaded : Loaded p₀) (hrun : plugin.run p₀ as = some p) (hs : plugin.step p a = some p')
    (hswaps : Swaps p p' i target) :
    Justified p i target ∧ a = .settle i (.idle true) ∧ PullEnded p₀ as i target := by
  have hreach : plugin.Reachable Loaded p := Machine.Reachable.run (.init hloaded) hrun
  rcases justified_step (reachable_generations hreach) (reachable_oneUpdate hreach) hs hswaps with
    ⟨hjustified, ha, hawait⟩
  rcases Option.map_eq_some_iff.1 hawait with ⟨t, ht, hidle⟩
  exact ⟨hjustified, ha, pullEnded_run hloaded hrun ht hidle⟩

/-- The first check of a lifecycle swaps to 1.5.0. -/
theorem run_justified_first :
    ∃ p p' : System, plugin.run unstarted (pullsUpdate ++ [.settle 1 .ok]) = some p ∧
      plugin.step p (.settle 1 (.idle true)) = some p' ∧ Swaps p p' 1 "1.5.0" ∧
      Justified p 1 "1.5.0" ∧ PullEnded unstarted (pullsUpdate ++ [.settle 1 .ok]) 1 "1.5.0" := by
  obtain ⟨p, hp⟩ : ∃ p, plugin.run unstarted (pullsUpdate ++ [.settle 1 .ok]) = some p := ⟨_, rfl⟩
  obtain ⟨p', hp'⟩ : ∃ p', plugin.step p (.settle 1 (.idle true)) = some p' := by
    cases hp
    exact ⟨_, rfl⟩
  have hswaps : Swaps p p' 1 "1.5.0" := by
    cases hp
    cases hp'
    refine ⟨⟨_, rfl, rfl⟩, ?_⟩
    rintro t ⟨⟩
    rfl
  have hjustified := run_justified unstarted_loaded hp hp' hswaps
  exact ⟨p, p', hp, hp', hswaps, hjustified.1, hjustified.2.2⟩

end Plugin
end SignalKBackup
