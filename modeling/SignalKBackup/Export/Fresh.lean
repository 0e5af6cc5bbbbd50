import SignalKBackup.Export.Scheduler

/-!
# Fresh — a manual backup waits for an export that ends after the request

`POST /api/backups` calls `runDbExportTick` before it is forwarded, and a call that finds a cycle in
flight waits for that one.  `Waits` follows such a call: the cycle it has been given is in flight
when the request comes (`runDbExportTick_waits`), it stays the caller's cycle, and only its own
`finally` takes it out of flight (`finish_of_run`).  So the request goes on to the server only when
a cycle that was under way after its arrival is over (`backup_waits`).
-/

namespace SignalKBackup
namespace Export

open Lib
open Plugin (pluginStep)

variable {β : Type} {e : Setup β} {s s' : System β}

/-! ## The flag and the cycle it stands for -/

/-- `dbExportInFlight` is a cycle whose `finally` is still to come. -/
def Flagged (s : System β) : Prop :=
  ∀ i, s.dbExportInFlight = some i → ∃ c, s.cycles[i]? = some c ∧ c.inFlight = true

/-- The task has been given the cycle. -/
def System.Waits (s : System β) (task cycle : ℕ) : Prop :=
  { task, cycle } ∈ s.callers

/-- Whoever calls gets a cycle that is in flight from then on. -/
theorem runDbExportTick_waits (h : Flagged s) (task : ℕ) :
    ∃ i c, (s.runDbExportTick e task).Waits task i ∧
      (s.runDbExportTick e task).cycles[i]? = some c ∧ c.inFlight = true := by
  unfold System.runDbExportTick
  split
  case h_1 i hi =>
      rcases h i hi with ⟨c, hc, hflight⟩
      exact ⟨i, c, List.mem_append_right _ (List.mem_singleton.2 rfl), hc, hflight⟩
  case h_2 =>
      exact ⟨s.cycles.length, _, List.mem_append_right _ (List.mem_singleton.2 rfl),
        List.getElem?_concat_length, rfl⟩

theorem Flagged.runDbExportTick (h : Flagged s) (task : ℕ) :
    Flagged (s.runDbExportTick e task) := by
  unfold System.runDbExportTick
  split
  case h_1 =>
      exact h
  case h_2 =>
      rintro i hi
      cases hi
      exact ⟨_, List.getElem?_concat_length, rfl⟩

/-! ## One step -/

/-- What a step leaves of a cycle in flight, and of those who wait for it. -/
structure Carries (s : System β) (a : Action β) (s' : System β) : Prop where
  callers : ∀ c ∈ s.callers, c ∈ s'.callers
  length : s.cycles.length ≤ s'.cycles.length
  inFlight : ∀ i c, s.cycles[i]? = some c → c.inFlight = true → a ≠ .finish i →
    ∃ c', s'.cycles[i]? = some c' ∧ c'.inFlight = true

/-- A step that touches neither the cycles nor who waits for them. -/
theorem Carries.of_eq {a : Action β} (hcallers : s'.callers = s.callers)
    (hcycles : s'.cycles = s.cycles) : Carries s a s' := by
  refine ⟨fun c hc => hcallers ▸ hc, le_of_eq (congrArg List.length hcycles.symm), ?_⟩
  intro i c hc hflight _
  exact ⟨c, hcycles ▸ hc, hflight⟩

theorem runDbExportTick_carries (a : Action β) (task : ℕ) :
    Carries s a (s.runDbExportTick e task) := by
  unfold System.runDbExportTick
  split
  case h_1 =>
      exact ⟨fun c hc => List.mem_append_left _ hc, le_rfl,
        fun i c hc hflight _ => ⟨c, hc, hflight⟩⟩
  case h_2 =>
      refine ⟨fun c hc => List.mem_append_left _ hc, by simp,
        fun i c hc hflight _ => ⟨c, ?_, hflight⟩⟩
      exact (List.getElem?_append_left (List.getElem?_eq_some_iff.1 hc).1).trans hc

/-- A call of a cycle settles: the cycle stays in flight. -/
theorem Carries.of_set {a : Action β} {i : ℕ} {c₁ c₂ : ExportCycle β}
    (hc : s.cycles[i]? = some c₁) (hcallers : s'.callers = s.callers)
    (hcycles : s'.cycles = s.cycles.set i c₂) (hcleared : a ≠ .finish i → c₂.cleared = c₁.cleared) :
    Carries s a s' := by
  refine ⟨fun c hc => hcallers ▸ hc, by rw [hcycles, List.length_set], ?_⟩
  intro j c hj hflight hne
  rw [hcycles]
  by_cases hji : j = i
  · subst hji
    cases hj.symm.trans hc
    refine ⟨c₂, List.getElem?_set_self (List.getElem?_eq_some_iff.1 hc).1, ?_⟩
    simpa [ExportCycle.inFlight, hcleared hne] using hflight
  · exact ⟨c, (List.getElem?_set_ne (Ne.symm hji)).trans hj, hflight⟩

theorem carries_step {a : Action β} (hs : exportStep e s a = some s') : Carries s a s' := by
  cases a with
  | plugin a =>
      simp only [exportStep] at hs
      split at hs
      case isTrue =>
          cases hs
      case isFalse =>
          rcases Option.map_eq_some_iff.1 hs with ⟨plugin, _, rfl⟩
          split
          · have htick := runDbExportTick_carries (s := { s with plugin }) (e := e) (.plugin a)
              s.plugin.tasks.length
            exact ⟨htick.callers, htick.length, htick.inFlight⟩
          · exact .of_eq rfl rfl
  | call i o =>
      simp only [exportStep] at hs
      split at hs
      case h_2 =>
          cases hs
      case h_1 op k cleared hc =>
          rcases Option.map_eq_some_iff.1 hs with ⟨⟨disk, r⟩, _, rfl⟩
          cases r with
          | none =>
              exact .of_eq rfl rfl
          | some x =>
              exact .of_set hc rfl rfl fun _ => rfl
  | finish i =>
      simp only [exportStep] at hs
      split at hs
      case h_2 =>
          cases hs
      case h_1 r hc =>
          cases hs
          exact .of_set hc rfl rfl fun hne => absurd rfl hne
  | copy path =>
      simp only [exportStep] at hs
      split at hs
      case h_1 =>
          cases hs
          exact .of_eq rfl rfl
      case h_2 =>
          cases hs

theorem flagged_step {a : Action β} (h : Flagged s) (hs : exportStep e s a = some s') :
    Flagged s' := by
  have hcarries := carries_step hs
  cases a with
  | plugin a =>
      simp only [exportStep] at hs
      split at hs
      case isTrue =>
          cases hs
      case isFalse =>
          rcases Option.map_eq_some_iff.1 hs with ⟨plugin, _, rfl⟩
          split
          · exact Flagged.runDbExportTick (s := { s with plugin }) h _
          · exact h
  | call j o =>
      intro i hi
      have hflag : s.dbExportInFlight = some i := by
        simp only [exportStep] at hs
        split at hs
        case h_2 =>
            cases hs
        case h_1 =>
            rcases Option.map_eq_some_iff.1 hs with ⟨⟨disk, r⟩, _, rfl⟩
            cases r <;> exact hi
      rcases h i hflag with ⟨c, hc, hflight⟩
      exact hcarries.inFlight i c hc hflight fun hno => by cases hno
  | finish j =>
      simp only [exportStep] at hs
      split at hs
      case h_2 =>
          cases hs
      case h_1 =>
          cases hs
          intro i hi
          cases hi
  | copy path =>
      simp only [exportStep] at hs
      split at hs
      case h_1 =>
          cases hs
          exact h
      case h_2 =>
          cases hs

theorem reachable_flagged (h : (exports e).Reachable Started s) : Flagged s := by
  refine h.invariant (fun s hstarted => ?_) fun _ _ _ hflagged _ hs => flagged_step hflagged hs
  intro i hi
  rw [hstarted.idle] at hi
  cases hi

/-! ## Runs -/

theorem waits_run {as : List (Action β)} {task i : ℕ} (h : s.Waits task i)
    (hrun : (exports e).run s as = some s') : s'.Waits task i := by
  induction as generalizing s with
  | nil =>
      cases hrun
      exact h
  | cons a as ih =>
      rcases (Machine.run_cons_eq_some _).1 hrun with ⟨s₁, hs, hrest⟩
      exact ih ((carries_step hs).callers _ h) hrest

/-- A cycle in flight comes to its end by its own `finally` only. -/
theorem finish_of_run {as : List (Action β)} {i : ℕ} {c c' : ExportCycle β}
    (hrun : (exports e).run s as = some s') (hc : s.cycles[i]? = some c) (hflight : c.inFlight = true)
    (hc' : s'.cycles[i]? = some c') (hover : c'.inFlight = false) : Action.finish i ∈ as := by
  induction as generalizing s c with
  | nil =>
      cases hrun
      cases hc.symm.trans hc'
      rw [hflight] at hover
      cases hover
  | cons a as ih =>
      rcases (Machine.run_cons_eq_some _).1 hrun with ⟨s₁, hs, hrest⟩
      by_cases ha : a = .finish i
      · exact ha ▸ List.mem_cons_self
      · rcases (carries_step hs).inFlight i c hc hflight ha with ⟨c₁, hc₁, hflight₁⟩
        exact List.mem_cons_of_mem _ (ih hrest hc₁ hflight₁)

theorem length_run {as : List (Action β)} (hrun : (exports e).run s as = some s') :
    s.cycles.length ≤ s'.cycles.length := by
  induction as generalizing s with
  | nil =>
      cases hrun
      exact le_rfl
  | cons a as ih =>
      rcases (Machine.run_cons_eq_some _).1 hrun with ⟨s₁, hs, hrest⟩
      exact (carries_step hs).length.trans (ih hrest)

/-- A manual backup that finds an exporter enabled is forwarded only after an export cycle that was in
flight when the request had come, and that has ended since, all its calls settled. -/
theorem backup_waits {s₁ s₂ s₃ : System β} {as : List (Action β)} {a : Plugin.Settle}
    (h : (exports e).Reachable Started s) (hexports : s.plugin.state.exports = true)
    (hbackup : exportStep e s (.plugin .backup) = some s₁) (hrun : (exports e).run s₁ as = some s₂)
    (hforwarded : exportStep e s₂ (.plugin (.settle s.plugin.tasks.length a)) = some s₃) :
    ∃ i c₁ c₂, s₁.cycles[i]? = some c₁ ∧ c₁.inFlight = true ∧ Action.finish i ∈ as ∧
      s₂.cycles[i]? = some c₂ ∧ c₂.inFlight = false ∧ c₂.running = false := by
  have hreach₁ : (exports e).Reachable Started s₁ := Machine.Reachable.step (a := .plugin .backup) h hbackup
  have hreach₂ : (exports e).Reachable Started s₂ := Machine.Reachable.run hreach₁ hrun
  -- the request is given a cycle
  obtain ⟨i, c₁, hwaits, hc₁, hflight⟩ : ∃ i c₁, s₁.Waits s.plugin.tasks.length i ∧
      s₁.cycles[i]? = some c₁ ∧ c₁.inFlight = true := by
    simp only [exportStep, System.held, Bool.false_eq_true, if_false] at hbackup
    rcases Option.map_eq_some_iff.1 hbackup with ⟨plugin, _, rfl⟩
    have hticks : ticks s.plugin.state .backup = true := hexports
    rw [if_pos hticks]
    have hflagged : Flagged { s with plugin } := (reachable_flagged h : Flagged s)
    exact runDbExportTick_waits hflagged _
  have hlt : i < s₂.cycles.length :=
    (List.getElem?_eq_some_iff.1 hc₁).1.trans_le (length_run hrun)
  have hc₂ : s₂.cycles[i]? = some s₂.cycles[i] := List.getElem?_eq_getElem hlt
  -- the request goes on, so its cycle is over
  have hover : s₂.cycles[i].inFlight = false := by
    have hheld : s₂.held (.settle s.plugin.tasks.length a) = false := by
      cases hb : s₂.held (.settle s.plugin.tasks.length a) with
      | false =>
          rfl
      | true =>
          simp [exportStep, hb] at hforwarded
    have hnot := List.any_eq_false.1 hheld _ (waits_run hwaits hrun)
    simpa [hc₂] using hnot
  exact ⟨i, c₁, s₂.cycles[i], hc₁, hflight, finish_of_run hrun hc₁ hflight hc₂ hover, hc₂, hover,
    (reachable_orderly hreach₂).finished i _ hc₂ hover⟩

/-- The request comes, a second one joins the same cycle, and the cycle ends. -/
def afterRequest : List (Action (List Char)) :=
  backup.drop 2

theorem backup_waits_joined :
    ∃ s s₁ s₂ s₃, (exports onBoard).run freshSystem (backup.take 1) = some s ∧
      exportStep onBoard s (.plugin .backup) = some s₁ ∧
      (exports onBoard).run s₁ afterRequest = some s₂ ∧
      exportStep onBoard s₂ (.plugin (.settle s.plugin.tasks.length .ok)) = some s₃ ∧
      ∃ i c₁ c₂, s₁.cycles[i]? = some c₁ ∧ c₁.inFlight = true ∧ Action.finish i ∈ afterRequest ∧
        s₂.cycles[i]? = some c₂ ∧ c₂.inFlight = false ∧ c₂.running = false := by
  obtain ⟨s, s₁, s₂, s₃, hs, hexports, hbackup, hrun, hforwarded⟩ :
      ∃ s s₁ s₂ s₃, (exports onBoard).run freshSystem (backup.take 1) = some s ∧
        s.plugin.state.exports = true ∧ exportStep onBoard s (.plugin .backup) = some s₁ ∧
        (exports onBoard).run s₁ afterRequest = some s₂ ∧
        exportStep onBoard s₂ (.plugin (.settle s.plugin.tasks.length .ok)) = some s₃ :=
    ⟨_, _, _, _, rfl, rfl, rfl, rfl, rfl⟩
  have hreach : (exports onBoard).Reachable Started s :=
    Machine.Reachable.run (.init freshSystem_started) hs
  exact ⟨s, s₁, s₂, s₃, hs, hbackup, hrun, hforwarded,
    backup_waits hreach hexports hbackup hrun hforwarded⟩

end Export
end SignalKBackup
