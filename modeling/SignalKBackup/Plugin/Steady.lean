import SignalKBackup.Config.Precedence
import SignalKBackup.Plugin.Updating
import SignalKBackup.Plugin.Versions

/-!
# Steady — startups and updates that keep apart

Under "auto" two kinds of tasks move the version: a startup between its wait for the container
manager and the end of its save, and an update from the choice of its version to the end of its
save.  This module follows one of them while the other tasks leave the version alone.

* `Await.moving`: the task is in such a stretch;
* `Held`: what it carries may follow the stored version, and what it saves is what it has published;
* `TaskStep.turn`: a step keeps that, and all that the other tasks rely on, unless it moves itself.

An update follows the stored version because the release is newer than the one that runs, and the
swap back goes to the one that ran; a startup because it has read the stored version.
-/

namespace SignalKBackup
namespace Plugin

open Lib
open Config

/-! ## Who moves the version -/

/-- An update has chosen its version, and has not saved it yet. -/
def Await.swapping : Await → Bool
  | .apply (.pull _) => true
  | .apply (.install _ _) => true
  | .apply (.recreate _ _) => true
  | .apply (.save _ _) => true
  | .check (.install _ _) => true
  | _ => false

/-- A startup is about to resolve "auto", or saves what it has resolved.  Before the save it goes on
in its own generation only. -/
def Await.resolves (current own : ℕ) : Await → Bool
  | .startup .manager => own == current
  | .startup (.resolveAutoTag _) => own == current
  | .startup (.saveResolved (some _)) => true
  | _ => false

def Await.moving (current own : ℕ) (w : Await) : Bool :=
  w.swapping || w.resolves current own

/-- The answer on which an update chooses its version.  An automatic one does so in its own
generation only. -/
def Await.chooses (current own : ℕ) : Await → Settle → Bool
  | .apply .check, .update _ _ => true
  | .check (.idle _ true), .idle true => own == current
  | _, _ => false

/-- An update chooses its version, in the slot of `exclusively` or with that slot free. -/
def Await.begins (s : State) (own : ℕ) (w : Await) (a : Settle) : Prop :=
  w.chooses s.lifecycleGeneration own a = true ∧
    (w.updating = true ∨ s.serverInstalling = false)

/-- A release that is reported as an update is newer than `running`, the `currentTag` that the update
service is given. -/
def Settle.Newer (running : String) : Settle → Prop
  | .update check _ => ∀ latest ∈ concreteUpdate check, 0 < compareSemver latest running
  | _ => True

instance (running : String) (a : Settle) : Decidable (a.Newer running) :=
  match a with
  | .update check _ => inferInstanceAs
      (Decidable (∀ latest ∈ concreteUpdate check, 0 < compareSemver latest running))
  | .ok | .fails | .recreateFails _ | .address _ | .link _ _ | .idle _ | .lookup _ =>
      inferInstanceAs (Decidable True)

/-! ## What a moving task holds -/

/-- The versions an update goes to, and back to. -/
def Await.versions : Await → List String
  | .apply (.pull latest) => [latest]
  | .apply (.recreate _ image) => [image]
  | .apply (.install i _) => [i.target, i.previous]
  | .check (.install i _) => [i.target, i.previous]
  | _ => []

/-- The version a startup goes by: the one in its settings, until it has read that. -/
def Await.reads (s : State) (own : ℕ) : Await → Option String
  | .startup .manager =>
      if own = s.lifecycleGeneration then some (s.settingsObjects own).resolvedImageTag else none
  | .startup (.resolveAutoTag persisted) =>
      if own = s.lifecycleGeneration then some persisted else none
  | _ => none

/-- `resolvedImageTag` of the stored options. -/
def State.storedTag (s : State) : Option String :=
  s.stored.map Settings.resolvedImageTag

/-- A version that may be saved next: it is not older than the stored one, or the floor is not. -/
structure Ahead (s : State) (version : String) : Prop where
  concrete : isConcreteSemver version = true
  stored : ∀ v ∈ s.storedTag, 0 ≤ compareSemver version v ∨ 0 ≤ compareSemver s.floor v

structure Held (s : State) (own : ℕ) (w : Await) : Prop where
  versions : ∀ v ∈ w.versions, Ahead s v
  saves : ∀ options ∈ w.saves, s.resolvedAutoTag = some options.resolvedImageTag
  pulls : ∀ latest, w = .apply (.pull latest) → s.resolvedAutoTag.isSome = true
  reads : ∀ persisted ∈ w.reads s own, persisted = s.storedTag.getD ""

/-- What holds of the state at any time. -/
structure Ordered (s : State) : Prop where
  floor : isConcreteSemver s.floor = true
  auto : s.Auto
  stored : ∀ v ∈ s.storedTag, isConcreteSemver v = true
  resolved : ∀ v ∈ s.resolvedAutoTag, Ahead s v

/-! ### A task that does not move holds nothing -/

theorem Held.of_idle {s : State} {own : ℕ} {w : Await} (hsound : w.Sound)
    (hidle : w.moving s.lifecycleGeneration own = false) : Held s own w := by
  simp only [Await.moving, Bool.or_eq_false_iff] at hidle
  rcases hidle with ⟨hswapping, hresolves⟩
  cases w with
  | startup w =>
      refine ⟨by simp [Await.versions], ?_, by simp, ?_⟩
      · intro options hsaves
        cases w with
        | saveResolved saved =>
            cases hsaves
            cases hresolves
        | _ => cases hsaves
      · intro persisted hreads
        cases w with
        | manager =>
            have hover : own ≠ s.lifecycleGeneration := by simpa [Await.resolves] using hresolves
            simp [Await.reads, hover] at hreads
        | resolveAutoTag read =>
            have hover : own ≠ s.lifecycleGeneration := by simpa [Await.resolves] using hresolves
            simp [Await.reads, hover] at hreads
        | _ => cases hreads
  | apply w =>
      cases w with
      | pull | install | recreate | save => cases hswapping
      | _ =>
          exact ⟨by simp [Await.versions], by simp [Await.saves], by simp, by simp [Await.reads]⟩
  | check w =>
      cases w with
      | install => cases hswapping
      | _ =>
          exact ⟨by simp [Await.versions], by simp [Await.saves], by simp, by simp [Await.reads]⟩
  | dbExport w =>
      cases w with
      | save options => cases hsound
      | tick =>
          exact ⟨by simp [Await.versions], by simp [Await.saves], by simp, by simp [Await.reads]⟩
  | finished =>
      exact ⟨by simp [Await.versions], by simp [Await.saves], by simp, by simp [Await.reads]⟩

/-! ### Steps that leave the version alone -/

/-- Nothing that matters for the version has changed. -/
structure Quiet (s s' : State) : Prop where
  floor : s'.floor = s.floor
  generation : s'.lifecycleGeneration = s.lifecycleGeneration
  resolved : s'.resolvedAutoTag = s.resolvedAutoTag
  disk : s'.disk = s.disk

namespace Quiet

variable {s s' : State}

theorem refl (s : State) : Quiet s s :=
  ⟨rfl, rfl, rfl, rfl⟩

theorem storedTag (h : Quiet s s') : s'.storedTag = s.storedTag :=
  congrArg (fun d : Disk => d.stored.map Settings.resolvedImageTag) h.disk

theorem ahead (h : Quiet s s') {version : String} (hahead : Ahead s version) : Ahead s' version := by
  refine ⟨hahead.concrete, ?_⟩
  rw [h.storedTag, h.floor]
  exact hahead.stored

theorem reads (h : Quiet s s') (own : ℕ) (w : Await) : w.reads s' own = w.reads s own := by
  have hobjects : s'.settingsObjects = s.settingsObjects := congrArg Disk.objects h.disk
  unfold Await.reads
  rw [h.generation, hobjects]

theorem held (h : Quiet s s') {own : ℕ} {w : Await} (hheld : Held s own w) : Held s' own w := by
  refine ⟨fun v hv => h.ahead (hheld.versions v hv), ?_, ?_, ?_⟩
  · rw [h.resolved]
    exact hheld.saves
  · rw [h.resolved]
    exact hheld.pulls
  · rw [h.reads, h.storedTag]
    exact hheld.reads

theorem ordered (h : Quiet s s') (hordered : Ordered s) : Ordered s' := by
  refine ⟨?_, hordered.auto.of_disk h.disk, ?_, ?_⟩
  · rw [h.floor]
    exact hordered.floor
  · rw [h.storedTag]
    exact hordered.stored
  · rw [h.resolved]
    exact fun v hv => h.ahead (hordered.resolved v hv)

end Quiet

/-! ### Versions that follow -/

/-- What is newer than a version that may follow may follow as well. -/
theorem Ahead.newer {s : State} {version latest : String} (h : Ahead s version) (hs : Ordered s)
    (hconcrete : isConcreteSemver latest = true) (hnewer : 0 ≤ compareSemver latest version) :
    Ahead s latest := by
  refine ⟨hconcrete, fun v hv => ?_⟩
  rcases h.stored v hv with hstored | hfloor
  · exact Or.inl (compareSemver_trans hconcrete h.concrete (hs.stored v hv) hnewer hstored)
  · exact Or.inr hfloor

/-- The version that has just been saved follows itself. -/
theorem Ahead.of_stored {s : State} {version : String} (hconcrete : isConcreteSemver version = true)
    (hstored : s.storedTag = some version) : Ahead s version := by
  refine ⟨hconcrete, fun v hv => ?_⟩
  rw [hstored] at hv
  cases hv
  exact Or.inl (compareSemver_self version).ge

/-- Nothing is stored between the two states, and the floor is the same. -/
theorem Ahead.of_same {s s' : State} {version : String} (h : Ahead s version)
    (hstored : s'.stored = s.stored) (hfloor : s'.floor = s.floor) : Ahead s' version := by
  refine ⟨h.concrete, ?_⟩
  rw [hfloor, show s'.storedTag = s.storedTag from congrArg (Option.map _) hstored]
  exact h.stored

/-- "auto" runs on the version that has been published. -/
theorem Ordered.resolveTag {s : State} {version : String} (h : Ordered s)
    (hversion : s.resolvedAutoTag = some version) : s.resolveTag "auto" = version := by
  have hconcrete := (h.resolved version hversion).concrete
  simp [State.resolveTag, resolveImageTag, hversion, hconcrete]

/-- A startup that has read the stored version resolves to one that may follow. -/
theorem Ordered.resolve {s : State} (h : Ordered s) {persisted : String}
    (hread : persisted = s.storedTag.getD "") (lookup : Lookup) :
    Ahead s (resolveAutoTag persisted s.floor lookup) := by
  refine ⟨(resolveAutoTag_concrete lookup h.floor).1, fun v hv => ?_⟩
  have hpersisted : persisted = v := by
    rw [hread, hv]
    rfl
  subst hpersisted
  rcases compareSemver_total (h.stored _ hv) h.floor with hnewer | hover
  · rw [resolveAutoTag_kept lookup ⟨h.stored _ hv, hnewer⟩]
    exact Or.inl (compareSemver_self persisted).ge
  · exact Or.inr hover

/-! ## Steps -/

/-- What a step of one task keeps: for itself, and for the others unless it moves the version. -/
structure Turn (s : State) (own : ℕ) (w : Await) (a : Settle) (r : State × Await) : Prop where
  resolved : ∀ v ∈ r.1.resolvedAutoTag, Ahead r.1 v
  held : Held r.1 own r.2
  others : w.moving s.lifecycleGeneration own = true ∨ w.begins s own a ∨ Quiet s r.1
  moving : r.2.moving s.lifecycleGeneration own = true →
    w.moving s.lifecycleGeneration own = true ∨ w.begins s own a

variable {s : State} {own : ℕ} {a : Settle}

/-- The task stops moving, or has not moved. -/
theorem Turn.of_idle {w : Await} {r : State × Await} (hordered : Ordered s) (hquiet : Quiet s r.1)
    (hsound : r.2.Sound) (hidle : r.2.moving s.lifecycleGeneration own = false) :
    Turn s own w a r := by
  refine ⟨(hquiet.ordered hordered).resolved, .of_idle hsound ?_, Or.inr (Or.inr hquiet), ?_⟩
  · rw [hquiet.generation]
    exact hidle
  · intro hmoving
    cases hmoving.symm.trans hidle

/-- The task moves the version. -/
theorem Turn.of_moving {w : Await} {r : State × Await}
    (hmoving : w.moving s.lifecycleGeneration own = true ∨ w.begins s own a)
    (hresolved : ∀ v ∈ r.1.resolvedAutoTag, Ahead r.1 v) (hheld : Held r.1 own r.2) :
    Turn s own w a r :=
  ⟨hresolved, hheld, hmoving.elim Or.inl fun hbegins => Or.inr (Or.inl hbegins),
    fun _ => hmoving⟩

namespace State

theorem startSignalKEmitter_quiet (s : State) (url : String) (emit : Bool) :
    Quiet s (s.startSignalKEmitter url emit) := by
  unfold startSignalKEmitter
  split
  · exact .refl s
  · exact ⟨rfl, rfl, rfl, rfl⟩

theorem scheduleServerUpdate_quiet (s : State) (gen delayMs : ℕ) :
    Quiet s (s.scheduleServerUpdate gen delayMs) := by
  unfold scheduleServerUpdate
  split <;> exact ⟨rfl, rfl, rfl, rfl⟩

theorem startDbExportTimer_quiet (s : State) : Quiet s s.startDbExportTimer := by
  unfold startDbExportTimer
  split
  case h_1 =>
      exact ⟨rfl, rfl, rfl, rfl⟩
  case h_2 =>
      dsimp only
      split <;> exact ⟨rfl, rfl, rfl, rfl⟩

theorem adoptServerAddress_quiet (s : State) (address : String) :
    Quiet s (s.adoptServerAddress address) := by
  rcases s.adoptServerAddress_fields address with ⟨_, _, _, _, _, heq⟩
  rw [heq]
  exact ⟨rfl, rfl, rfl, rfl⟩

theorem finishExternal_quiet (s : State) (gen : ℕ) (url : String) :
    Quiet s (s.finishExternal gen url) := by
  unfold finishExternal
  split
  case isTrue =>
      exact .refl s
  case isFalse =>
      have hemitter := (s.newClient url).startSignalKEmitter_quiet url
        (s.settingsObjects gen).emitSignalKDeltas
      exact ⟨hemitter.floor, hemitter.generation, hemitter.resolved, hemitter.disk⟩

end State

theorem Quiet.trans {s t u : State} (h : Quiet s t) (h' : Quiet t u) : Quiet s u :=
  ⟨h'.floor.trans h.floor, h'.generation.trans h.generation, h'.resolved.trans h.resolved,
    h'.disk.trans h.disk⟩

theorem State.finishStartup_quiet (s : State) (gen : ℕ) (address : String) :
    Quiet s (s.finishStartup gen address) := by
  unfold State.finishStartup
  split
  case isTrue =>
      exact .refl s
  case isFalse =>
      have hemitter := (s.newClient address).startSignalKEmitter_quiet address
        (s.settingsObjects gen).emitSignalKDeltas
      have htimers := (hemitter.trans (State.startDbExportTimer_quiet _)).trans
        (State.scheduleServerUpdate_quiet _ gen SERVER_UPDATE_FIRST_CHECK_MS)
      exact ⟨htimers.floor, htimers.generation, htimers.resolved, htimers.disk⟩

/-! ### The startup -/

theorem persistResolvedTag_resolvedAutoTag {s' : State} {tag : String} {gen : ℕ}
    {options : Settings} (h : s.persistResolvedTag tag gen = some (s', options)) :
    s'.resolvedAutoTag = s.resolvedAutoTag := by
  rw [(State.callSave_eq_some (State.persistResolvedTag_cases h).2).2]
  unfold State.modifySettings
  split <;> rfl

/-- The save of a moving task succeeds: what is stored is what has been published. -/
theorem Turn.of_saved {w : Await} {r : State × Await} {options : Settings} (hordered : Ordered s)
    (hheld : Held s own w) (hsaves : w.saves = some options)
    (hmoving : w.moving s.lifecycleGeneration own = true)
    (hstored : r.1.stored = some options) (hresolved : r.1.resolvedAutoTag = s.resolvedAutoTag)
    (hgeneration : r.1.lifecycleGeneration = s.lifecycleGeneration) (hsound : r.2.Sound)
    (hidle : r.2.moving s.lifecycleGeneration own = false) : Turn s own w a r := by
  have hpublished := hheld.saves options hsaves
  have htag : r.1.storedTag = some options.resolvedImageTag :=
    congrArg (Option.map Settings.resolvedImageTag) hstored
  refine .of_moving (Or.inl hmoving) (fun v hv => ?_) (.of_idle hsound ?_)
  · rw [hresolved, hpublished] at hv
    cases hv
    exact .of_stored (hordered.resolved _ hpublished).concrete htag
  · rw [hgeneration]
    exact hidle

theorem StartupStep.turn {w : StartupAwait} {r : State × Await} (h : StartupStep s own w a r)
    (hordered : Ordered s) (hheld : Held s own (.startup w)) : Turn s own (.startup w) a r := by
  cases h with
  | external url =>
      exact .of_idle hordered (s.finishExternal_quiet own url) trivial rfl
  | manager hgen =>
      have hmoving : Await.moving s.lifecycleGeneration own (.startup .manager) = true := by
        simp [Await.moving, Await.swapping, Await.resolves, hgen]
      refine .of_moving (Or.inl hmoving) hordered.resolved
        ⟨by simp [Await.versions], by simp [Await.saves], by simp, ?_⟩
      -- what it has read is what is in its settings
      exact hheld.reads
  | @resolved persisted lookup tag hgen htag =>
      have hread : persisted = s.storedTag.getD "" :=
        hheld.reads persisted (by simp [Await.reads, hgen])
      have hahead := hordered.resolve hread lookup
      have hmoving : Await.moving s.lifecycleGeneration own (.startup (.resolveAutoTag persisted)) =
          true := by
        simp [Await.moving, Await.swapping, Await.resolves, hgen]
      refine .of_moving (Or.inl hmoving) ?_ (.of_idle trivial rfl)
      rintro v hv
      cases hv
      rw [htag]
      exact hahead.of_same rfl rfl
  | @resolvedSaving persisted lookup tag s' options hgen htag hsave =>
      have hread : persisted = s.storedTag.getD "" :=
        hheld.reads persisted (by simp [Await.reads, hgen])
      have hahead := hordered.resolve hread lookup
      have hmoving : Await.moving s.lifecycleGeneration own (.startup (.resolveAutoTag persisted)) =
          true := by
        simp [Await.moving, Await.swapping, Await.resolves, hgen]
      have hsaving := State.persistResolvedTag_saving
        (s := { s with resolvedAutoTag := some tag }) hordered.auto hsave
      have hpublished : s'.resolvedAutoTag = some tag := persistResolvedTag_resolvedAutoTag hsave
      have hfloor : s'.floor = s.floor := (State.persistResolvedTag_calm hsave).floor
      refine .of_moving (Or.inl hmoving) ?_
        ⟨by simp [Await.versions], ?_, by simp, by simp [Await.reads]⟩
      · rintro v hv
        rw [hpublished] at hv
        cases hv
        rw [htag]
        exact hahead.of_same hsaving.stored hfloor
      · rintro saved hsaved
        cases hsaved
        rw [hpublished, hsaving.version]
  | saved options =>
      cases options with
      | none =>
          exact .of_idle hordered ⟨rfl, rfl, rfl, rfl⟩ trivial rfl
      | some options =>
          exact .of_saved hordered hheld rfl rfl rfl rfl rfl trivial rfl
  | container image address hgen =>
      have hquiet := State.finishStartup_quiet
        { s with container := some image, containerAddress := some address } own address
      exact .of_idle hordered ⟨hquiet.floor, hquiet.generation, hquiet.resolved, hquiet.disk⟩
        trivial rfl
  | _ =>
      exact .of_idle hordered ⟨rfl, rfl, rfl, rfl⟩ trivial rfl

/-! ### An install -/

/-- `Held`, for an install inside a task. -/
structure InstallHeld (s : State) (i : Install) (w : InstallAwait) : Prop where
  target : Ahead s i.target
  previous : Ahead s i.previous
  saves : ∀ options ∈ w.saves, s.resolvedAutoTag = some options.resolvedImageTag

theorem InstallHeld.inApply {i : Install} {w : InstallAwait} (h : InstallHeld s i w) :
    Held s own (.apply (.install i w)) := by
  refine ⟨?_, h.saves, by simp, by simp [Await.reads]⟩
  intro v hv
  rcases List.mem_pair.1 hv with rfl | rfl
  · exact h.target
  · exact h.previous

theorem InstallHeld.inCheck {i : Install} {w : InstallAwait} (h : InstallHeld s i w) :
    Held s own (.check (.install i w)) :=
  have hversions : Held s own (.apply (.install i w)) := h.inApply
  ⟨hversions.versions, h.saves, by simp, by simp [Await.reads]⟩

theorem InstallHeld.of_apply {i : Install} {w : InstallAwait}
    (h : Held s own (.apply (.install i w))) : InstallHeld s i w :=
  ⟨h.versions i.target (by simp [Await.versions]), h.versions i.previous (by simp [Await.versions]),
    h.saves⟩

theorem InstallHeld.of_check {i : Install} {w : InstallAwait}
    (h : Held s own (.check (.install i w))) : InstallHeld s i w :=
  ⟨h.versions i.target (by simp [Await.versions]), h.versions i.previous (by simp [Await.versions]),
    h.saves⟩

/-- An install that goes on holds its versions; one that is over holds nothing. -/
def Next.Held (s : State) (i : Install) : Next → Prop
  | .await w => InstallHeld s i w
  | .done _ => True

/-- `Turn`, for an install inside a task. -/
structure InstallTurn (i : Install) (r : State × Next) : Prop where
  resolved : ∀ v ∈ r.1.resolvedAutoTag, Ahead r.1 v
  held : r.2.Held r.1 i

theorem InstallTurn.inApply {i : Install} {w : Await} {r : State × Next} (h : InstallTurn i r)
    (hmoving : w.moving s.lifecycleGeneration own = true ∨ w.begins s own a) :
    Turn s own w a (State.inApply i r) := by
  rcases r with ⟨s', w' | result⟩
  · exact .of_moving hmoving h.resolved (InstallHeld.inApply h.held)
  · cases result <;> exact .of_moving hmoving h.resolved (.of_idle trivial rfl)

theorem InstallTurn.inCheck {i : Install} {w : Await} {r : State × Next} (h : InstallTurn i r)
    (hmoving : w.moving s.lifecycleGeneration own = true ∨ w.begins s own a) :
    Turn s own w a (State.inCheck i r) := by
  rcases r with ⟨s', w' | result⟩
  · exact .of_moving hmoving h.resolved (InstallHeld.inCheck h.held)
  · exact .of_moving hmoving h.resolved (.of_idle trivial rfl)

/-- An install goes on, or is over, and nothing is published or saved. -/
theorem InstallTurn.of_quiet {i : Install} {w : InstallAwait} {r : State × Next}
    (hordered : Ordered s) (hheld : InstallHeld s i w) (hquiet : Quiet s r.1)
    (hsaves : ∀ w', r.2 = .await w' → w'.saves = none) : InstallTurn i r := by
  refine ⟨(hquiet.ordered hordered).resolved, ?_⟩
  rcases r with ⟨s', w' | result⟩
  · refine ⟨hquiet.ahead hheld.target, hquiet.ahead hheld.previous, ?_⟩
    rw [hsaves w' rfl]
    exact nofun
  · trivial

/-- The swap back goes to the version that ran before. -/
theorem swapFailed_turn {i : Install} {w : InstallAwait} (hordered : Ordered s)
    (hheld : InstallHeld s i w) (swap : Swap) : InstallTurn i (s.swapFailed i swap) := by
  rcases s.swapFailed_cases i swap with heq | ⟨_, _, heq⟩
  · rw [heq]
    exact .of_quiet hordered hheld ⟨rfl, rfl, rfl, rfl⟩ nofun
  · rw [heq]
    refine ⟨fun v hv => ?_, hheld.target.of_same rfl rfl, hheld.previous.of_same rfl rfl, nofun⟩
    cases hv
    exact hheld.previous.of_same rfl rfl

theorem persistAppliedTag_resolvedAutoTag {s' : State} {requestedTag resolvedTag : String}
    {options : Settings} (h : s.persistAppliedTag requestedTag resolvedTag = some (s', options)) :
    s'.resolvedAutoTag = some resolvedTag := by
  rw [(State.callSave_eq_some h).2]

/-- `persistAppliedTag` publishes the version, and saves what it has published. -/
theorem persistAppliedTag_publishes {s' : State} {version : String} {options : Settings}
    (hordered : Ordered s) (hahead : Ahead s version)
    (h : s.persistAppliedTag "auto" version = some (s', options)) :
    (∀ {v : String}, Ahead s v → Ahead s' v) ∧ (∀ v ∈ s'.resolvedAutoTag, Ahead s' v) ∧
      s'.resolvedAutoTag = some options.resolvedImageTag := by
  have hsaving := State.persistAppliedTag_saving hordered.auto h
  have hpublished := persistAppliedTag_resolvedAutoTag h
  have hfloor : s'.floor = s.floor := (State.persistAppliedTag_calm h).floor
  refine ⟨fun hv => hv.of_same hsaving.stored hfloor, fun v hv => ?_, ?_⟩
  · rw [hpublished] at hv
    cases hv
    exact hahead.of_same hsaving.stored hfloor
  · rw [hpublished, hsaving.version]

theorem InstallStep.turn {i : Install} {w : InstallAwait} {r : State × Next}
    (h : InstallStep s i w a r) (hordered : Ordered s) (hheld : InstallHeld s i w) :
    InstallTurn i r := by
  cases h with
  | recreateFailed swap image container =>
      have hquiet : Quiet s { s with container } := ⟨rfl, rfl, rfl, rfl⟩
      have hheld' : InstallHeld { s with container } i (.recreate swap image) :=
        ⟨hquiet.ahead hheld.target, hquiet.ahead hheld.previous, nofun⟩
      exact swapFailed_turn (hquiet.ordered hordered) hheld' swap
  | notLocated swap _ =>
      exact swapFailed_turn hordered hheld swap
  | noAnswer swap addr =>
      exact swapFailed_turn hordered hheld swap
  | answered swap addr =>
      exact .of_quiet hordered hheld (s.adoptServerAddress_quiet _) (by rintro _ ⟨⟩; rfl)
  | up =>
      rcases s.installed_cases i with ⟨_, heq⟩ | ⟨s', options, hsave, heq⟩
      · rw [heq]
        exact .of_quiet hordered hheld ⟨rfl, rfl, rfl, rfl⟩ nofun
      · rw [heq]
        rcases persistAppliedTag_publishes hordered hheld.target hsave with
          ⟨hahead, hresolved, hpublished⟩
        refine ⟨hresolved, hahead hheld.target, hahead hheld.previous, ?_⟩
        rintro saved hsaved
        cases hsaved
        exact hpublished
  | saved options =>
      have hpublished := hheld.saves options rfl
      refine ⟨fun v hv => ?_, trivial⟩
      have hv' : s.resolvedAutoTag = some v := hv
      rw [hpublished] at hv'
      cases hv'
      exact .of_stored (hordered.resolved _ hpublished).concrete rfl
  | back =>
      exact .of_quiet hordered hheld ⟨rfl, rfl, rfl, rfl⟩ nofun
  | saveFailed options =>
      exact .of_quiet hordered hheld (.refl s) nofun
  | _ =>
      exact .of_quiet hordered hheld ⟨rfl, rfl, rfl, rfl⟩ (by rintro _ ⟨⟩; rfl)

/-- The install begins: what it goes back to is what runs now. -/
theorem installServerRelease_turn {target running : String} {gen : ℕ} {i : Install}
    {r : State × Next} (hordered : Ordered s) (hgen : gen = s.lifecycleGeneration)
    (hrunning : s.resolvedAutoTag = some running) (htarget : Ahead s target)
    (h : s.installServerRelease target gen = (i, r)) : InstallTurn i r := by
  subst hgen
  rw [State.installServerRelease_current, hrunning] at h
  cases h
  refine ⟨fun v hv => ?_, htarget.of_same rfl rfl,
    (hordered.resolved running hrunning).of_same rfl rfl, nofun⟩
  cases hv
  exact htarget.of_same rfl rfl

/-! ### The updates -/

theorem ApplyStep.turn {w : ApplyAwait} {r : State × Await} (h : ApplyStep s w a r)
    (hordered : Ordered s) (hsound : (Await.apply w).Sound) (hheld : Held s own (.apply w))
    (hresult : r.2.Sound) (hnewer : a.Newer (s.resolveTag "auto"))
    (hruns : (Await.apply w).chooses s.lifecycleGeneration own a = true → s.resolvedAutoTag.isSome = true) :
    Turn s own (.apply w) a r := by
  cases h with
  | noUpdate check manager =>
      rcases Option.isSome_iff_exists.1 (hruns rfl) with ⟨running, hrunning⟩
      have happlied : Held s own (.apply (.recreate "auto" (s.resolveTag "auto"))) := by
        refine ⟨fun v hv => ?_, by simp [Await.saves], by simp, by simp [Await.reads]⟩
        -- "auto" is applied again on what runs
        rw [List.mem_singleton.1 hv, hordered.resolveTag hrunning]
        exact hordered.resolved running hrunning
      exact .of_moving (Or.inr ⟨rfl, Or.inl rfl⟩) hordered.resolved happlied
  | @update latest check manager hlatest =>
      rcases Option.isSome_iff_exists.1 (hruns rfl) with ⟨running, hrunning⟩
      have hreported := hnewer latest hlatest
      rw [hordered.resolveTag hrunning] at hreported
      have hahead := (hordered.resolved running hrunning).newer hordered
        (concreteUpdate_concrete hlatest) hreported.le
      refine .of_moving (Or.inr ⟨rfl, Or.inl rfl⟩) hordered.resolved
        ⟨?_, by simp [Await.saves], fun _ _ => hruns rfl, by simp [Await.reads]⟩
      intro v hv
      rw [List.mem_singleton.1 hv]
      exact hahead
  | @pulled latest i next hinstall =>
      rcases Option.isSome_iff_exists.1 (hheld.pulls latest rfl) with ⟨running, hrunning⟩
      exact (installServerRelease_turn hordered rfl hrunning
        (hheld.versions latest (by simp [Await.versions])) hinstall).inApply (Or.inl rfl)
  | install hstep =>
      exact (hstep.turn hordered (.of_apply hheld)).inApply (Or.inl rfl)
  | @recreatedSaving requested image s' options hsave =>
      rcases hsound with ⟨rfl, _⟩
      have hquiet : Quiet s { s with container := some image } := ⟨rfl, rfl, rfl, rfl⟩
      have hahead := hquiet.ahead (hheld.versions image (by simp [Await.versions]))
      rcases persistAppliedTag_publishes (hquiet.ordered hordered) hahead hsave with
        ⟨_, hresolved, hpublished⟩
      refine .of_moving (Or.inl rfl) hresolved
        ⟨by simp [Await.versions], ?_, by simp, by simp [Await.reads]⟩
      rintro saved hsaved
      cases hsaved
      exact hpublished
  | saved image options =>
      exact .of_saved hordered hheld rfl rfl rfl rfl rfl trivial rfl
  | located image addr saveFailed =>
      exact .of_idle hordered (s.adoptServerAddress_quiet _) trivial rfl
  | scheduled tag _ =>
      exact .of_idle hordered (s.scheduleServerUpdate_quiet _ _) trivial rfl
  | _ =>
      exact .of_idle hordered ⟨rfl, rfl, rfl, rfl⟩ hresult rfl

theorem CheckStep.turn {w : CheckAwait} {r : State × Await} (h : CheckStep s own w a r)
    (hordered : Ordered s) (hheld : Held s own (.check w)) (hresult : r.2.Sound) :
    Turn s own (.check w) a r := by
  cases h with
  | @installs target current i next hwanted hbusy hcurrent hpick hinstall =>
      -- the check has compared the release with the version that runs
      have hpicked := pickServerUpdate_eq_some.1 hpick
      have hfree : s.serverInstalling = false := (Bool.or_eq_false_iff.1 hbusy).1
      have hquiet : Quiet s { s with serverInstalling := true } := ⟨rfl, rfl, rfl, rfl⟩
      have hahead := (hordered.resolved current hcurrent).newer hordered hpicked.2.1
        hpicked.2.2.2.2.1.le
      have hgen := State.wanted_generation hwanted
      exact (installServerRelease_turn (hquiet.ordered hordered) hgen hcurrent
        (hquiet.ahead hahead) hinstall).inCheck (Or.inr ⟨beq_iff_eq.2 hgen, Or.inr hfree⟩)
  | install hstep =>
      exact (hstep.turn hordered (.of_check hheld)).inCheck (Or.inl rfl)
  | scheduled nextMs _ =>
      exact .of_idle hordered (s.scheduleServerUpdate_quiet _ _) trivial rfl
  | _ =>
      exact .of_idle hordered ⟨rfl, rfl, rfl, rfl⟩ hresult rfl

theorem TaskStep.turn {w : Await} {r : State × Await} (h : TaskStep s own w a r)
    (hordered : Ordered s) (hsound : w.Sound) (hheld : Held s own w) (hresult : r.2.Sound)
    (hnewer : a.Newer (s.resolveTag "auto"))
    (hruns : w.chooses s.lifecycleGeneration own a = true → s.resolvedAutoTag.isSome = true) :
    Turn s own w a r := by
  cases h with
  | startup h =>
      exact h.turn hordered hheld
  | apply h =>
      exact h.turn hordered hsound hheld hresult hnewer hruns
  | check h =>
      exact h.turn hordered hheld hresult
  | dbExport h =>
      cases h with
      | exported =>
          exact .of_idle hordered (.refl s) trivial rfl
      | _ => cases hsound

/-! ## One at a time -/

def Task.moving (current : ℕ) (t : Task) : Bool :=
  t.await.moving current t.gen

/-- Startups and updates do not overlap: `start()` comes while no update swaps and no save is out,
and an update chooses its version when "auto" is resolved and no startup is about to resolve it. -/
def System.Apart (p : System) : Action → Prop
  | .start _ => ∀ t ∈ p.tasks, t.await.swapping = false ∧ t.await.saves = none
  | .settle i a => ∀ t ∈ p.tasks[i]?,
      t.await.chooses p.state.lifecycleGeneration t.gen a = true →
        p.state.resolvedAutoTag.isSome = true ∧
          ∀ u ∈ p.tasks, u.await.resolves p.state.lifecycleGeneration u.gen = false
  | _ => True

instance (p : System) (a : Action) : Decidable (p.Apart a) :=
  match a with
  | .start _ => inferInstanceAs (Decidable (∀ t ∈ p.tasks, _ ∧ _))
  | .settle i a => inferInstanceAs (Decidable (∀ t ∈ p.tasks[i]?,
      t.await.chooses p.state.lifecycleGeneration t.gen a = true →
        p.state.resolvedAutoTag.isSome = true ∧
          ∀ u ∈ p.tasks, u.await.resolves p.state.lifecycleGeneration u.gen = false))
  | .stop | .apply _ _ _ | .timer | .dbExport _ | .backup | .exportTick | .hostRestore _ =>
      inferInstanceAs (Decidable True)

/-- At most one task moves the version, and each holds what it needs. -/
structure OneMover (p : System) : Prop where
  past : ∀ t ∈ p.tasks, t.gen ≤ p.state.lifecycleGeneration
  resolved : ∀ v ∈ p.state.resolvedAutoTag, Ahead p.state v
  alone : Exclusive (Task.moving p.state.lifecycleGeneration) true p.tasks
  held : ∀ t ∈ p.tasks, Held p.state t.gen t.await

theorem Await.updating_of_swapping {w : Await} (h : w.swapping = true) : w.updating = true := by
  cases w with
  | apply w =>
      cases w with
      | returned result => cases h
      | _ =>
          rfl
  | check w =>
      cases w with
      | install i w =>
          rfl
      | _ => cases h
  | _ => cases h

theorem Await.not_swapping_of_chooses {current own : ℕ} {w : Await} {a : Settle}
    (h : w.chooses current own a = true) :
    w.swapping = false := by
  unfold Await.chooses at h
  split at h
  case h_1 =>
      rfl
  case h_2 =>
      rfl
  case h_3 =>
      cases h

/-- Where an update begins apart from the startups, no task moves the version. -/
theorem still_of_begins {p : System} {i : ℕ} {t : Task} (hone : OneUpdate p)
    (hapart : p.Apart (.settle i a)) (ht : p.tasks[i]? = some t)
    (hbegins : t.await.begins p.state t.gen a) (j : ℕ) (u : Task) (hu : p.tasks[j]? = some u) :
    u.moving p.state.lifecycleGeneration = false := by
  have hresolves := (hapart t ht hbegins.1).2 u (List.mem_of_getElem? hu)
  have hswapping : u.await.swapping = false := by
    by_contra hswaps
    rw [Bool.not_eq_false] at hswaps
    have hupdating : u.updating = true := Await.updating_of_swapping hswaps
    rcases hbegins.2 with hholds | hfree
    · -- the task that chooses holds the slot, and does not swap yet
      cases (hone i t ht hholds).2 j u hu hupdating
      cases ht.symm.trans hu
      cases (Await.not_swapping_of_chooses hbegins.1).symm.trans hswaps
    · cases (hone.free hfree hu).symm.trans hupdating
  simp [Task.moving, Await.moving, hswapping, hresolves]

theorem oneMover_settle {p p' : System} {i : ℕ} {t : Task} {r : State × Await} (h : OneMover p)
    (hone : OneUpdate p) (hsound : ∀ t ∈ p.tasks, t.await.Sound)
    (hapart : p.Apart (.settle i a)) (ht : p.tasks[i]? = some t)
    (hgeneration : r.1.lifecycleGeneration = p.state.lifecycleGeneration)
    (hturn : Turn p.state t.gen t.await a r)
    (hp' : p' = { state := r.1, tasks := p.tasks.set i { t with await := r.2 } }) : OneMover p' := by
  subst hp'
  have hmem := List.mem_of_getElem? ht
  -- the others hold what they held, or nothing
  have hothers : Quiet p.state r.1 ∨ ∀ (j : ℕ) (u : Task), p.tasks[j]? = some u → j ≠ i →
      u.moving p.state.lifecycleGeneration = false := by
    rcases hturn.others with hmoving | hbegins | hquiet
    · refine Or.inr fun j u hu hji => ?_
      by_contra hmoves
      rw [Bool.not_eq_false] at hmoves
      exact hji ((h.alone i t ht hmoving).2 j u hu hmoves)
    · exact Or.inr fun j u hu _ => still_of_begins hone hapart ht hbegins j u hu
    · exact Or.inl hquiet
  refine ⟨fun u hu => ?_, hturn.resolved, ?_, fun u hu => ?_⟩
  · show u.gen ≤ r.1.lifecycleGeneration
    rw [hgeneration]
    rcases List.mem_or_eq_of_mem_set hu with hold | rfl
    · exact h.past u hold
    · exact h.past t hmem
  · show Exclusive (Task.moving r.1.lifecycleGeneration) true _
    rw [hgeneration]
    by_cases hbegins : t.await.begins p.state t.gen a
    · have hfree : Exclusive (Task.moving p.state.lifecycleGeneration) false p.tasks :=
        .of_free (still_of_begins hone hapart ht hbegins)
      exact hfree.take rfl rfl
    · refine h.alone.set ht (fun hidle => ⟨?_, rfl⟩) fun _ _ => rfl
      by_contra hmoves
      rw [Bool.not_eq_false] at hmoves
      rcases hturn.moving hmoves with hmoving | hno
      · cases hidle.symm.trans hmoving
      · exact hbegins hno
  · rcases List.mem_iff_getElem?.1 hu with ⟨j, hj⟩
    rcases getElem?_set_cases hj with ⟨_, rfl⟩ | ⟨hji, hold⟩
    · exact hturn.held
    · have hsame := List.mem_of_getElem? hold
      rcases hothers with hquiet | hstill
      · exact hquiet.held (h.held u hsame)
      · refine .of_idle (hsound u hsame) ?_
        rw [hgeneration]
        exact hstill j u hold hji

/-! ### The other actions -/

theorem OneMover.of_quiet {p : System} {s : State} (h : OneMover p) (hquiet : Quiet p.state s) :
    OneMover { p with state := s } := by
  refine ⟨fun t ht => ?_, fun v hv => ?_, ?_, fun t ht => hquiet.held (h.held t ht)⟩
  · show t.gen ≤ s.lifecycleGeneration
    rw [hquiet.generation]
    exact h.past t ht
  · have hv' : v ∈ s.resolvedAutoTag := hv
    rw [hquiet.resolved] at hv'
    exact hquiet.ahead (h.resolved v hv')
  · show Exclusive (Task.moving s.lifecycleGeneration) true p.tasks
    rw [hquiet.generation]
    exact h.alone

/-- A new task that does not move the version. -/
theorem OneMover.begin {p : System} {gen : ℕ} {r : State × Await} (h : OneMover p)
    (hgen : gen ≤ p.state.lifecycleGeneration) (hquiet : Quiet p.state r.1) (hsound : r.2.Sound)
    (hidle : r.2.moving p.state.lifecycleGeneration gen = false) : OneMover (p.begin gen r) := by
  have hsteady := h.of_quiet hquiet
  refine ⟨fun t ht => ?_, hsteady.resolved, ?_, fun t ht => ?_⟩
  · rcases List.mem_append.1 ht with hold | hlast
    · exact hsteady.past t hold
    · rw [List.mem_singleton.1 hlast]
      show gen ≤ r.1.lifecycleGeneration
      rw [hquiet.generation]
      exact hgen
  · refine hsteady.alone.append_idle ?_
    show r.2.moving r.1.lifecycleGeneration gen = false
    rw [hquiet.generation]
    exact hidle
  · rcases List.mem_append.1 ht with hold | hlast
    · exact hsteady.held t hold
    · rw [List.mem_singleton.1 hlast]
      refine .of_idle hsound ?_
      show r.2.moving r.1.lifecycleGeneration gen = false
      rw [hquiet.generation]
      exact hidle

/-- A generation later, only what an update or a save holds is left. -/
theorem Await.moving_later {current own : ℕ} {w : Await} (hown : own ≤ current)
    (h : w.moving (current + 1) own = true) : w.moving current own = true := by
  rcases Bool.or_eq_true_iff.1 h with hswapping | hresolves
  · simp [Await.moving, hswapping]
  · cases w with
    | startup w =>
        cases w with
        | manager =>
            simp only [Await.resolves, beq_iff_eq] at hresolves
            omega
        | resolveAutoTag persisted =>
            simp only [Await.resolves, beq_iff_eq] at hresolves
            omega
        | saveResolved options =>
            cases options with
            | none => cases hresolves
            | some options =>
                rfl
        | _ => cases hresolves
    | _ => cases hresolves

theorem Await.not_moving_next {current own : ℕ} {w : Await} (hown : own ≤ current)
    (hswapping : w.swapping = false) (hsaves : w.saves = none) :
    w.moving (current + 1) own = false := by
  by_contra hmoves
  rw [Bool.not_eq_false] at hmoves
  rcases Bool.or_eq_true_iff.1 hmoves with hswaps | hresolves
  · cases hswapping.symm.trans hswaps
  · cases w with
    | startup w =>
        cases w with
        | manager =>
            simp only [Await.resolves, beq_iff_eq] at hresolves
            omega
        | resolveAutoTag persisted =>
            simp only [Await.resolves, beq_iff_eq] at hresolves
            omega
        | saveResolved options =>
            cases options with
            | none => cases hresolves
            | some options => cases hsaves
        | _ => cases hresolves
    | _ => cases hresolves

theorem oneMover_stop {p : System} (h : OneMover p) : OneMover { p with state := p.state.stop } := by
  have hahead : ∀ {v : String}, Ahead p.state v → Ahead p.state.stop v := fun hv => hv.of_same rfl rfl
  refine ⟨fun t ht => (h.past t ht).trans (Nat.le_succ _), fun v hv => hahead (h.resolved v hv), ?_,
    fun t ht => ?_⟩
  · exact h.alone.mono fun t ht hmoves => Await.moving_later (h.past t ht) hmoves
  · have hheld := h.held t ht
    refine ⟨fun v hv => hahead (hheld.versions v hv), hheld.saves, hheld.pulls, ?_⟩
    -- a startup of this generation is over
    intro persisted hreads
    have hover : t.gen ≠ p.state.stop.lifecycleGeneration := by
      have hpast := h.past t ht
      show t.gen ≠ p.state.lifecycleGeneration + 1
      omega
    unfold Await.reads at hreads
    split at hreads
    case h_1 =>
        rw [if_neg hover] at hreads
        cases hreads
    case h_2 =>
        rw [if_neg hover] at hreads
        cases hreads
    case h_3 =>
        cases hreads

theorem start_object (s : State) (config : PartialSettings) :
    (s.start config).settingsObjects (s.lifecycleGeneration + 1) = config.merged := by
  simp [State.start, State.stopServerUpdateTimer, State.uplinkStop]

/-- `start()`, under "auto" on a managed container: its startup waits for the container manager. -/
theorem start_auto (p : System) {config : PartialSettings}
    (hmanaged : config.managedContainer.getD true = true)
    (hauto : config.imageTag.getD "auto" = "auto") :
    p.start config =
      { p with state := p.state.start config }.begin (p.state.lifecycleGeneration + 1)
        (p.state.start config, .startup .manager) := by
  have hm : config.merged.managedContainer = true := hmanaged
  have ha : config.merged.imageTag = "auto" := hauto
  have hasync : (p.state.start config).asyncStart (p.state.lifecycleGeneration + 1) =
      (p.state.start config, .startup .manager) := by
    unfold State.asyncStart
    simp [start_object, hm, ha]
  show System.begin { p with state := p.state.start config } (p.state.lifecycleGeneration + 1)
    ((p.state.start config).asyncStart (p.state.lifecycleGeneration + 1)) = _
  rw [hasync]

/-- The new startup is to read what the server has passed to it. -/
theorem start_held {config : PartialSettings}
    (hreads : config.resolvedImageTag.getD "" = s.storedTag.getD "") :
    Held (s.start config) (s.lifecycleGeneration + 1) (.startup .manager) := by
  have hgen : s.lifecycleGeneration + 1 = (s.start config).lifecycleGeneration := rfl
  have hread : Await.reads (s.start config) (s.lifecycleGeneration + 1) (.startup .manager) =
      some config.merged.resolvedImageTag := by
    unfold Await.reads
    rw [if_pos hgen, start_object]
  refine ⟨by simp [Await.versions], by simp [Await.saves], by simp, fun persisted hpersisted => ?_⟩
  rw [hread] at hpersisted
  cases hpersisted
  exact hreads

theorem oneMover_start {p : System} {config : PartialSettings} (h : OneMover p)
    (hapart : p.Apart (.start config)) (hsound : ∀ t ∈ p.tasks, t.await.Sound)
    (hmanaged : config.managedContainer.getD true = true)
    (hauto : config.imageTag.getD "auto" = "auto")
    (hreads : config.resolvedImageTag.getD "" = p.state.storedTag.getD "") :
    OneMover (p.start config) := by
  rw [start_auto p hmanaged hauto]
  have hahead : ∀ {v : String}, Ahead p.state v → Ahead (p.state.start config) v :=
    fun hv => hv.of_same rfl rfl
  -- whoever was on the way is superseded
  have hstill : ∀ t ∈ p.tasks, t.moving (p.state.lifecycleGeneration + 1) = false := by
    intro t ht
    rcases hapart t ht with ⟨hswapping, hsaves⟩
    exact Await.not_moving_next (h.past t ht) hswapping hsaves
  refine ⟨fun t ht => ?_, fun v hv => hahead (h.resolved v hv), ?_, fun t ht => ?_⟩
  · rcases List.mem_append.1 ht with hold | hlast
    · exact (h.past t hold).trans (Nat.le_succ _)
    · rw [List.mem_singleton.1 hlast]
      exact le_rfl
  · have hfree : Exclusive (Task.moving (p.state.lifecycleGeneration + 1)) false p.tasks :=
      .of_free fun i t ht => hstill t (List.mem_of_getElem? ht)
    exact hfree.append rfl fun _ => rfl
  · rcases List.mem_append.1 ht with hold | hlast
    · exact .of_idle (hsound t hold) (hstill t hold)
    · rw [List.mem_singleton.1 hlast]
      exact start_held hreads

end Plugin
end SignalKBackup
