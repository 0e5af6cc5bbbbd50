import SignalKBackup.Plugin.Connected

/-!
# Versions — the versions on their way to the stored options

Under "auto" every version that is about to be installed or saved is concrete, and every save puts
"auto" back beside it.

* `Await.saves`: the options that the stored ones give way to when a save succeeds;
* `Await.Sound`: the versions an await carries are concrete;
* `TaskStep.sound`: a step carries on with concrete versions only.
-/

namespace SignalKBackup
namespace Plugin

open Lib
open Config

/-! ## Saves -/

def InstallAwait.saves : InstallAwait → Option Settings
  | .save options => some options
  | _ => none

/-- The options in flight, where the task waits for `savePluginOptions`. -/
def Await.saves : Await → Option Settings
  | .startup (.saveResolved options) => options
  | .apply (.save _ options) => some options
  | .apply (.install _ w) => w.saves
  | .check (.install _ w) => w.saves
  | .dbExport (.save options) => some options
  | _ => none

/-- The options that are stored now that this await has settled. -/
def Await.stores (w : Await) : Settle → Option Settings
  | .ok => w.saves
  | _ => none

theorem Await.stores_none {w : Await} (h : w.saves = none) (a : Settle) : w.stores a = none := by
  unfold Await.stores
  split
  case h_1 => exact h
  case h_2 => rfl

/-! ## What lies under the settings -/

/-- The settings objects, and the options on disk. -/
structure Disk where
  objects : ℕ → Settings
  stored : Option Settings

namespace State

def disk (s : State) : Disk :=
  { objects := s.settingsObjects, stored := s.stored }

@[simp] theorem startSignalKEmitter_disk (s : State) (url : String) (emit : Bool) :
    (s.startSignalKEmitter url emit).disk = s.disk := by
  unfold startSignalKEmitter
  split <;> rfl

@[simp] theorem scheduleServerUpdate_disk (s : State) (gen delayMs : ℕ) :
    (s.scheduleServerUpdate gen delayMs).disk = s.disk := by
  unfold scheduleServerUpdate
  split <;> rfl

@[simp] theorem startDbExportTimer_disk (s : State) : s.startDbExportTimer.disk = s.disk := by
  unfold startDbExportTimer
  split
  case h_1 =>
      rfl
  case h_2 =>
      dsimp only
      split <;> rfl

@[simp] theorem adoptServerAddress_disk (s : State) (address : String) :
    (s.adoptServerAddress address).disk = s.disk := by
  rcases s.adoptServerAddress_fields address with ⟨_, _, _, _, _, heq⟩
  rw [heq]
  rfl

@[simp] theorem swapFailed_disk (s : State) (i : Install) (swap : Swap) :
    (s.swapFailed i swap).1.disk = s.disk := by
  rcases s.swapFailed_cases i swap with heq | ⟨_, _, heq⟩
  · rw [heq]
    rfl
  · rw [heq]
    rfl

theorem finishExternal_disk (s : State) (gen : ℕ) (url : String) :
    (s.finishExternal gen url).disk = s.disk := by
  unfold finishExternal
  split
  case isTrue =>
      rfl
  case isFalse =>
      exact (s.newClient url).startSignalKEmitter_disk url _

theorem finishStartup_disk (s : State) (gen : ℕ) (address : String) :
    (s.finishStartup gen address).disk = s.disk := by
  unfold finishStartup
  split
  case isTrue =>
      rfl
  case isFalse =>
      have hscheduled := scheduleServerUpdate_disk
        ((s.newClient address).startSignalKEmitter address
          (s.settingsObjects gen).emitSignalKDeltas).startDbExportTimer gen
        SERVER_UPDATE_FIRST_CHECK_MS
      rw [startDbExportTimer_disk, startSignalKEmitter_disk] at hscheduled
      exact hscheduled

theorem asyncStart_disk (s : State) (gen : ℕ) : (s.asyncStart gen).1.disk = s.disk := by
  unfold asyncStart
  dsimp only
  split
  · split <;> rfl
  · split <;> rfl

/-- Every settings object is in "auto" mode. -/
def Auto (s : State) : Prop :=
  ∀ g, (s.settingsObjects g).imageTag = "auto"

variable {s s' : State}

theorem Auto.of_disk (h : s.Auto) (hdisk : s'.disk = s.disk) : s'.Auto := by
  intro g
  rw [show s'.settingsObjects = s.settingsObjects from congrArg Disk.objects hdisk]
  exact h g

theorem Auto.modifySettings (h : s.Auto) {f : Settings → Settings}
    (hf : ∀ c, c.imageTag = "auto" → (f c).imageTag = "auto") : (s.modifySettings f).Auto := by
  unfold State.modifySettings
  split
  case h_1 =>
      exact h
  case h_2 object hobject =>
      intro g
      simp only [Function.update_apply]
      split
      case isTrue =>
          exact hf _ (h object)
      case isFalse =>
          exact h g

/-! ## Saving a version -/

/-- A save of `version`: the settings stay in "auto" mode, and nothing is stored yet. -/
structure Saving (s s' : State) (options : Settings) (version : String) : Prop where
  auto : s'.Auto
  stored : s'.stored = s.stored
  version : options.resolvedImageTag = version

theorem modifySettings_stored (s : State) (f : Settings → Settings) :
    (s.modifySettings f).stored = s.stored := by
  unfold modifySettings
  split <;> rfl

theorem persistResolvedTag_saving {tag : String} {gen : ℕ} {options : Settings} (hauto : s.Auto)
    (h : s.persistResolvedTag tag gen = some (s', options)) : Saving s s' options tag := by
  rcases callSave_eq_some (persistResolvedTag_cases h).2 with ⟨hoptions, rfl⟩
  refine ⟨hauto.modifySettings fun c hc => hc, s.modifySettings_stored _, ?_⟩
  rw [modifySettings_settings, Option.map_eq_some_iff] at hoptions
  rcases hoptions with ⟨c, _, rfl⟩
  rfl

theorem persistAppliedTag_saving {tag : String} {options : Settings} (hauto : s.Auto)
    (h : s.persistAppliedTag "auto" tag = some (s', options)) : Saving s s' options tag := by
  cases hloaded : s.settings with
  | none =>
      rw [persistAppliedTag_eq_none.2 hloaded] at h
      cases h
  | some c =>
      rw [persistAppliedTag_loaded hloaded] at h
      cases h
      refine ⟨?_, s.modifySettings_stored _, rfl⟩
      have hwritten := hauto.modifySettings
        (f := fun c => { c with imageTag := "auto", resolvedImageTag := tag }) fun _ _ => rfl
      exact hwritten

end State

/-! ## The versions an await carries -/

def InstallAwait.Sound (i : Install) : InstallAwait → Prop
  | .save options =>
      isConcreteSemver i.target = true ∧ isConcreteSemver options.resolvedImageTag = true
  | _ => isConcreteSemver i.target = true

/-- The versions that are about to be run or saved are concrete, and an update names "auto". -/
def Await.Sound : Await → Prop
  | .startup (.saveResolved (some options)) => isConcreteSemver options.resolvedImageTag = true
  | .apply (.pull latest) => isConcreteSemver latest = true
  | .apply (.recreate requested image) => requested = "auto" ∧ isConcreteSemver image = true
  | .apply (.save _ options) => isConcreteSemver options.resolvedImageTag = true
  | .apply (.install i w) => w.Sound i
  | .check (.install i w) => w.Sound i
  | .dbExport (.save _) => False
  | _ => True

theorem Await.Sound.saves {w : Await} {options : Settings} (h : w.Sound)
    (hsaves : w.saves = some options) : isConcreteSemver options.resolvedImageTag = true := by
  have hinstall : ∀ (i : Install) (w : InstallAwait), w.Sound i → w.saves = some options →
      isConcreteSemver options.resolvedImageTag = true := by
    intro i w h hsaves
    cases w with
    | save options' =>
        cases hsaves
        exact h.2
    | _ => cases hsaves
  unfold Await.saves at hsaves
  split at hsaves
  case h_1 =>
      rw [hsaves] at h
      exact h
  case h_2 =>
      cases hsaves
      exact h
  case h_3 =>
      exact hinstall _ _ h hsaves
  case h_4 =>
      exact hinstall _ _ h hsaves
  case h_5 =>
      cases h
  case h_6 => cases hsaves

theorem resolveImageTag_auto {override : Option String} {floor : String}
    (hfloor : isConcreteSemver floor = true) :
    isConcreteSemver (resolveImageTag "auto" override floor) = true := by
  unfold resolveImageTag
  cases override with
  | none =>
      simpa using hfloor
  | some r =>
      cases hr : isConcreteSemver r with
      | true =>
          simp [hr]
      | false =>
          simpa [hr] using hfloor

theorem resolveAutoTag_concrete {persisted floor : String} (lookup : Lookup)
    (hfloor : isConcreteSemver floor = true) :
    isConcreteSemver (resolveAutoTag persisted floor lookup) = true ∧
      0 ≤ compareSemver (resolveAutoTag persisted floor lookup) floor := by
  by_cases hkept : Kept persisted floor
  · rw [resolveAutoTag_kept lookup hkept]
    exact hkept
  · rcases resolveAutoTag_cases lookup hfloor hkept with heq | ⟨latest, _, hconcrete, hnewer, heq⟩
    · rw [heq, compareSemver_self]
      exact ⟨hfloor, le_rfl⟩
    · rw [heq]
      exact ⟨hconcrete, hnewer.le⟩

/-! ## What a step does to them -/

/-- A step carries on with concrete versions, and stores what was in flight, if anything. -/
structure Carries (s : State) (w : Await) (a : Settle) (r : State × Await) : Prop where
  auto : r.1.Auto
  stored : r.1.stored = (w.stores a).or s.stored
  sound : r.2.Sound

/-- A step that leaves the disk alone. -/
theorem Carries.of_disk {s : State} {w : Await} {a : Settle} {r : State × Await} (hauto : s.Auto)
    (hdisk : r.1.disk = s.disk) (hstores : w.stores a = none) (hsound : r.2.Sound) :
    Carries s w a r := by
  refine ⟨hauto.of_disk hdisk, ?_, hsound⟩
  rw [hstores]
  exact congrArg Disk.stored hdisk

variable {s : State} {a : Settle}

theorem StartupStep.carries {gen : ℕ} {w : StartupAwait} {r : State × Await}
    (h : StartupStep s gen w a r) (hfloor : isConcreteSemver s.floor = true) (hauto : s.Auto) :
    Carries s (.startup w) a r := by
  cases h with
  | external url =>
      exact .of_disk hauto (s.finishExternal_disk gen url) rfl trivial
  | @superseded w a _ _ hsave =>
      refine .of_disk hauto rfl (Await.stores_none ?_ a) trivial
      cases w with
      | saveResolved options => exact absurd rfl (hsave options)
      | _ => rfl
  | resolvedSaving _ htag hsave =>
      have hsaving := State.persistResolvedTag_saving
        (s := { s with resolvedAutoTag := some _ }) hauto hsave
      refine ⟨hsaving.auto, hsaving.stored, ?_⟩
      show isConcreteSemver _ = true
      rw [hsaving.version, htag]
      exact (resolveAutoTag_concrete _ hfloor).1
  | saved options =>
      exact ⟨hauto, rfl, trivial⟩
  | container image address hgen =>
      have hdisk := State.finishStartup_disk
        { s with container := some image, containerAddress := some address } gen address
      exact .of_disk hauto hdisk rfl trivial
  | _ =>
      exact .of_disk hauto rfl rfl trivial

/-- The versions of an install that goes on. -/
def Next.Sound (i : Install) : Next → Prop
  | .await w => w.Sound i
  | .done _ => isConcreteSemver i.target = true

theorem inApply_sound {i : Install} {r : State × Next} (h : r.2.Sound i) :
    (State.inApply i r).2.Sound := by
  rcases r with ⟨s, w | result⟩
  · exact h
  · cases result <;> trivial

theorem inCheck_sound {i : Install} {r : State × Next} (h : r.2.Sound i) :
    (State.inCheck i r).2.Sound := by
  rcases r with ⟨s, w | result⟩
  · exact h
  · trivial

theorem swapFailed_sound {i : Install} (h : isConcreteSemver i.target = true) (s : State)
    (swap : Swap) : (s.swapFailed i swap).2.Sound i := by
  rcases s.swapFailed_cases i swap with heq | ⟨_, _, heq⟩
  · rw [heq]
    exact h
  · rw [heq]
    exact h

/-- What `Carries` says of a task, for an install inside one. -/
structure InstallCarries (s : State) (i : Install) (w : InstallAwait) (a : Settle)
    (r : State × Next) : Prop where
  auto : r.1.Auto
  stored : r.1.stored = (Await.stores (.apply (.install i w)) a).or s.stored
  sound : r.2.Sound i

theorem InstallCarries.of_disk {i : Install} {w : InstallAwait} {r : State × Next}
    (hauto : s.Auto) (hdisk : r.1.disk = s.disk)
    (hstores : Await.stores (.apply (.install i w)) a = none) (hsound : r.2.Sound i) :
    InstallCarries s i w a r := by
  refine ⟨hauto.of_disk hdisk, ?_, hsound⟩
  rw [hstores]
  exact congrArg Disk.stored hdisk

theorem InstallAwait.Sound.target {i : Install} {w : InstallAwait} (h : w.Sound i) :
    isConcreteSemver i.target = true := by
  cases w with
  | save options => exact h.1
  | _ => exact h

theorem InstallStep.carries {i : Install} {w : InstallAwait} {r : State × Next}
    (h : InstallStep s i w a r) (hauto : s.Auto) (hsound : w.Sound i) :
    InstallCarries s i w a r := by
  have htarget := hsound.target
  cases h with
  | recreateFailed swap image container =>
      have hdisk := State.swapFailed_disk { s with container } i swap
      exact .of_disk hauto hdisk rfl (swapFailed_sound htarget _ swap)
  | notLocated swap ha =>
      exact .of_disk hauto (s.swapFailed_disk i swap) (Await.stores_none rfl a)
        (swapFailed_sound htarget s swap)
  | answered swap addr =>
      exact .of_disk hauto (s.adoptServerAddress_disk _) rfl htarget
  | noAnswer swap addr =>
      exact .of_disk hauto (s.swapFailed_disk i swap) rfl (swapFailed_sound htarget s swap)
  | up =>
      rcases s.installed_cases i with ⟨_, heq⟩ | ⟨s', options, hsave, heq⟩
      · rw [heq]
        exact .of_disk hauto rfl rfl htarget
      · rw [heq]
        -- the target is saved as the resolved tag
        have hsaving := State.persistAppliedTag_saving hauto hsave
        refine ⟨hsaving.auto, hsaving.stored, htarget, ?_⟩
        rw [hsaving.version]
        exact htarget
  | saved options =>
      exact ⟨hauto, rfl, htarget⟩
  | _ =>
      exact .of_disk hauto rfl rfl htarget

theorem installServerRelease_sound {target : String} {gen : ℕ} {i : Install} {r : State × Next}
    (hgen : gen = s.lifecycleGeneration) (h : s.installServerRelease target gen = (i, r))
    (htarget : isConcreteSemver target = true) : r.1.disk = s.disk ∧ r.2.Sound i := by
  subst hgen
  rw [State.installServerRelease_current] at h
  cases h
  exact ⟨rfl, htarget⟩

theorem ApplyStep.carries {w : ApplyAwait} {r : State × Await} (h : ApplyStep s w a r)
    (hfloor : isConcreteSemver s.floor = true) (hauto : s.Auto) (hsound : (Await.apply w).Sound) :
    Carries s (.apply w) a r := by
  cases h with
  | noUpdate check manager =>
      exact .of_disk hauto rfl rfl ⟨rfl, resolveImageTag_auto hfloor⟩
  | update check manager hlatest =>
      exact .of_disk hauto rfl rfl (concreteUpdate_concrete hlatest)
  | error hgivesUp =>
      -- the awaits that give up are no saves
      refine .of_disk hauto rfl (Await.stores_none ?_ a) trivial
      cases w with
      | save image options => cases hgivesUp
      | install i w => cases hgivesUp
      | _ => rfl
  | pulled hinstall =>
      rcases installServerRelease_sound rfl hinstall hsound with ⟨hdisk, hnext⟩
      refine .of_disk hauto ?_ rfl (inApply_sound hnext)
      rw [inApply_state]
      exact hdisk
  | install hstep =>
      have hcarries := hstep.carries hauto hsound
      refine ⟨?_, ?_, inApply_sound hcarries.sound⟩
      · rw [inApply_state]
        exact hcarries.auto
      · rw [inApply_state]
        exact hcarries.stored
  | @recreatedSaving requested image s' options hsave =>
      rcases hsound with ⟨rfl, himage⟩
      have hsaving := State.persistAppliedTag_saving (s := { s with container := some image }) hauto hsave
      refine ⟨hsaving.auto, hsaving.stored, ?_⟩
      show isConcreteSemver options.resolvedImageTag = true
      rw [hsaving.version]
      exact himage
  | saved image options =>
      exact ⟨hauto, rfl, trivial⟩
  | located image addr saveFailed =>
      exact .of_disk hauto (s.adoptServerAddress_disk _) rfl trivial
  | scheduled tag _ =>
      exact .of_disk hauto (s.scheduleServerUpdate_disk _ _) rfl trivial
  | _ =>
      exact .of_disk hauto rfl rfl trivial

theorem CheckStep.carries {gen : ℕ} {w : CheckAwait} {r : State × Await} (h : CheckStep s gen w a r)
    (hauto : s.Auto) (hsound : (Await.check w).Sound) : Carries s (.check w) a r := by
  cases h with
  | done nextMs hsearching =>
      refine .of_disk hauto rfl (Await.stores_none ?_ a) trivial
      cases w with
      | install i w => cases hsearching
      | _ => rfl
  | installs hwanted _ _ hpick hinstall =>
      have htarget := (pickServerUpdate_eq_some.1 hpick).2.1
      rcases installServerRelease_sound (s := { s with serverInstalling := true })
        (State.wanted_generation hwanted) hinstall htarget with ⟨hdisk, hnext⟩
      refine .of_disk hauto ?_ rfl (inCheck_sound hnext)
      rw [inCheck_state]
      exact hdisk
  | install hstep =>
      have hcarries := hstep.carries hauto hsound
      refine ⟨?_, ?_, inCheck_sound hcarries.sound⟩
      · rw [inCheck_state]
        exact hcarries.auto
      · rw [inCheck_state]
        exact hcarries.stored
  | scheduled nextMs _ =>
      exact .of_disk hauto (s.scheduleServerUpdate_disk _ _) rfl trivial
  | _ =>
      exact .of_disk hauto rfl rfl trivial

theorem TaskStep.carries {gen : ℕ} {w : Await} {r : State × Await} (h : TaskStep s gen w a r)
    (hfloor : isConcreteSemver s.floor = true) (hauto : s.Auto) (hsound : w.Sound) :
    Carries s w a r := by
  cases h with
  | startup h =>
      exact h.carries hfloor hauto
  | apply h =>
      exact h.carries hfloor hauto hsound
  | check h =>
      exact h.carries hauto hsound
  | dbExport h =>
      cases h with
      | exported =>
          exact .of_disk hauto rfl rfl trivial
      | _ => cases hsound

end Plugin
end SignalKBackup
