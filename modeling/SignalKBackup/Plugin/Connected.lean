import SignalKBackup.Plugin.Updating

/-!
# Connected — the client, its address and the subscriber

The client is published at the end of a startup, and again by `adoptServerAddress` out of an update,
whichever lifecycle that update was begun in.

* `LinkStep`: what a step of a task does to the client, the address and the subscriber;
* `State.Same`: the settings objects stay, but for the fields that the plugin itself writes;
* `Connected`: at most one startup of the current lifecycle is under way, and none once the client is
  published.
-/

namespace SignalKBackup
namespace Plugin

open Lib
open Config

/-! ## What the tasks leave alone -/

/-- The fields of a settings object that only `start()` writes. -/
structure Frozen where
  managedContainer : Bool
  autoUpdateServer : Bool
  externalUrl : String
  emitSignalKDeltas : Bool
  deriving DecidableEq

def Settings.frozen (c : Settings) : Frozen :=
  { managedContainer := c.managedContainer
    autoUpdateServer := c.autoUpdateServer
    externalUrl := c.externalUrl
    emitSignalKDeltas := c.emitSignalKDeltas }

/-- The server the plugin is connected to, and the base URL of the subscriber. -/
structure Link where
  client : Option Client
  containerAddress : Option String
  emitter : Option String
  deriving DecidableEq

namespace State

def link (s : State) : Link :=
  { client := s.client, containerAddress := s.containerAddress, emitter := s.emitter }

/-- The same settings objects, up to the fields that the plugin writes itself. -/
structure Same (s s' : State) : Prop where
  floor : s'.floor = s.floor
  currentSettings : s'.currentSettings = s.currentSettings
  frozen : ∀ g, (s'.settingsObjects g).frozen = (s.settingsObjects g).frozen

/-- The connection stays as well. -/
structure Calm (s s' : State) : Prop extends Same s s' where
  link : s'.link = s.link

theorem Same.trans {s t u : State} (h : s.Same t) (h' : t.Same u) : s.Same u :=
  ⟨h'.floor.trans h.floor, h'.currentSettings.trans h.currentSettings,
    fun g => (h'.frozen g).trans (h.frozen g)⟩

theorem Same.managedContainer {s s' : State} (h : s.Same s') (g : ℕ) :
    (s'.settingsObjects g).managedContainer = (s.settingsObjects g).managedContainer :=
  congrArg Frozen.managedContainer (h.frozen g)

theorem Calm.refl (s : State) : s.Calm s :=
  ⟨⟨rfl, rfl, fun _ => rfl⟩, rfl⟩

theorem Calm.trans {s t u : State} (h : s.Calm t) (h' : t.Calm u) : s.Calm u :=
  ⟨h.toSame.trans h'.toSame, h'.link.trans h.link⟩

/-- Writes to the other variables. -/
theorem Calm.of_eq {s s' : State} (hfloor : s'.floor = s.floor)
    (hsettings : s'.currentSettings = s.currentSettings)
    (hobjects : s'.settingsObjects = s.settingsObjects) (hlink : s'.link = s.link) : s.Calm s' :=
  ⟨⟨hfloor, hsettings, fun g => by rw [hobjects]⟩, hlink⟩

variable {s s' : State}

theorem startSignalKEmitter_same (s : State) (url : String) (emit : Bool) :
    s.Same (s.startSignalKEmitter url emit) := by
  unfold startSignalKEmitter
  split <;> exact ⟨rfl, rfl, fun _ => rfl⟩

theorem adoptServerAddress_same (s : State) (address : String) :
    s.Same (s.adoptServerAddress address) := by
  rcases s.adoptServerAddress_fields address with ⟨_, _, _, _, _, heq⟩
  rw [heq]
  exact ⟨rfl, rfl, fun _ => rfl⟩

theorem scheduleServerUpdate_calm (s : State) (gen delayMs : ℕ) :
    s.Calm (s.scheduleServerUpdate gen delayMs) := by
  unfold scheduleServerUpdate
  split <;> exact .of_eq rfl rfl rfl rfl

theorem startDbExportTimer_calm (s : State) : s.Calm s.startDbExportTimer := by
  unfold startDbExportTimer
  split
  case h_1 =>
      exact .of_eq rfl rfl rfl rfl
  case h_2 =>
      dsimp only
      split <;> exact .of_eq rfl rfl rfl rfl

theorem modifySettings_calm (s : State) {f : Settings → Settings}
    (hf : ∀ c, (f c).frozen = c.frozen) : s.Calm (s.modifySettings f) := by
  unfold modifySettings
  split
  case h_1 =>
      exact .refl s
  case h_2 object hobject =>
      refine ⟨⟨rfl, rfl, fun g => ?_⟩, rfl⟩
      simp only [Function.update_apply]
      split
      case isTrue heq =>
          rw [heq]
          exact hf _
      case isFalse =>
          rfl

theorem callSave_calm {options : Settings} (h : s.callSave = some (s', options)) : s.Calm s' := by
  rw [(callSave_eq_some h).2]
  exact .of_eq rfl rfl rfl rfl

theorem persistAppliedTag_calm {requestedTag resolvedTag : String} {options : Settings}
    (h : s.persistAppliedTag requestedTag resolvedTag = some (s', options)) : s.Calm s' := by
  have hwritten := s.modifySettings_calm
    (f := fun c => { c with imageTag := requestedTag, resolvedImageTag := resolvedTag }) fun _ => rfl
  have hresolved : (s.modifySettings fun c =>
      { c with imageTag := requestedTag, resolvedImageTag := resolvedTag }).Calm
        { s.modifySettings fun c =>
            { c with imageTag := requestedTag, resolvedImageTag := resolvedTag } with
          resolvedAutoTag := some resolvedTag } := .of_eq rfl rfl rfl rfl
  exact hwritten.trans (hresolved.trans (callSave_calm h))

theorem persistResolvedTag_calm {tag : String} {gen : ℕ} {options : Settings}
    (h : s.persistResolvedTag tag gen = some (s', options)) : s.Calm s' :=
  (s.modifySettings_calm (f := fun c => { c with resolvedImageTag := tag }) fun _ => rfl).trans
    (callSave_calm (persistResolvedTag_cases h).2)

theorem setDbExport_calm {body : DbExportBody} {options : Settings}
    (h : s.setDbExport body = some (s', options)) : s.Calm s' := by
  unfold setDbExport at h
  split at h
  case isTrue =>
      cases h
  case isFalse =>
      exact (s.modifySettings_calm
        (f := fun c => { c with databaseExport := body.next c.databaseExport }) fun _ => rfl).trans
        (callSave_calm h)

theorem swapFailed_calm (s : State) (i : Install) (swap : Swap) : s.Calm (s.swapFailed i swap).1 := by
  rcases s.swapFailed_cases i swap with heq | ⟨_, _, heq⟩
  · rw [heq]
    exact .of_eq rfl rfl rfl rfl
  · rw [heq]
    exact .of_eq rfl rfl rfl rfl

theorem installServerRelease_calm {target : String} {gen : ℕ} {i : Install} {r : State × Next}
    (hgen : gen = s.lifecycleGeneration) (h : s.installServerRelease target gen = (i, r)) :
    s.Calm r.1 := by
  subst hgen
  rw [installServerRelease_current] at h
  cases h
  exact .of_eq rfl rfl rfl rfl

end State

/-! ## What a step of a task does to the connection -/

/-- The address an update adopts behind this await. -/
def Await.adopts : Await → Settle → Option String
  | .apply (.address _ _), .address (some addr) => some (httpAddress addr)
  | .apply (.install _ (.health _ addr)), .ok => some (httpAddress addr)
  | .check (.install _ (.health _ addr)), .ok => some (httpAddress addr)
  | _, _ => none

/-- The address a startup finishes at behind this await. -/
def Await.finishes : Await → Settle → Option String
  | .startup (.external url), .ok => some url
  | .startup (.container _), .address (some address) => some address
  | _, _ => none

/-- The subscriber behind the end of a startup. -/
def Link.subscribed (l : Link) (address : String) (emit : Bool) : Option String :=
  if l.emitter.isSome || !emit then l.emitter else some address

/-- A startup has finished at this address. -/
structure Finished (s : State) (gen : ℕ) (w : Await) (address : String) (s' : State) : Prop where
  same : s.Same s'
  client : s'.client = some { baseUrl := address, serial := s.clients }
  /-- An external server has had its address from the beginning. -/
  containerAddress : s'.containerAddress = some address ∨
    w = .startup (.external address) ∧ s'.containerAddress = s.containerAddress
  emitter : s'.emitter = s.link.subscribed address (s.settingsObjects gen).emitSignalKDeltas

inductive LinkStep (s : State) (gen : ℕ) (w : Await) (a : Settle) (s' : State) : Prop where
  | calm : s.Calm s' → LinkStep s gen w a s'
  | adopts {address : String} : w.adopts a = some address → s' = s.adoptServerAddress address →
      LinkStep s gen w a s'
  | finishes {address : String} : w.finishes a = some address → gen = s.lifecycleGeneration →
      Finished s gen w address s' → LinkStep s gen w a s'

theorem State.startSignalKEmitter_link (s : State) (url : String) (emit : Bool) :
    (s.startSignalKEmitter url emit).client = s.client ∧
      (s.startSignalKEmitter url emit).containerAddress = s.containerAddress ∧
        (s.startSignalKEmitter url emit).emitter = s.link.subscribed url emit := by
  unfold startSignalKEmitter
  split
  case isTrue h =>
      exact ⟨rfl, rfl, (if_pos h).symm⟩
  case isFalse h =>
      exact ⟨rfl, rfl, (if_neg h).symm⟩

theorem State.Calm.client {s s' : State} (h : s.Calm s') : s'.client = s.client :=
  congrArg Link.client h.link

theorem State.Calm.containerAddress {s s' : State} (h : s.Calm s') :
    s'.containerAddress = s.containerAddress :=
  congrArg Link.containerAddress h.link

theorem State.Calm.emitter {s s' : State} (h : s.Calm s') : s'.emitter = s.emitter :=
  congrArg Link.emitter h.link

theorem State.finishExternal_finished {s : State} {gen : ℕ} (hgen : gen = s.lifecycleGeneration)
    (url : String) : Finished s gen (.startup (.external url)) url (s.finishExternal gen url) := by
  have hcurrent : ¬gen ≠ s.lifecycleGeneration := not_not.2 hgen
  simp only [finishExternal, hcurrent, if_false]
  have hsame := (s.newClient url).startSignalKEmitter_same url
    (s.settingsObjects gen).emitSignalKDeltas
  have hlink := (s.newClient url).startSignalKEmitter_link url
    (s.settingsObjects gen).emitSignalKDeltas
  exact ⟨⟨hsame.floor, hsame.currentSettings, hsame.frozen⟩, hlink.1, Or.inr ⟨rfl, hlink.2.1⟩,
    hlink.2.2⟩

theorem State.finishStartup_finished {s : State} {gen : ℕ} (hgen : gen = s.lifecycleGeneration)
    (image address : String) :
    Finished s gen (.startup (.container image)) address
      (State.finishStartup { s with container := some image, containerAddress := some address } gen
        address) := by
  have hcurrent : ¬gen ≠ s.lifecycleGeneration := not_not.2 hgen
  simp only [finishStartup, hcurrent, if_false]
  -- the timers follow the client and the subscriber
  let t : State := { s with container := some image, containerAddress := some address }
  have hsame := (t.newClient address).startSignalKEmitter_same address
    (s.settingsObjects gen).emitSignalKDeltas
  have hlink := (t.newClient address).startSignalKEmitter_link address
    (s.settingsObjects gen).emitSignalKDeltas
  have htimers := (startDbExportTimer_calm ((t.newClient address).startSignalKEmitter address
    (s.settingsObjects gen).emitSignalKDeltas)).trans
      (scheduleServerUpdate_calm _ gen SERVER_UPDATE_FIRST_CHECK_MS)
  have hall := hsame.trans htimers.toSame
  exact ⟨⟨hall.floor, hall.currentSettings, hall.frozen⟩, htimers.client.trans hlink.1,
    Or.inl (htimers.containerAddress.trans hlink.2.1), htimers.emitter.trans hlink.2.2⟩

theorem StartupStep.finishes {s : State} {gen : ℕ} {w : StartupAwait} {a : Settle}
    {r : State × Await} {address : String} (h : StartupStep s gen w a r)
    (hgen : gen = s.lifecycleGeneration) (hfinishes : (Await.startup w).finishes a = some address) :
    Finished s gen (.startup w) address r.1 := by
  cases h with
  | external url =>
      cases hfinishes
      exact State.finishExternal_finished hgen _
  | container image address' _ =>
      cases hfinishes
      exact State.finishStartup_finished hgen image _
  | superseded hover _ _ =>
      exact absurd hgen hover
  | containerOnly image addr hnot =>
      rcases hnot with hover | rfl
      · exact absurd hgen hover
      · cases hfinishes
  | _ => cases hfinishes

theorem StartupStep.link {s : State} {gen : ℕ} {w : StartupAwait} {a : Settle} {r : State × Await}
    (h : StartupStep s gen w a r) : LinkStep s gen (.startup w) a r.1 := by
  cases h with
  | external url =>
      by_cases hgen : gen = s.lifecycleGeneration
      · exact .finishes rfl hgen (State.finishExternal_finished hgen url)
      · simp only [State.finishExternal, ne_eq, hgen, not_false_eq_true, if_true]
        exact .calm (.refl s)
  | resolvedSaving _ _ hsave =>
      have hcalm := State.persistResolvedTag_calm hsave
      exact .calm ⟨⟨hcalm.floor, hcalm.currentSettings, hcalm.frozen⟩, hcalm.link⟩
  | container image address hgen =>
      exact .finishes rfl hgen (State.finishStartup_finished hgen image address)
  | _ =>
      exact .calm (.of_eq rfl rfl rfl rfl)

/-- An install adopts an address once the server there has answered. -/
theorem InstallStep.link {s : State} {i : Install} {w : InstallAwait} {a : Settle}
    {r : State × Next} (h : InstallStep s i w a r) :
    s.Calm r.1 ∨
      ∃ swap addr, w = .health swap addr ∧ a = .ok ∧ r.1 = s.adoptServerAddress (httpAddress addr) := by
  cases h with
  | recreateFailed swap image container =>
      have hcalm := State.swapFailed_calm { s with container } i swap
      exact Or.inl ⟨⟨hcalm.floor, hcalm.currentSettings, hcalm.frozen⟩, hcalm.link⟩
  | notLocated swap _ =>
      exact Or.inl (s.swapFailed_calm i swap)
  | answered swap addr =>
      exact Or.inr ⟨swap, addr, rfl, rfl, rfl⟩
  | noAnswer swap addr =>
      exact Or.inl (s.swapFailed_calm i swap)
  | up =>
      rcases s.installed_cases i with ⟨_, heq⟩ | ⟨_, _, hsave, heq⟩
      · rw [heq]
        exact Or.inl (.of_eq rfl rfl rfl rfl)
      · rw [heq]
        exact Or.inl (State.persistAppliedTag_calm hsave)
  | _ =>
      exact Or.inl (.of_eq rfl rfl rfl rfl)

theorem ApplyStep.link {s : State} {w : ApplyAwait} {a : Settle} {r : State × Await}
    (h : ApplyStep s w a r) (gen : ℕ) : LinkStep s gen (.apply w) a r.1 := by
  cases h with
  | pulled hinstall =>
      rw [inApply_state]
      exact .calm (State.installServerRelease_calm rfl hinstall)
  | install hstep =>
      rw [inApply_state]
      rcases hstep.link with hcalm | ⟨swap, addr, rfl, rfl, heq⟩
      · exact .calm hcalm
      · exact .adopts rfl heq
  | recreatedSaving hsave =>
      have hcalm := State.persistAppliedTag_calm hsave
      exact .calm ⟨⟨hcalm.floor, hcalm.currentSettings, hcalm.frozen⟩, hcalm.link⟩
  | located image addr saveFailed =>
      exact .adopts rfl rfl
  | scheduled tag _ =>
      exact .calm (s.scheduleServerUpdate_calm _ _)
  | _ =>
      exact .calm (.of_eq rfl rfl rfl rfl)

theorem CheckStep.link {s : State} {gen : ℕ} {w : CheckAwait} {a : Settle} {r : State × Await}
    (h : CheckStep s gen w a r) : LinkStep s gen (.check w) a r.1 := by
  cases h with
  | installs hwanted _ _ _ hinstall =>
      rw [inCheck_state]
      have hcalm := State.installServerRelease_calm (s := { s with serverInstalling := true })
        (State.wanted_generation hwanted) hinstall
      exact .calm ⟨⟨hcalm.floor, hcalm.currentSettings, hcalm.frozen⟩, hcalm.link⟩
  | install hstep =>
      rw [inCheck_state]
      rcases hstep.link with hcalm | ⟨swap, addr, rfl, rfl, heq⟩
      · exact .calm hcalm
      · exact .adopts rfl heq
  | scheduled nextMs _ =>
      exact .calm (s.scheduleServerUpdate_calm _ _)
  | _ =>
      exact .calm (.of_eq rfl rfl rfl rfl)

theorem ExportStep.calm {s : State} {w : ExportAwait} {a : Settle} {r : State × Await}
    (h : ExportStep s w a r) : s.Calm r.1 := by
  cases h with
  | saved options =>
      have hcalm := State.startDbExportTimer_calm { s with stored := some options }
      exact ⟨⟨hcalm.floor, hcalm.currentSettings, hcalm.frozen⟩, hcalm.link⟩
  | _ =>
      exact .refl s

theorem TaskStep.link {s : State} {gen : ℕ} {w : Await} {a : Settle} {r : State × Await}
    (h : TaskStep s gen w a r) : LinkStep s gen w a r.1 := by
  cases h with
  | startup h =>
      exact h.link
  | apply h =>
      exact h.link gen
  | check h =>
      exact h.link
  | dbExport h =>
      exact .calm h.calm

theorem LinkStep.same {s s' : State} {gen : ℕ} {w : Await} {a : Settle}
    (h : LinkStep s gen w a s') : s.Same s' := by
  cases h with
  | calm hcalm =>
      exact hcalm.toSame
  | adopts _ heq =>
      rw [heq]
      exact s.adoptServerAddress_same _
  | finishes _ _ hfinished =>
      exact hfinished.same

/-! ## What the other actions do to it -/

/-- Requests, timers and restores. -/
def Action.outside : Action → Bool
  | .start _ => false
  | .stop => false
  | .settle _ _ => false
  | _ => true

theorem calm_export {p p' : System} {a : Action} (ha : a.exports = true)
    (hs : pluginStep p a = some p') : p.state.Calm p'.state := by
  rcases export_state ha hs with hsame | ⟨body, options, hsave⟩
  · rw [hsame]
    exact .refl _
  · exact State.setDbExport_calm hsave

theorem calm_outside {p p' : System} {a : Action} (ha : a.outside = true)
    (hs : pluginStep p a = some p') :
    p.state.Calm p'.state ∧ p'.state.lifecycleGeneration = p.state.lifecycleGeneration := by
  have hexport : a.exports = true → p.state.Calm p'.state ∧
      p'.state.lifecycleGeneration = p.state.lifecycleGeneration := by
    intro hexports
    refine ⟨calm_export hexports hs, ?_⟩
    rcases export_cases a hexports hs with rfl | ⟨s, w, hframe, rfl⟩
    · rfl
    · exact State.control_generation hframe.1
  cases a with
  | start config => cases ha
  | stop => cases ha
  | settle i o => cases ha
  | apply manager tag valid =>
      cases hs
      unfold System.apply
      split
      case isTrue =>
          exact ⟨.refl _, rfl⟩
      case isFalse =>
          have hframe := applyServerUpdate_frame p.state (requestedTag p.state tag)
          show p.state.Calm (p.state.applyServerUpdate _).1 ∧
            (p.state.applyServerUpdate _).1.lifecycleGeneration = p.state.lifecycleGeneration
          rw [hframe]
          exact ⟨.of_eq rfl rfl rfl rfl, rfl⟩
  | timer =>
      simp only [pluginStep, Option.map_eq_some_iff] at hs
      rcases hs with ⟨timer, _, rfl⟩
      have hframe := checkServerUpdate_state p.state.stopServerUpdateTimer timer.gen
      show p.state.Calm (p.state.stopServerUpdateTimer.checkServerUpdate timer.gen).1 ∧
        (p.state.stopServerUpdateTimer.checkServerUpdate timer.gen).1.lifecycleGeneration =
          p.state.lifecycleGeneration
      rw [hframe]
      exact ⟨.of_eq rfl rfl rfl rfl, rfl⟩
  | dbExport body =>
      exact hexport rfl
  | backup =>
      exact hexport rfl
  | exportTick =>
      exact hexport rfl
  | hostRestore running =>
      cases hs
      exact ⟨.of_eq rfl rfl rfl rfl, rfl⟩

/-! ## The startup of the current lifecycle -/

def Await.starting : Await → Bool
  | .startup _ => true
  | _ => false

/-- The external server a startup waits for. -/
def Await.external : Await → Option String
  | .startup (.external url) => some url
  | .startup (.retry url) => some url
  | _ => none

/-- A startup of this generation that has not ended. -/
def Task.startingIn (gen : ℕ) (t : Task) : Bool :=
  t.gen == gen && t.await.starting

structure Connected (p : System) : Prop where
  bound : ∀ t ∈ p.tasks, t.gen ≤ p.state.lifecycleGeneration
  begun : Exclusive (Task.startingIn p.state.lifecycleGeneration) p.state.client.isNone p.tasks
  object : ∀ t ∈ p.tasks, t.startingIn p.state.lifecycleGeneration = true →
    p.state.currentSettings = some p.state.lifecycleGeneration
  published : p.state.client.isSome = true →
    p.state.currentSettings = some p.state.lifecycleGeneration
  external : ∀ t ∈ p.tasks, t.gen = p.state.lifecycleGeneration → ∀ url,
    t.await.external = some url → p.state.containerAddress = some url ∧
      (p.state.settingsObjects t.gen).managedContainer = false

theorem Await.starting_of_external {w : Await} {url : String} (h : w.external = some url) :
    w.starting = true := by
  unfold Await.external at h
  split at h <;> first | rfl | cases h

theorem TaskStep.starting {s : State} {gen : ℕ} {w : Await} {a : Settle} {r : State × Await}
    (h : TaskStep s gen w a r) (hr : r.2.starting = true) : w.starting = true := by
  cases h with
  | startup h =>
      rfl
  | apply h =>
      rcases h.await with ⟨w', hawait⟩ | hawait <;>
        · rw [hawait] at hr
          cases hr
  | check h =>
      cases h with
      | @installs target' current i next =>
          rcases inCheck_await i next with ⟨_, _, hawait⟩ | hawait <;>
            · rw [hawait] at hr
              cases hr
      | @install i w a next =>
          rcases inCheck_await i next with ⟨_, _, hawait⟩ | hawait <;>
            · rw [hawait] at hr
              cases hr
      | _ => cases hr
  | dbExport h =>
      cases h <;> cases hr

theorem Await.finishes_external {w : Await} {a : Settle} {url address : String}
    (h : w.external = some url) (hfinishes : w.finishes a = some address) : address = url := by
  unfold Await.external at h
  split at h
  case h_1 url' =>
      cases a <;> cases hfinishes
      exact Option.some.inj h
  case h_2 url' => cases hfinishes
  case h_3 => cases h

/-- The external server stays the same from attempt to attempt. -/
theorem TaskStep.external {s : State} {gen : ℕ} {w : Await} {a : Settle} {r : State × Await}
    {url : String} (h : TaskStep s gen w a r) (hr : r.2.external = some url) :
    w.external = some url ∧ r.1 = s := by
  have hstarting := h.starting (Await.starting_of_external hr)
  cases h with
  | startup h =>
      cases h with
      | unreachable url' _ =>
          exact ⟨hr, rfl⟩
      | retry url' _ =>
          exact ⟨hr, rfl⟩
      | _ => cases hr
  | _ => cases hstarting

theorem TaskStep.finished {s : State} {gen : ℕ} {w : Await} {a : Settle} {r : State × Await}
    {address : String} (h : TaskStep s gen w a r) (hfinishes : w.finishes a = some address) :
    r.2 = .finished := by
  cases h with
  | startup h =>
      cases h <;> first | rfl | cases hfinishes
  | apply h => cases hfinishes
  | check h => cases hfinishes
  | dbExport h => cases hfinishes

theorem Await.starting_of_finishes {w : Await} {a : Settle} {address : String}
    (h : w.finishes a = some address) : w.starting = true := by
  unfold Await.finishes at h
  split at h <;> first | rfl | cases h

theorem Await.not_starting_of_adopts {w : Await} {a : Settle} {address : String}
    (h : w.adopts a = some address) : w.starting = false := by
  unfold Await.adopts at h
  split at h <;> first | rfl | cases h

theorem TaskStep.finishes {s : State} {gen : ℕ} {w : Await} {a : Settle} {r : State × Await}
    {address : String} (h : TaskStep s gen w a r) (hgen : gen = s.lifecycleGeneration)
    (hfinishes : w.finishes a = some address) : Finished s gen w address r.1 := by
  cases h with
  | startup h =>
      exact h.finishes hgen hfinishes
  | apply h => cases hfinishes
  | check h => cases hfinishes
  | dbExport h => cases hfinishes

/-- A new address is adopted once there is a client: the subscriber moves with it. -/
theorem State.adoptServerAddress_new {s : State} {c : Client} {settings : Settings}
    {address : String} (hclient : s.client = some c) (hsettings : s.settings = some settings)
    (hnew : s.containerAddress ≠ some address) :
    (s.adoptServerAddress address).client = some { baseUrl := address, serial := s.clients } ∧
      (s.adoptServerAddress address).containerAddress = some address ∧
        (s.adoptServerAddress address).emitter =
          if settings.emitSignalKDeltas then some address else none := by
  unfold adoptServerAddress
  split
  case h_1 c' settings' _ hsettings' =>
      cases hsettings.symm.trans hsettings'
      rw [if_neg hnew]
      have hlink := ((({ s with containerAddress := some address } : State).newClient
        address).stopSignalKEmitter).startSignalKEmitter_link address settings.emitSignalKDeltas
      refine ⟨hlink.1, hlink.2.1, hlink.2.2.trans ?_⟩
      cases settings.emitSignalKDeltas <;> rfl
  case h_2 hnone =>
      exact absurd hsettings (hnone _ _ hclient)

theorem State.adoptServerAddress_same_address {s : State} {address : String}
    (h : s.containerAddress = some address) : s.adoptServerAddress address = s := by
  unfold adoptServerAddress
  split
  case h_1 =>
      exact if_pos h
  case h_2 =>
      rfl

theorem State.adoptServerAddress_unloaded {s : State} {address : String} (h : s.settings = none) :
    s.adoptServerAddress address = s := by
  unfold adoptServerAddress
  split
  case h_1 hsettings =>
      rw [h] at hsettings
      cases hsettings
  case h_2 =>
      rfl

/-- Without a client no address is adopted. -/
theorem State.adoptServerAddress_none {s : State} (h : s.client = none) (address : String) :
    s.adoptServerAddress address = s := by
  simp only [adoptServerAddress, h]

theorem State.adoptServerAddress_client (s : State) (address : String) :
    (s.adoptServerAddress address).client.isSome = s.client.isSome := by
  by_cases hsame : s.containerAddress = some address
  · rw [adoptServerAddress_same_address hsame]
  · cases hclient : s.client with
    | none =>
        rw [adoptServerAddress_none hclient, hclient]
    | some c =>
        cases hsettings : s.settings with
        | none =>
            rw [adoptServerAddress_unloaded hsettings, hclient]
        | some settings =>
            rw [(adoptServerAddress_new hclient hsettings hsame).1]
            rfl

/-! ### Steps -/

theorem applyServerUpdate_starting (s : State) (requested : String) :
    (s.applyServerUpdate requested).2.starting = false := by
  unfold State.applyServerUpdate
  dsimp only
  split <;> rfl

theorem checkServerUpdate_starting (s : State) (gen : ℕ) :
    (s.checkServerUpdate gen).2.starting = false := by
  unfold State.checkServerUpdate
  split <;> rfl

/-- A new task of an outside action is no startup. -/
theorem outside_tasks {p p' : System} {a : Action} (hgen : Generations p) (ha : a.outside = true)
    (hs : pluginStep p a = some p') :
    p'.tasks = p.tasks ∨ ∃ t, p'.tasks = p.tasks ++ [t] ∧ t.gen = p.state.lifecycleGeneration ∧
      t.await.starting = false := by
  have hexport : a.exports = true → p'.tasks = p.tasks ∨ ∃ t, p'.tasks = p.tasks ++ [t] ∧
      t.gen = p.state.lifecycleGeneration ∧ t.await.starting = false := by
    intro hexports
    rcases export_cases a hexports hs with rfl | ⟨s, w, _, rfl⟩
    · exact Or.inl rfl
    · exact Or.inr ⟨_, rfl, rfl, rfl⟩
  cases a with
  | start config => cases ha
  | stop => cases ha
  | settle i o => cases ha
  | apply manager tag valid =>
      cases hs
      unfold System.apply
      split
      case isTrue =>
          exact Or.inl rfl
      case isFalse =>
          exact Or.inr ⟨_, rfl, rfl, applyServerUpdate_starting _ _⟩
  | timer =>
      simp only [pluginStep, Option.map_eq_some_iff] at hs
      rcases hs with ⟨timer, htimer, rfl⟩
      exact Or.inr ⟨_, rfl, hgen.timer timer htimer, checkServerUpdate_starting _ _⟩
  | dbExport body =>
      exact hexport rfl
  | backup =>
      exact hexport rfl
  | exportTick =>
      exact hexport rfl
  | hostRestore running =>
      cases hs
      exact Or.inl rfl

theorem connected_outside {p p' : System} (h : Connected p) (hcalm : p.state.Calm p'.state)
    (hsame : p'.state.lifecycleGeneration = p.state.lifecycleGeneration)
    (htasks : p'.tasks = p.tasks ∨ ∃ t, p'.tasks = p.tasks ++ [t] ∧
      t.gen = p.state.lifecycleGeneration ∧ t.await.starting = false) : Connected p' := by
  -- a new task is no startup
  have hold : ∀ t ∈ p'.tasks, t ∈ p.tasks ∨
      t.gen = p.state.lifecycleGeneration ∧ t.await.starting = false := by
    intro t ht
    rcases htasks with htasks | ⟨u, htasks, hgen, hidle⟩
    · exact Or.inl (htasks ▸ ht)
    · rw [htasks] at ht
      rcases List.mem_append.1 ht with hold | hlast
      · exact Or.inl hold
      · rw [List.mem_singleton.1 hlast]
        exact Or.inr ⟨hgen, hidle⟩
  refine ⟨?_, ?_, ?_, ?_, ?_⟩
  · intro t ht
    rw [hsame]
    rcases hold t ht with hmem | ⟨hgen, _⟩
    · exact h.bound t hmem
    · exact hgen.le
  · rw [hsame, hcalm.client]
    rcases htasks with htasks | ⟨u, htasks, _, hidle⟩
    · rw [htasks]
      exact h.begun
    · rw [htasks]
      exact Exclusive.append_idle h.begun (by simp [Task.startingIn, hidle])
  · intro t ht hstarting
    rw [hsame] at hstarting ⊢
    rw [hcalm.currentSettings]
    rcases hold t ht with hmem | ⟨_, hidle⟩
    · exact h.object t hmem hstarting
    · simp [Task.startingIn, hidle] at hstarting
  · intro hclient
    rw [hcalm.client] at hclient
    rw [hsame, hcalm.currentSettings]
    exact h.published hclient
  · intro t ht hgen url hurl
    rw [hsame] at hgen
    rw [hcalm.containerAddress, hcalm.managedContainer]
    rcases hold t ht with hmem | ⟨_, hidle⟩
    · exact h.external t hmem hgen url hurl
    · rw [Await.starting_of_external hurl] at hidle
      cases hidle

section Settle

variable {p : System} {i : ℕ} {t : Task} {o : Settle} {r : State × Await}

/-- A startup keeps the place it has, and gives it up when it publishes the client. -/
theorem begun_settle (h : Connected p) (ht : p.tasks[i]? = some t)
    (hstep : TaskStep p.state t.gen t.await o r) :
    Exclusive (Task.startingIn p.state.lifecycleGeneration) r.1.client.isNone
      (p.tasks.set i { t with await := r.2 }) := by
  refine Exclusive.set h.begun ht ?_ ?_
  · intro hidle
    have hidle' : (t.gen == p.state.lifecycleGeneration && r.2.starting) = false := by
      cases hb : r.2.starting with
      | false =>
          simp
      | true =>
          have hstarting := hstep.starting hb
          simpa [Task.startingIn, hstarting] using hidle
    refine ⟨hidle', ?_⟩
    cases hstep.link with
    | calm hcalm =>
        rw [hcalm.client]
    | adopts _ heq =>
        -- an address is adopted for the client that is there
        rw [← Option.not_isSome, ← Option.not_isSome, heq, p.state.adoptServerAddress_client]
    | finishes hfinishes hcurrent _ =>
        -- a startup that ends held the slot
        simp [Task.startingIn, hcurrent, Await.starting_of_finishes hfinishes] at hidle
  · intro hholds hholds'
    simp only [Task.startingIn, Bool.and_eq_true] at hholds hholds'
    cases hstep.link with
    | calm hcalm =>
        rw [hcalm.client]
        exact (h.begun i t ht (by simp [Task.startingIn, hholds])).1
    | adopts hadopts _ =>
        rw [Await.not_starting_of_adopts hadopts] at hholds
        cases hholds.2
    | finishes hfinishes _ _ =>
        rw [hstep.finished hfinishes] at hholds'
        cases hholds'.2

theorem published_settle (h : Connected p) (ht : p.tasks[i]? = some t)
    (hstep : TaskStep p.state t.gen t.await o r) (hclient : r.1.client.isSome = true) :
    p.state.currentSettings = some p.state.lifecycleGeneration := by
  cases hstep.link with
  | calm hcalm =>
      rw [hcalm.client] at hclient
      exact h.published hclient
  | adopts _ heq =>
      rw [heq, p.state.adoptServerAddress_client] at hclient
      exact h.published hclient
  | finishes hfinishes hcurrent _ =>
      -- a startup reads its own lifecycle's settings
      exact h.object t (List.mem_of_getElem? ht)
        (by simp [Task.startingIn, hcurrent, Await.starting_of_finishes hfinishes])

/-- While a startup waits for an external server, nothing else writes the address. -/
theorem external_settle (h : Connected p) (ht : p.tasks[i]? = some t)
    (hstep : TaskStep p.state t.gen t.await o r) {u : Task} (hu : u ∈ p.tasks)
    (hcurrent : u.gen = p.state.lifecycleGeneration) {url : String}
    (hurl : u.await.external = some url) : r.1.containerAddress = some url := by
  have haddress := (h.external u hu hcurrent url hurl).1
  rcases List.mem_iff_getElem?.1 hu with ⟨j, hj⟩
  -- the startup holds the slot, so no client is published
  have hunone := h.begun j u hj
    (by simp [Task.startingIn, hcurrent, Await.starting_of_external hurl])
  have hclient : p.state.client = none := Option.isNone_iff_eq_none.1 hunone.1
  cases hstep.link with
  | calm hcalm =>
      rw [hcalm.containerAddress]
      exact haddress
  | adopts _ heq =>
      rw [heq, State.adoptServerAddress_none hclient]
      exact haddress
  | finishes hfinishes hours hfinished =>
      -- it is the same startup
      have hij := hunone.2 i t ht
        (by simp [Task.startingIn, hours, Await.starting_of_finishes hfinishes])
      subst hij
      cases hj.symm.trans ht
      rcases hfinished.containerAddress with haddr | ⟨hawait, haddr⟩
      · rw [haddr, Await.finishes_external hurl hfinishes]
      · rw [haddr]
        exact haddress

theorem connected_settle (h : Connected p) (ht : p.tasks[i]? = some t)
    (hstep : TaskStep p.state t.gen t.await o r) :
    Connected { state := r.1, tasks := p.tasks.set i { t with await := r.2 } } := by
  have hgen := hstep.keeps.generation
  have hsame := hstep.link.same
  have hmem := List.mem_of_getElem? ht
  refine ⟨?bound, ?begun, ?object, ?published, ?external⟩
  case bound =>
      intro u hu
      show u.gen ≤ r.1.lifecycleGeneration
      rw [hgen]
      rcases List.mem_or_eq_of_mem_set hu with hold | rfl
      · exact h.bound u hold
      · exact h.bound t hmem
  case begun =>
      show Exclusive (Task.startingIn r.1.lifecycleGeneration) r.1.client.isNone _
      rw [hgen]
      exact begun_settle h ht hstep
  case object =>
      intro u hu hstarting
      change u.startingIn r.1.lifecycleGeneration = true at hstarting
      show r.1.currentSettings = some r.1.lifecycleGeneration
      rw [hgen] at hstarting ⊢
      rw [hsame.currentSettings]
      rcases List.mem_or_eq_of_mem_set hu with hold | rfl
      · exact h.object u hold hstarting
      · simp only [Task.startingIn, Bool.and_eq_true] at hstarting
        exact h.object t hmem (by simp [Task.startingIn, hstarting.1, hstep.starting hstarting.2])
  case published =>
      intro hclient
      show r.1.currentSettings = some r.1.lifecycleGeneration
      rw [hgen, hsame.currentSettings]
      exact published_settle h ht hstep hclient
  case external =>
      intro u hu hcurrent url hurl
      change u.gen = r.1.lifecycleGeneration at hcurrent
      show r.1.containerAddress = some url ∧ (r.1.settingsObjects u.gen).managedContainer = false
      rw [hgen] at hcurrent
      rcases List.mem_or_eq_of_mem_set hu with hold | rfl
      · have hunmanaged := (h.external u hold hcurrent url hurl).2
        exact ⟨external_settle h ht hstep hold hcurrent hurl,
          (hsame.managedContainer u.gen).trans hunmanaged⟩
      · rcases hstep.external hurl with ⟨hbefore, hstate⟩
        rw [hstate]
        exact h.external t hmem hcurrent url hbefore

end Settle

/-! ### start() and stop() -/

/-- What `asyncStart` does up to its first await: an external server is known by its address. -/
structure Launched (s : State) (r : State × Await) : Prop where
  same : s.Same r.1
  objects : r.1.settingsObjects = s.settingsObjects
  client : r.1.client = s.client
  emitter : r.1.emitter = s.emitter
  external : ∀ url, r.2.external = some url → r.1.containerAddress = some url

theorem asyncStart_external {s : State} {gen : ℕ} {url : String}
    (h : (s.asyncStart gen).2.external = some url) :
    (s.settingsObjects gen).managedContainer = false := by
  unfold State.asyncStart at h
  dsimp only at h
  split at h
  case isTrue hunmanaged =>
      simpa using hunmanaged
  case isFalse =>
      split at h <;> cases h

theorem asyncStart_launched (s : State) (gen : ℕ) : Launched s (s.asyncStart gen) := by
  unfold State.asyncStart
  dsimp only
  split
  · split
    · exact ⟨⟨rfl, rfl, fun _ => rfl⟩, rfl, rfl, rfl, nofun⟩
    · exact ⟨⟨rfl, rfl, fun _ => rfl⟩, rfl, rfl, rfl, fun _ h => h⟩
  · split
    · exact ⟨⟨rfl, rfl, fun _ => rfl⟩, rfl, rfl, rfl, nofun⟩
    · exact ⟨⟨rfl, rfl, fun _ => rfl⟩, rfl, rfl, rfl, nofun⟩

theorem not_startingIn {p : System} (h : Connected p) {gen : ℕ}
    (hgen : p.state.lifecycleGeneration < gen) {t : Task} (ht : t ∈ p.tasks) :
    t.startingIn gen = false := by
  have hbound := h.bound t ht
  have hne : t.gen ≠ gen := by omega
  simp [Task.startingIn, hne]

theorem connected_start {p : System} (h : Connected p) (config : PartialSettings) :
    Connected (p.start config) := by
  let s := p.state.start config
  let gen := s.lifecycleGeneration
  have hlaunched := asyncStart_launched s gen
  have hgen : (p.start config).state.lifecycleGeneration = p.state.lifecycleGeneration + 1 :=
    State.control_generation (asyncStart_control s gen).1
  have hclient : (p.start config).state.client = none := hlaunched.client
  have hsettings : (p.start config).state.currentSettings = some (p.state.lifecycleGeneration + 1) :=
    hlaunched.same.currentSettings
  have hmem : ∀ t ∈ (p.start config).tasks,
      t ∈ p.tasks ∨ t.gen = gen ∧ t.await = (s.asyncStart gen).2 := by
    intro t ht
    rcases List.mem_append.1 ht with hold | hlast
    · exact Or.inl hold
    · rw [List.mem_singleton.1 hlast]
      exact Or.inr ⟨rfl, rfl⟩
  refine ⟨?_, ?_, ?_, ?_, ?_⟩
  · intro t ht
    rw [hgen]
    rcases hmem t ht with hold | ⟨hours, _⟩
    · exact Nat.le_succ_of_le (h.bound t hold)
    · exact hours.le
  · rw [hgen, hclient]
    -- no task of an earlier lifecycle is a startup of the new one
    have hfree : Exclusive (Task.startingIn (p.state.lifecycleGeneration + 1)) false p.tasks :=
      .of_free fun i t ht => not_startingIn h (Nat.lt_succ_self _) (List.mem_of_getElem? ht)
    exact hfree.append rfl fun _ => rfl
  · intro t _ _
    rw [hgen, hsettings]
  · intro hsome
    rw [hclient] at hsome
    cases hsome
  · intro t ht hours url hurl
    rw [hgen] at hours
    rcases hmem t ht with hold | ⟨hnew, hawait⟩
    · have hbound := h.bound t hold
      omega
    · rw [hawait] at hurl
      refine ⟨hlaunched.external url hurl, ?_⟩
      rw [hnew]
      exact (hlaunched.same.managedContainer _).trans (asyncStart_external hurl)

theorem connected_stop {p : System} (h : Connected p) :
    Connected { p with state := p.state.stop } := by
  have hgen : p.state.stop.lifecycleGeneration = p.state.lifecycleGeneration + 1 := rfl
  refine ⟨?_, ?_, ?_, ?_, ?_⟩
  · intro t ht
    exact Nat.le_succ_of_le (h.bound t ht)
  · refine .of_free fun i t ht => ?_
    exact not_startingIn h (Nat.lt_succ_self _) (List.mem_of_getElem? ht)
  · intro t ht hstarting
    have hnot : t.startingIn p.state.stop.lifecycleGeneration = false :=
      not_startingIn h (Nat.lt_succ_self _) ht
    exact absurd (hnot.symm.trans hstarting) (by simp)
  · intro hsome
    cases hsome
  · intro t ht hours
    have hbound := h.bound t ht
    change t.gen = p.state.lifecycleGeneration + 1 at hours
    omega

theorem connected_step {p p' : System} {a : Action} (h : Connected p) (hgen : Generations p)
    (hs : plugin.step p a = some p') : Connected p' := by
  change pluginStep p a = some p' at hs
  cases a with
  | start config =>
      cases hs
      exact connected_start h config
  | stop =>
      cases hs
      exact connected_stop h
  | settle i o =>
      rcases settle_cases hs with ⟨t, r, ht, hstep, rfl⟩
      exact connected_settle h ht hstep
  | _ =>
      have hcalm := calm_outside rfl hs
      exact connected_outside h hcalm.1 hcalm.2 (outside_tasks hgen rfl hs)

theorem Loaded.connected {p : System} (h : Loaded p) : Connected p := by
  rcases h with ⟨htasks, _, _, hclient, _⟩
  refine ⟨?_, ?_, ?_, ?_, ?_⟩
  · rw [htasks]
    simp
  · rw [htasks]
    exact .of_free (by simp)
  · rw [htasks]
    simp
  · rw [hclient]
    simp
  · rw [htasks]
    simp

theorem reachable_connected {C : System → Action → Prop} {p : System}
    (h : plugin.ReachableUnder C Loaded p) : Connected p := by
  have hall : Generations p ∧ Connected p := by
    refine h.invariant (P := fun p => Generations p ∧ Connected p) ?_ ?_
    · intro p hloaded
      exact ⟨hloaded.generations, hloaded.connected⟩
    · rintro p a p' ⟨hgen, hconnected⟩ _ hs
      exact ⟨generations_step hgen hs, connected_step hconnected hgen hs⟩
  exact hall.2

/-- The startup of a managed plugin under "auto" without a container manager, to its end: the task `i`. -/
def startsUp (config : PartialSettings) (i : ℕ) (address : String) : List Action :=
  [.start config, .settle i .ok, .settle i (.lookup .noManager), .settle i .ok,
    .settle i (.address (some address))]

end Plugin
end SignalKBackup
