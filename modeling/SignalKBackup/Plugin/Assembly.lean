import SignalKBackup.Deltas.Stream
import SignalKBackup.Plugin.Connected
import SignalKBackup.Uplink.Waiting

/-!
# Assembly — the plugin, its uplink reporter and the event stream

The plugin starts and stops a reporter and a subscriber, which then go on by themselves.  Its own
state only counts these calls, and keeps the base URL of the subscriber and whether the reporter
runs; `Assembly` makes the calls on the machines that model the two.  `reachable_synced`: what the
plugin's state says about them is what they are.
-/

namespace SignalKBackup

open Lib

/-! ## The steps of a reporter -/

namespace Uplink

variable {T : Type}

/-- The steps the reporter takes by itself; the others are calls of the plugin. -/
def Action.own : Action T → Bool
  | .start _ => false
  | .stop => false
  | .report => false
  | .retarget _ => false
  | .retargetStart _ _ => false
  | .retargetStop _ => false
  | _ => true

/-- The reporter stays started or stopped, in front of the same target. -/
structure Goes (w w' : World T) : Prop where
  running : Running w' ↔ Running w
  target : w'.target = w.target

theorem Goes.refl (w : World T) : Goes w w :=
  ⟨Iff.rfl, rfl⟩

theorem Goes.trans {w v u : World T} (h : Goes w v) (h' : Goes v u) : Goes w u :=
  ⟨h'.running.trans h.running, h'.target.trans h.target⟩

theorem report_goes (b : Bool) (w : World T) : Goes w (report b w) := by
  refine ⟨(report_sameClock b w).running, ?_⟩
  unfold report
  split
  · rfl
  · split <;> rfl

theorem publish_goes (w : World T) (v : Value) : Goes w (publish w v) := by
  refine ⟨by rw [Running, Running, (publish_sameReports w v).resendTimer], ?_⟩
  unfold publish
  dsimp only
  split <;> rfl

theorem onDelta_goes (b : Bool) (w : World T) (d : Delta) : Goes w (onDelta b w d) := by
  have hpublished : Goes w ((published d).foldl publish w) :=
    keeps_publishAll (P := Goes w) (fun s v h => h.trans (publish_goes s v)) (published d) (.refl w)
  exact hpublished.trans (report_goes b _)

theorem start_running (b : Bool) (cached : List Delta) (w : World T) :
    Running (start b cached w) ∧ (start b cached w).target = w.target := by
  have hgoes : Goes (opened w) (start b cached w) :=
    keeps_start (P := Goes (opened w)) (fun s v h => h.trans (publish_goes s v))
      (fun s h => h.trans (report_goes b s)) cached (.refl _)
  exact ⟨hgoes.running.2 rfl, hgoes.target⟩

theorem step_goes [DecidableEq T] {b : Bool} {w w' : World T} {a : Action T} (hown : a.own = true)
    (hs : step b w a = some w') : Goes w w' := by
  have hcases := Step.of_step hs
  cases hcases with
  | start cached => cases hown
  | stop => cases hown
  | report => cases hown
  | retarget t => cases hown
  | retargetStart t cached => cases hown
  | retargetStop t => cases hown
  | delta d _ =>
      exact onDelta_goes b w d
  | waitFires _ _ =>
      have hfired : Goes w { w with waitTimer := none } := ⟨Iff.rfl, rfl⟩
      exact hfired.trans (report_goes b _)
  | @resendFires due hdue _ =>
      -- the interval is armed anew in the same step
      have hfired : Goes w { w with resendTimer := some (due + UPLINK_RESEND_MS), last := none } :=
        ⟨by simp [Running, hdue], rfl⟩
      exact hfired.trans (report_goes b _)
  | sendTail _ =>
      unfold sendTail
      split
      · exact ⟨Iff.rfl, rfl⟩
      · split <;> exact ⟨Iff.rfl, rfl⟩
  | @reportTail i _ =>
      unfold reportTail
      dsimp only
      split
      · -- a report that was queued meanwhile is made now
        have hended : Goes w
            { w with sending := false, flights := w.flights.eraseIdx i, queued := false } :=
          ⟨Iff.rfl, rfl⟩
        exact hended.trans (report_goes b _)
      · exact ⟨Iff.rfl, rfl⟩
  | resolved _ =>
      unfold recordPut
      split <;> exact ⟨Iff.rfl, rfl⟩
  | _ =>
      exact ⟨Iff.rfl, rfl⟩

end Uplink

namespace Plugin

/-! ## What stop() clears -/

/-- What `stop()` clears, and the calls that would bring it back. -/
structure Armed where
  client : Option Client
  emitter : Option String
  dbExportTimer : Option ℕ
  serverUpdateTimer : Option UpdateTimer
  uplinkStarted : Bool
  emitterStarts : ℕ
  uplinkStarts : ℕ
  deriving DecidableEq

def State.armed (s : State) : Armed :=
  { client := s.client
    emitter := s.emitter
    dbExportTimer := s.dbExportTimer
    serverUpdateTimer := s.serverUpdateTimer
    uplinkStarted := s.uplinkStarted
    emitterStarts := s.emitterStarts
    uplinkStarts := s.uplinkStarts }

theorem State.modifySettings_armed (s : State) (f : Settings → Settings) :
    (s.modifySettings f).armed = s.armed := by
  unfold State.modifySettings
  split <;> rfl

theorem State.callSave_armed {s s' : State} {options : Settings}
    (h : s.callSave = some (s', options)) : s'.armed = s.armed := by
  rw [(State.callSave_eq_some h).2]
  rfl

theorem State.persistAppliedTag_armed {s s' : State} {requestedTag resolvedTag : String}
    {options : Settings} (h : s.persistAppliedTag requestedTag resolvedTag = some (s', options)) :
    s'.armed = s.armed := by
  have hsave := State.callSave_armed h
  have hwritten := s.modifySettings_armed fun c =>
    { c with imageTag := requestedTag, resolvedImageTag := resolvedTag }
  exact hsave.trans hwritten

theorem State.startDbExportTimer_armed (s : State) :
    s.startDbExportTimer.armed =
      { s.armed with dbExportTimer := s.startDbExportTimer.dbExportTimer } := by
  unfold State.startDbExportTimer
  split
  case h_1 =>
      rfl
  case h_2 =>
      dsimp only
      split <;> rfl

theorem State.persistResolvedTag_armed {s s' : State} {tag : String} {gen : ℕ} {options : Settings}
    (h : s.persistResolvedTag tag gen = some (s', options)) : s'.armed = s.armed := by
  have hsave := State.callSave_armed (State.persistResolvedTag_cases h).2
  exact hsave.trans (s.modifySettings_armed _)

theorem State.setDbExport_armed {s s' : State} {body : DbExportBody} {options : Settings}
    (h : s.setDbExport body = some (s', options)) : s'.armed = s.armed := by
  unfold State.setDbExport at h
  split at h
  case isTrue =>
      cases h
  case isFalse =>
      exact (State.callSave_armed h).trans (s.modifySettings_armed _)

theorem State.scheduleServerUpdate_armed (s : State) (gen delayMs : ℕ) :
    (s.scheduleServerUpdate gen delayMs).armed =
      { s.armed with
        serverUpdateTimer := (s.scheduleServerUpdate gen delayMs).serverUpdateTimer } := by
  unfold State.scheduleServerUpdate
  split <;> rfl

theorem State.swapFailed_armed (s : State) (i : Install) (swap : Swap) :
    (s.swapFailed i swap).1.armed = s.armed := by
  rcases s.swapFailed_cases i swap with hfailed | ⟨_, _, hback⟩
  · rw [hfailed]
    rfl
  · rw [hback]
    rfl

theorem State.installServerRelease_armed {s : State} {target : String} {gen : ℕ} {i : Install}
    {r : State × Next} (hgen : gen = s.lifecycleGeneration)
    (h : s.installServerRelease target gen = (i, r)) : r.1.armed = s.armed := by
  subst hgen
  rw [State.installServerRelease_current] at h
  cases h
  rfl

/-! ## The calls of a step -/

/-- What a step writes to the variables that follow the subscriber and the reporter. -/
structure Calls (s s' : State) : Prop where
  emitter : s'.emitterStarts = s.emitterStarts → s'.emitter = none ∨ s'.emitter = s.emitter
  started : s'.uplinkStarts ≠ s.uplinkStarts → s'.uplinkStarted = true
  kept : s'.uplinkStarts = s.uplinkStarts → s'.uplinkStarted = s.uplinkStarted

theorem Calls.of_eq {s s' : State} (hemitter : s'.emitter = s.emitter)
    (hstarted : s'.uplinkStarted = s.uplinkStarted) (hstarts : s'.uplinkStarts = s.uplinkStarts) :
    Calls s s' :=
  ⟨fun _ => Or.inr hemitter, fun hne => absurd hstarts hne, fun _ => hstarted⟩

theorem Calls.of_armed {s s' : State} (h : s'.armed = s.armed) : Calls s s' :=
  .of_eq (congrArg Armed.emitter h) (congrArg Armed.uplinkStarted h) (congrArg Armed.uplinkStarts h)

/-- Only the two timers are armed anew, or cleared. -/
theorem Calls.of_timers {s s' : State} (h : ∃ dbExportTimer serverUpdateTimer,
    s'.armed = { s.armed with dbExportTimer, serverUpdateTimer }) : Calls s s' := by
  rcases h with ⟨_, _, harmed⟩
  exact .of_eq (congrArg Armed.emitter harmed) (congrArg Armed.uplinkStarted harmed)
    (congrArg Armed.uplinkStarts harmed)

theorem State.uplinkStart_calls (s : State) : Calls s s.uplinkStart :=
  ⟨fun _ => Or.inr rfl, fun _ => rfl, fun hsame => absurd hsame (Nat.succ_ne_self _)⟩

theorem State.startSignalKEmitter_calls (s : State) (url : String) (emit : Bool) :
    Calls s (s.startSignalKEmitter url emit) := by
  unfold State.startSignalKEmitter
  split
  case isTrue =>
      exact .of_armed rfl
  case isFalse =>
      exact ⟨fun hsame => absurd hsame (Nat.succ_ne_self _), fun hne => absurd rfl hne, fun _ => rfl⟩

/-- A published client, its subscriber, and the reporter behind everything else. -/
theorem Calls.of_connect {s t : State} {url : String} {emit : Bool}
    (h : ∃ dbExportTimer serverUpdateTimer, t.armed =
      { ((s.newClient url).startSignalKEmitter url emit).armed with
        dbExportTimer, serverUpdateTimer }) : Calls s t.uplinkStart := by
  rcases h with ⟨_, _, harmed⟩
  have hstart := (s.newClient url).startSignalKEmitter_calls url emit
  have hemitter := congrArg Armed.emitter harmed
  have hemitterStarts := congrArg Armed.emitterStarts harmed
  have huplinkStarts : t.uplinkStarts = s.uplinkStarts := by
    refine (congrArg Armed.uplinkStarts harmed).trans ?_
    unfold State.startSignalKEmitter
    split <;> rfl
  refine ⟨fun hsame => ?_, fun _ => rfl, fun hsame => ?_⟩
  · have hold := hstart.emitter (hemitterStarts.symm.trans hsame)
    exact hold.imp hemitter.trans hemitter.trans
  · have hnext : t.uplinkStarts + 1 = s.uplinkStarts := hsame
    omega

theorem State.finishExternal_calls (s : State) (gen : ℕ) (url : String) :
    Calls s (s.finishExternal gen url) := by
  unfold State.finishExternal
  split
  case isTrue =>
      exact .of_armed rfl
  case isFalse =>
      exact .of_connect ⟨_, _, rfl⟩

theorem State.finishStartup_calls (s : State) (gen : ℕ) (address : String) :
    Calls s (s.finishStartup gen address) := by
  unfold State.finishStartup
  split
  case isTrue =>
      exact .of_armed rfl
  case isFalse =>
      let t := (s.newClient address).startSignalKEmitter address
        (s.settingsObjects gen).emitSignalKDeltas
      have hscheduled := t.startDbExportTimer.scheduleServerUpdate_armed gen
        SERVER_UPDATE_FIRST_CHECK_MS
      rw [t.startDbExportTimer_armed] at hscheduled
      exact .of_connect ⟨_, _, hscheduled⟩

theorem State.adoptServerAddress_calls (s : State) (address : String) :
    Calls s (s.adoptServerAddress address) := by
  unfold State.adoptServerAddress
  split
  case h_1 c settings _ _ =>
      split
      case isTrue =>
          exact .of_armed rfl
      case isFalse =>
          -- the old subscriber is stopped first, so that a new one starts, or none is left
          have hstart := ({ s with containerAddress := some address }.newClient
            address).stopSignalKEmitter.startSignalKEmitter_calls address settings.emitSignalKDeltas
          exact ⟨fun hsame => Or.inl ((hstart.emitter hsame).elim id id), hstart.started, hstart.kept⟩
  case h_2 =>
      exact .of_armed rfl

section Step

variable {s : State} {gen : ℕ} {a : Settle} {r : State × Await}

theorem StartupStep.calls {w : StartupAwait} (h : StartupStep s gen w a r) : Calls s r.1 := by
  cases h with
  | external url =>
      exact s.finishExternal_calls gen url
  | resolvedSaving _ _ hsave =>
      have harmed := State.persistResolvedTag_armed hsave
      exact .of_armed harmed
  | container image address _ =>
      have hcalls := State.finishStartup_calls
        { s with container := some image, containerAddress := some address } gen address
      exact ⟨hcalls.emitter, hcalls.started, hcalls.kept⟩
  | _ =>
      exact .of_armed rfl

theorem InstallStep.calls {i : Install} {w : InstallAwait} {r : State × Next}
    (h : InstallStep s i w a r) : Calls s r.1 := by
  cases h with
  | recreateFailed swap image container =>
      have harmed := State.swapFailed_armed { s with container } i swap
      exact .of_armed harmed
  | notLocated swap _ =>
      exact .of_armed (s.swapFailed_armed i swap)
  | noAnswer swap addr =>
      exact .of_armed (s.swapFailed_armed i swap)
  | answered swap addr =>
      exact s.adoptServerAddress_calls _
  | up =>
      rcases s.installed_cases i with ⟨_, heq⟩ | ⟨s', options, hsave, heq⟩
      · rw [heq]
        exact s.uplinkStart_calls
      · rw [heq]
        exact .of_armed (State.persistAppliedTag_armed hsave)
  | saved options =>
      have hcalls := State.uplinkStart_calls { s with stored := some options }
      exact ⟨hcalls.emitter, hcalls.started, hcalls.kept⟩
  | _ =>
      exact .of_armed rfl

theorem ApplyStep.calls {w : ApplyAwait} (h : ApplyStep s w a r) : Calls s r.1 := by
  cases h with
  | pulled hinstall =>
      rw [inApply_state]
      exact .of_armed (State.installServerRelease_armed rfl hinstall)
  | install hstep =>
      rw [inApply_state]
      exact hstep.calls
  | recreatedSaving hsave =>
      have harmed := State.persistAppliedTag_armed hsave
      exact .of_armed harmed
  | located image addr saveFailed =>
      exact s.adoptServerAddress_calls _
  | answered image addr saveFailed =>
      exact s.uplinkStart_calls
  | scheduled tag _ =>
      have harmed := s.scheduleServerUpdate_armed s.lifecycleGeneration SERVER_UPDATE_INTERVAL_MS
      exact .of_timers ⟨_, _, harmed⟩
  | _ =>
      exact .of_armed rfl

theorem CheckStep.calls {w : CheckAwait} (h : CheckStep s gen w a r) : Calls s r.1 := by
  cases h with
  | installs hwanted _ _ _ hinstall =>
      rw [inCheck_state]
      have harmed := State.installServerRelease_armed (s := { s with serverInstalling := true })
        (State.wanted_generation hwanted) hinstall
      exact .of_armed harmed
  | install hstep =>
      rw [inCheck_state]
      exact hstep.calls
  | scheduled nextMs _ =>
      have harmed := s.scheduleServerUpdate_armed gen nextMs
      exact .of_timers ⟨_, _, harmed⟩
  | _ =>
      exact .of_armed rfl

theorem ExportStep.calls {w : ExportAwait} (h : ExportStep s w a r) : Calls s r.1 := by
  cases h with
  | saved options =>
      have harmed := State.startDbExportTimer_armed { s with stored := some options }
      exact .of_timers ⟨_, _, harmed⟩
  | _ =>
      exact .of_armed rfl

theorem TaskStep.calls {w : Await} (h : TaskStep s gen w a r) : Calls s r.1 := by
  cases h with
  | startup h =>
      exact h.calls
  | apply h =>
      exact h.calls
  | check h =>
      exact h.calls
  | dbExport h =>
      exact h.calls

end Step

theorem State.asyncStart_armed (s : State) (gen : ℕ) : (s.asyncStart gen).1.armed = s.armed := by
  unfold State.asyncStart
  dsimp only
  split
  case isTrue =>
      split <;> rfl
  case isFalse =>
      split <;> rfl

/-- A step of the plugin, other than a `start()` or a `stop()`. -/
theorem calls_step {p p' : System} {a : Action} (hstart : ∀ config, a ≠ .start config)
    (hstop : a ≠ .stop) (hs : pluginStep p a = some p') : Calls p.state p'.state := by
  have hexport : a.exports = true → Calls p.state p'.state := by
    intro hexports
    rcases export_state hexports hs with hsame | ⟨body, options, hsave⟩
    · exact .of_armed (congrArg State.armed hsame)
    · exact .of_armed (State.setDbExport_armed hsave)
  cases a with
  | start config => exact absurd rfl (hstart config)
  | stop => exact absurd rfl hstop
  | settle i o =>
      rcases settle_cases hs with ⟨t, r, _, hstep, rfl⟩
      exact hstep.calls
  | apply manager tag valid =>
      cases hs
      unfold System.apply
      split
      case isTrue =>
          exact .of_armed rfl
      case isFalse =>
          have harmed := congrArg State.armed
            (applyServerUpdate_frame p.state (requestedTag p.state tag))
          exact .of_armed harmed
  | timer =>
      simp only [pluginStep, Option.map_eq_some_iff] at hs
      rcases hs with ⟨timer, _, rfl⟩
      have harmed := congrArg State.armed
        (checkServerUpdate_state p.state.stopServerUpdateTimer timer.gen)
      exact .of_timers ⟨_, _, harmed⟩
  | dbExport body =>
      exact hexport rfl
  | backup =>
      exact hexport rfl
  | exportTick =>
      exact hexport rfl
  | hostRestore running =>
      cases hs
      exact .of_armed rfl

/-! ## The plugin with its reporter and its subscribers -/

structure Assembly where
  plugin : System
  uplink : Uplink.World Client
  streams : Deltas.Streams
  /-- `stop()` was called, and `start()` not since. -/
  stopped : Bool

inductive AssemblyAction
  /-- A step of the plugin; a reporter that it starts is delivered `cached`. -/
  | plugin (a : Action) (cached : List Uplink.Delta)
  | uplink (a : Uplink.Action Client)
  | stream (a : Deltas.Streams.Action)

/-- What a step of the plugin calls of the reporter. -/
def callReporter (hasPluginsList : Bool) (cached : List Uplink.Delta) (a : Action) (s s' : State)
    (w : Uplink.World Client) : Uplink.World Client :=
  let w := { w with target := s'.client }
  match a with
  | .start _ => Uplink.stop w
  | .stop => Uplink.stop w
  | _ =>
      if s'.uplinkStarts ≠ s.uplinkStarts then Uplink.start hasPluginsList cached w
      -- `adoptServerAddress` reports to the new server
      else if s'.client ≠ s.client then Uplink.report hasPluginsList w
      else w

/-- What a step of the plugin calls of `signalk-deltas`. -/
def callEmitter (s s' : State) (streams : Deltas.Streams) : Deltas.Streams :=
  match s'.emitter with
  | none => streams.stopSignalKEmitter
  | some url =>
      if s'.emitterStarts ≠ s.emitterStarts then streams.stopSignalKEmitter.startSignalKEmitter url
      else streams

def Action.stops (stopped : Bool) : Action → Bool
  | .start _ => false
  | .stop => true
  | _ => stopped

def assemblyStep (hasPluginsList : Bool) (parse : List Char → Option Deltas.Event) (p : Assembly) :
    AssemblyAction → Option Assembly
  | .plugin a cached =>
      (pluginStep p.plugin a).map fun plugin =>
        { plugin
          uplink := callReporter hasPluginsList cached a p.plugin.state plugin.state p.uplink
          streams := callEmitter p.plugin.state plugin.state p.streams
          stopped := a.stops p.stopped }
  | .uplink a =>
      if a.own then (Uplink.step hasPluginsList p.uplink a).map fun uplink => { p with uplink }
      else none
  | .stream a => (p.streams.step parse a).map fun streams => { p with streams }

def assembly (hasPluginsList : Bool) (parse : List Char → Option Deltas.Event) :
    Machine Assembly AssemblyAction where
  step := assemblyStep hasPluginsList parse

/-- Signal K has just loaded the plugin. -/
structure Assembled (p : Assembly) : Prop where
  plugin : Loaded p.plugin
  emitter : p.plugin.state.emitter = none
  uplinkStarted : p.plugin.state.uplinkStarted = false
  uplink : ∃ now stored, p.uplink = { target := none, now, stored }
  subscribers : p.streams.subscribers = []
  state : p.streams.state = none
  stopped : p.stopped = false

def unassembled : Assembly :=
  { plugin := unstarted
    uplink := { target := none, now := 0, stored := fun _ => none }
    streams := { selfId := "urn:mrn:imo:mmsi:230000000" }
    stopped := false }

theorem unassembled_assembled : Assembled unassembled :=
  ⟨unstarted_loaded, rfl, rfl, ⟨0, fun _ => none, rfl⟩, rfl, rfl, rfl⟩

section Run

variable {hasPluginsList : Bool} {parse : List Char → Option Deltas.Event} {p p' : Assembly}

theorem uplink_cases {a : Uplink.Action Client}
    (hs : assemblyStep hasPluginsList parse p (.uplink a) = some p') :
    a.own = true ∧ ∃ w, Uplink.step hasPluginsList p.uplink a = some w ∧
      p' = { p with uplink := w } := by
  simp only [assemblyStep] at hs
  split at hs
  case isTrue hown =>
      rcases Option.map_eq_some_iff.1 hs with ⟨w, hw, rfl⟩
      exact ⟨hown, w, hw, rfl⟩
  case isFalse =>
      cases hs

theorem callEmitter_sound {s s' : State} {streams : Deltas.Streams} (h : streams.Sound) :
    (callEmitter s s' streams).Sound := by
  unfold callEmitter
  split
  case h_1 =>
      exact h.stopSignalKEmitter
  case h_2 url _ =>
      split
      case isTrue =>
          exact h.stopSignalKEmitter.startSignalKEmitter url
      case isFalse =>
          exact h

theorem sound_step (h : p.streams.Sound) {a : AssemblyAction}
    (hs : assemblyStep hasPluginsList parse p a = some p') : p'.streams.Sound := by
  cases a with
  | plugin a cached =>
      rcases Option.map_eq_some_iff.1 hs with ⟨q, _, rfl⟩
      exact callEmitter_sound h
  | uplink a =>
      rcases uplink_cases hs with ⟨_, w, _, rfl⟩
      exact h
  | stream a =>
      rcases Option.map_eq_some_iff.1 hs with ⟨streams, hstreams, rfl⟩
      exact (h.step hstreams).1

/-- What the plugin's state says about its reporter and its subscriber is what they are. -/
structure Synced (p : Assembly) : Prop where
  subscriber : p.streams.running = p.plugin.state.emitter
  reporter : Uplink.Running p.uplink ↔ p.plugin.state.uplinkStarted = true
  target : p.uplink.target = p.plugin.state.client

theorem Assembled.synced (h : Assembled p) : Synced p := by
  rcases h.uplink with ⟨now, stored, huplink⟩
  have hclient : p.plugin.state.client = none := h.plugin.2.2.2.1
  refine ⟨?_, ?_, ?_⟩
  · rw [h.emitter, Deltas.Streams.running, h.state]
    rfl
  · rw [huplink, h.uplinkStarted]
    simp [Uplink.Running]
  · rw [huplink, hclient]

theorem callEmitter_running {s s' : State} {streams : Deltas.Streams}
    (h : streams.running = s.emitter)
    (hcalls : s'.emitterStarts = s.emitterStarts → s'.emitter = none ∨ s'.emitter = s.emitter) :
    (callEmitter s s' streams).running = s'.emitter := by
  unfold callEmitter
  split
  case h_1 hnone =>
      rw [hnone]
      exact Deltas.Streams.running_stop
  case h_2 url hsome =>
      split
      case isTrue =>
          rw [hsome]
          exact Deltas.Streams.running_start Deltas.Streams.stopSignalKEmitter_state url
      case isFalse hsame =>
          rcases hcalls (not_not.1 hsame) with hnone | hold
          · rw [hsome] at hnone
            cases hnone
          · exact h.trans hold.symm

/-- The reporter is asked to report to the new client, or is left alone. -/
theorem callReporter_synced {s s' : State} {w : Uplink.World Client} {a : Action}
    {cached : List Uplink.Delta} (hstart : ∀ config, a ≠ .start config) (hstop : a ≠ .stop)
    (h : Uplink.Running w ↔ s.uplinkStarted = true) (hcalls : Calls s s') :
    (Uplink.Running (callReporter hasPluginsList cached a s s' w) ↔ s'.uplinkStarted = true) ∧
      (callReporter hasPluginsList cached a s s' w).target = s'.client := by
  unfold callReporter
  split
  case h_1 config => exact absurd rfl (hstart config)
  case h_2 => exact absurd rfl hstop
  case h_3 =>
      split
      case isTrue hstarts =>
          have hrunning := Uplink.start_running hasPluginsList cached { w with target := s'.client }
          exact ⟨iff_of_true hrunning.1 (hcalls.started hstarts), hrunning.2⟩
      case isFalse hsame =>
          have hkept := hcalls.kept (not_not.1 hsame)
          have hrunning : Uplink.Running { w with target := s'.client } ↔
              s'.uplinkStarted = true := by
            rw [hkept]
            exact h
          split
          case isTrue =>
              -- the new server is sent a report, and nothing is started
              have hgoes := Uplink.report_goes hasPluginsList { w with target := s'.client }
              exact ⟨hgoes.running.trans hrunning, hgoes.target⟩
          case isFalse =>
              exact ⟨hrunning, rfl⟩

theorem synced_plugin (h : Synced p) {a : Action} {cached : List Uplink.Delta}
    (hs : assemblyStep hasPluginsList parse p (.plugin a cached) = some p') : Synced p' := by
  rcases Option.map_eq_some_iff.1 hs with ⟨q, hq, rfl⟩
  by_cases hstart : ∃ config, a = .start config
  · -- start() stops the reporter and leaves the subscriber
    rcases hstart with ⟨config, rfl⟩
    cases hq
    have harmed := (p.plugin.state.start config).asyncStart_armed
      (p.plugin.state.start config).lifecycleGeneration
    refine ⟨callEmitter_running h.subscriber fun _ => Or.inr (congrArg Armed.emitter harmed), ?_, rfl⟩
    have hstarted := congrArg Armed.uplinkStarted harmed
    exact iff_of_false (by simp [callReporter, Uplink.stop, Uplink.Running])
      (by rw [Bool.not_eq_true]; exact hstarted)
  · by_cases hstop : a = .stop
    · -- stop() stops both
      subst hstop
      cases hq
      exact ⟨callEmitter_running h.subscriber fun _ => Or.inl rfl,
        iff_of_false (by simp [callReporter, Uplink.stop, Uplink.Running]) Bool.false_ne_true, rfl⟩
    · have hnotStart : ∀ config, a ≠ .start config := fun config ha => hstart ⟨config, ha⟩
      have hcalls := calls_step hnotStart hstop hq
      refine ⟨callEmitter_running h.subscriber hcalls.emitter, ?_, ?_⟩
      · exact (callReporter_synced hnotStart hstop h.reporter hcalls).1
      · exact (callReporter_synced hnotStart hstop h.reporter hcalls).2

theorem synced_step (h : Synced p) {a : AssemblyAction}
    (hs : assemblyStep hasPluginsList parse p a = some p') : Synced p' := by
  cases a with
  | plugin a cached =>
      exact synced_plugin h hs
  | uplink a =>
      rcases uplink_cases hs with ⟨hown, w, hw, rfl⟩
      have hgoes := Uplink.step_goes hown hw
      exact ⟨h.subscriber, hgoes.running.trans h.reporter, hgoes.target.trans h.target⟩
  | stream a =>
      rcases Option.map_eq_some_iff.1 hs with ⟨streams, hstreams, rfl⟩
      exact ⟨(Deltas.Streams.running_step hstreams).trans h.subscriber, h.reporter, h.target⟩

/-- In every state reached from the load, `client`, the subscriber of the plugin's state and its
`uplinkStarted` are those of the machines. -/
theorem reachable_synced {C : Assembly → AssemblyAction → Prop}
    (h : (assembly hasPluginsList parse).ReachableUnder C Assembled p) : Synced p :=
  h.invariant (fun _ hassembled => hassembled.synced) fun _ _ _ hsynced _ hs =>
    synced_step hsynced hs

end Run

end Plugin
end SignalKBackup
