import SignalKBackup.Plugin.Connected

/-!
# Emitter — the subscriber follows the configuration

The SSE subscriber is a singleton whose start does nothing while one is running.  `stop()` and an
adopted address stop the old one first; a `start()` without a `stop()` does not, so a startup may
finish beside the subscriber of the lifecycle before.  `reachable_follows`: in runs in which no
startup does, the subscriber follows the configuration and the address.
-/

namespace SignalKBackup
namespace Plugin

open Lib

/-- `emitSignalKDeltas` of the current lifecycle. -/
def State.emits (s : State) : Bool :=
  s.settings.any Settings.emitSignalKDeltas

/-- Once the startup has finished, which publishes the client, a subscriber runs exactly when the
lifecycle wants one, on the current address. -/
def Follows (s : State) : Prop :=
  s.client.isSome = true →
    (s.emitter.isSome = true ↔ s.emits = true) ∧
      ∀ url, s.emitter = some url → s.containerAddress = some url

/-- The startup of the current lifecycle finishes beside no subscriber, or beside one that is wanted
and runs on the address that has come up. -/
def CleanFinish (p : System) : Action → Prop
  | .settle i a => ∀ t, p.tasks[i]? = some t → t.gen = p.state.lifecycleGeneration →
      ∀ address, t.await.finishes a = some address →
        p.state.emitter = none ∨ (p.state.emitter = some address ∧ p.state.emits = true)
  | _ => True

instance (p : System) (a : Action) : Decidable (CleanFinish p a) :=
  match a with
  | .settle i a => inferInstanceAs
      (Decidable (∀ t ∈ p.tasks[i]?, t.gen = p.state.lifecycleGeneration →
        ∀ address ∈ t.await.finishes a,
          p.state.emitter = none ∨ (p.state.emitter = some address ∧ p.state.emits = true)))
  | .start _ | .stop | .apply _ _ _ | .timer | .dbExport _ | .backup | .exportTick | .hostRestore _ =>
      inferInstanceAs (Decidable True)

/-! ## One step -/

theorem State.Same.emits {s s' : State} (h : s.Same s') : s'.emits = s.emits := by
  unfold State.emits State.settings
  rw [h.currentSettings]
  cases s.currentSettings with
  | none =>
      rfl
  | some g =>
      have hfrozen : (s'.settingsObjects g).emitSignalKDeltas =
          (s.settingsObjects g).emitSignalKDeltas := congrArg Frozen.emitSignalKDeltas (h.frozen g)
      simpa using hfrozen

theorem Follows.of_calm {s s' : State} (h : Follows s) (hcalm : s.Calm s') : Follows s' := by
  intro hclient
  rw [hcalm.client] at hclient
  rw [hcalm.emitter, hcalm.containerAddress, hcalm.toSame.emits]
  exact h hclient

theorem Follows.of_none {s : State} (h : s.client = none) : Follows s := by
  intro hclient
  rw [h] at hclient
  cases hclient

/-- Where an address is adopted, the subscriber moves with it. -/
theorem Follows.adopt {s : State} (h : Follows s) (address : String) :
    Follows (s.adoptServerAddress address) := by
  by_cases hsame : s.containerAddress = some address
  · rw [State.adoptServerAddress_same_address hsame]
    exact h
  · cases hclient : s.client with
    | none =>
        rw [State.adoptServerAddress_none hclient]
        exact h
    | some c =>
        cases hsettings : s.settings with
        | none =>
            rw [State.adoptServerAddress_unloaded hsettings]
            exact h
        | some settings =>
            rcases State.adoptServerAddress_new hclient hsettings hsame with
              ⟨_, haddress, hemitter⟩
            have hemits : (s.adoptServerAddress address).emits = settings.emitSignalKDeltas := by
              rw [(s.adoptServerAddress_same address).emits]
              simp [State.emits, hsettings]
            intro _
            rw [haddress, hemitter, hemits]
            cases settings.emitSignalKDeltas with
            | true =>
                exact ⟨by simp, fun url hurl => hurl⟩
            | false =>
                exact ⟨by simp, nofun⟩

/-- The end of a startup leaves the subscriber in order exactly when it was before. -/
theorem follows_finish_iff {p : System} {i : ℕ} {t : Task} {o : Settle} {r : State × Await}
    {address : String} (hconnected : Connected p) (ht : p.tasks[i]? = some t)
    (hstep : TaskStep p.state t.gen t.await o r) (hgen : t.gen = p.state.lifecycleGeneration)
    (hfinishes : t.await.finishes o = some address) :
    Follows r.1 ↔
      p.state.emitter = none ∨ (p.state.emitter = some address ∧ p.state.emits = true) := by
  have hmem := List.mem_of_getElem? ht
  have hfinished := hstep.finishes hgen hfinishes
  have hsettings : p.state.currentSettings = some t.gen := by
    rw [hgen]
    exact hconnected.object t hmem
      (by simp [Task.startingIn, hgen, Await.starting_of_finishes hfinishes])
  have hemits : p.state.emits = (p.state.settingsObjects t.gen).emitSignalKDeltas := by
    simp [State.emits, State.settings, hsettings]
  -- an external server has its address from the beginning
  have hat : r.1.containerAddress = some address := by
    rcases hfinished.containerAddress with haddress | ⟨hawait, haddress⟩
    · exact haddress
    · rw [haddress]
      exact (hconnected.external t hmem hgen address (by rw [hawait]; rfl)).1
  have hclient : r.1.client.isSome = true := by
    rw [hfinished.client]
    rfl
  have hfollows : Follows r.1 ↔ (r.1.emitter.isSome = true ↔ p.state.emits = true) ∧
      ∀ url, r.1.emitter = some url → some address = some url := by
    rw [← hfinished.same.emits, ← hat]
    exact ⟨fun h => h hclient, fun h _ => h⟩
  -- a subscriber that runs is left as it is, and none is started with the deltas off
  rw [hfollows, hfinished.emitter, ← hemits]
  cases hbefore : p.state.emitter with
  | none =>
      cases hb : p.state.emits with
      | true =>
          simp [Link.subscribed, State.link, hbefore]
      | false =>
          simp [Link.subscribed, State.link, hbefore]
  | some url =>
      cases hb : p.state.emits with
      | true =>
          simp [Link.subscribed, State.link, hbefore, eq_comm]
      | false =>
          simp [Link.subscribed, State.link, hbefore]

theorem follows_settle {p : System} {i : ℕ} {t : Task} {o : Settle} {r : State × Await}
    (hconnected : Connected p) (h : Follows p.state) (hclean : CleanFinish p (.settle i o))
    (ht : p.tasks[i]? = some t) (hstep : TaskStep p.state t.gen t.await o r) : Follows r.1 := by
  cases hstep.link with
  | calm hcalm =>
      exact h.of_calm hcalm
  | adopts _ heq =>
      rw [heq]
      exact h.adopt _
  | finishes hfinishes hgen _ =>
      exact (follows_finish_iff hconnected ht hstep hgen hfinishes).2 (hclean t ht hgen _ hfinishes)

theorem follows_step {p p' : System} {a : Action} (hconnected : Connected p) (h : Follows p.state)
    (hclean : CleanFinish p a) (hs : plugin.step p a = some p') : Follows p'.state := by
  change pluginStep p a = some p' at hs
  cases a with
  | start config =>
      cases hs
      exact .of_none (asyncStart_launched _ _).client
  | stop =>
      cases hs
      exact .of_none rfl
  | settle i o =>
      rcases settle_cases hs with ⟨t, r, ht, hstep, rfl⟩
      exact follows_settle hconnected h hclean ht hstep
  | _ =>
      exact h.of_calm (calm_outside rfl hs).1

/-! ## Runs -/

/-- In runs in which every startup finishes beside no stale subscriber, the subscriber follows the
configuration. -/
theorem reachable_follows {p : System} (h : plugin.ReachableUnder CleanFinish Loaded p) :
    Follows p.state := by
  have hall : Generations p ∧ Connected p ∧ Follows p.state := by
    refine h.invariant (P := fun p => Generations p ∧ Connected p ∧ Follows p.state) ?_ ?_
    · intro p hloaded
      exact ⟨hloaded.generations, hloaded.connected, .of_none hloaded.2.2.2.1⟩
    · rintro p a p' ⟨hgen, hconnected, hfollows⟩ hclean hs
      exact ⟨generations_step hgen hs, connected_step hconnected hgen hs,
        follows_step hconnected hfollows hclean hs⟩
  exact hall.2.2

/-- A startup that finishes beside a stale subscriber leaves it running. -/
theorem stale_not_follows {p p' : System} {i : ℕ} {o : Settle} (hconnected : Connected p)
    (hs : plugin.step p (.settle i o) = some p') (hstale : ¬CleanFinish p (.settle i o)) :
    ¬Follows p'.state := by
  rcases settle_cases hs with ⟨t, r, ht, hstep, rfl⟩
  intro hfollows
  apply hstale
  intro t' ht' hgen address hfinishes
  cases ht.symm.trans ht'
  exact (follows_finish_iff hconnected ht hstep hgen hfinishes).1 hfollows

theorem reachable_follows_restart :
    ∃ p : System, plugin.run unstarted
        (startsUp {} 0 "http://127.0.0.1:3010" ++ [.stop] ++
          startsUp {} 1 "http://127.0.0.1:3011") = some p ∧
      p.state.emitter = some "http://127.0.0.1:3011" ∧ Follows p.state := by
  obtain ⟨p, hp⟩ : ∃ p, plugin.run unstarted
      (startsUp {} 0 "http://127.0.0.1:3010" ++ [.stop] ++
        startsUp {} 1 "http://127.0.0.1:3011") = some p := ⟨_, rfl⟩
  have hmeets : plugin.Meets CleanFinish unstarted
      (startsUp {} 0 "http://127.0.0.1:3010" ++ [.stop] ++
        startsUp {} 1 "http://127.0.0.1:3011") := by decide +kernel
  have hreach : plugin.ReachableUnder CleanFinish Loaded p := .run (.init unstarted_loaded) hmeets hp
  refine ⟨p, hp, ?_, reachable_follows hreach⟩
  cases hp
  rfl

/-- A config saved with the deltas switched off: the subscriber of the lifecycle before goes on. -/
theorem reachable_stale :
    ¬∀ p : System, plugin.Reachable Loaded p → Follows p.state := by
  intro hall
  obtain ⟨p, hp⟩ : ∃ p, plugin.run unstarted
      (startsUp {} 0 "http://127.0.0.1:3010" ++
        startsUp { emitSignalKDeltas := some false } 1 "http://127.0.0.1:3010") = some p := ⟨_, rfl⟩
  have hreach : plugin.Reachable Loaded p := Machine.Reachable.run (.init unstarted_loaded) hp
  have hfollows := hall p hreach
  cases hp
  have hoff := (hfollows rfl).1.1 rfl
  exact absurd hoff (by decide)

end Plugin
end SignalKBackup
