import SignalKBackup.Plugin.Connected

/-!
# Ready — what `ready` says about the server

`GET /status` answers `ready` as soon as there is a client.  `Health` records which servers have
answered a health check in the current lifecycle, and forgets the container's answers when the
container is recreated; the plugin keeps no such record.

`reachable_ready`: `ready` means an answer, in runs in which no container is recreated under a
published client and "Apply update" takes over no address before it has answered.
-/

namespace SignalKBackup
namespace Plugin

open Lib

/-! ## The route -/

/-- `ready` in the answer of `GET /status`, for the container state that `getInfo()` reports. -/
def statusReady (s : State) (containerState : String) : Bool :=
  let managed := (s.settings.map Settings.managedContainer).getD true
  s.client.isSome && (!managed || containerState == "running")

/-! ## Health checks, as they are answered -/

/-- The external server whose health check is answered. -/
def Await.answersExternal : Await → Settle → Option String
  | .startup (.external url), .ok => some url
  | _, _ => none

/-- The address at which the container answers a health check. -/
def Await.answers : Await → Settle → Option String
  -- `container.start` resolves once the container answers
  | .startup (.container _), .address (some address) => some address
  | .apply (.health _ addr _), .ok => some (httpAddress addr)
  | .apply (.install _ (.health _ addr)), .ok => some (httpAddress addr)
  | .check (.install _ (.health _ addr)), .ok => some (httpAddress addr)
  | _, _ => none

/-- A recreate has put another container in the place of this one; where it fails, the old container
may still be there, or none. -/
def Settle.replaces (current : Option String) : Settle → Bool
  | .ok => true
  | .recreateFails container => container.isSome && container != current
  | _ => false

/-- A recreate of the container ends. -/
def Await.recreated (current : Option String) : Await → Settle → Bool
  | .apply (.recreate _ _), a => a.replaces current
  | .apply (.install _ (.recreate _ _)), a => a.replaces current
  | .check (.install _ (.recreate _ _)), a => a.replaces current
  | _, _ => false

/-- The base URLs that have answered `/api/health` in the current lifecycle. -/
structure Health where
  external : List String := []
  /-- Of the container, since it was last recreated. -/
  container : List String := []
  deriving DecidableEq

namespace Health

def Answered (h : Health) (url : String) : Prop :=
  url ∈ h.external ∨ url ∈ h.container

instance (h : Health) (url : String) : Decidable (h.Answered url) :=
  inferInstanceAs (Decidable (_ ∨ _))

def settle (h : Health) (current : Option String) (w : Await) (a : Settle) : Health :=
  { external := (w.answersExternal a).toList ++ h.external
    container := (w.answers a).toList ++ if w.recreated current a then [] else h.container }

def after (h : Health) (p : System) : Action → Health
  | .start _ => {}
  | .stop => {}
  | .settle i a =>
      match p.tasks[i]? with
      | some t => h.settle p.state.container t.await a
      | none => h
  | _ => h

end Health

/-- The plugin, with the health checks its servers have answered. -/
def monitored : Machine (Machine.Watched System Health) Action :=
  plugin.watch fun h p a _ => h.after p a

def Unheard (w : Machine.Watched System Health) : Prop :=
  Loaded w.state ∧ w.record = {}

/-! ## The condition -/

/-- The address that "Apply update" takes over before it asks for its health. -/
def Await.adoptsUnheard : Await → Settle → Option String
  | .apply (.address _ _), .address (some addr) => some (httpAddress addr)
  | _, _ => none

/-- A recreate ends while no client is published, or one of an external server; and "Apply update"
takes over a new address for a client only where the server has answered already. -/
def Careful (w : Machine.Watched System Health) : Action → Prop
  | .settle i a => ∀ t, w.state.tasks[i]? = some t →
      (t.await.recreated w.state.state.container a = true → ∀ c, w.state.state.client = some c →
        c.baseUrl ∈ w.record.external) ∧
      ∀ address, t.await.adoptsUnheard a = some address → w.state.state.client.isSome = true →
        w.state.state.containerAddress ≠ some address → w.record.Answered address
  | _ => True

instance (w : Machine.Watched System Health) (a : Action) : Decidable (Careful w a) :=
  match a with
  | .settle i a => inferInstanceAs
      (Decidable (∀ t ∈ w.state.tasks[i]?,
        (t.await.recreated w.state.state.container a = true → ∀ c ∈ w.state.state.client, c.baseUrl ∈ w.record.external) ∧
        ∀ address ∈ t.await.adoptsUnheard a, w.state.state.client.isSome = true →
          w.state.state.containerAddress ≠ some address → w.record.Answered address))
  | .start _ | .stop | .apply _ _ _ | .timer | .dbExport _ | .backup | .exportTick | .hostRestore _ =>
      inferInstanceAs (Decidable True)

/-- The server behind the client's base URL has answered. -/
def ClientHeard (w : Machine.Watched System Health) : Prop :=
  ∀ c, w.state.state.client = some c → w.record.Answered c.baseUrl

/-! ## What a step does to the record -/

/-- A settled await drops no answer but those of a container that is recreated. -/
theorem Health.settle_answered {h : Health} {current : Option String} {w : Await} {a : Settle}
    {url : String} (hurl : h.Answered url)
    (hkept : w.recreated current a = true → url ∈ h.external) :
    (h.settle current w a).Answered url := by
  rcases hurl with hexternal | hcontainer
  · exact Or.inl (List.mem_append_right _ hexternal)
  · by_cases hrecreated : w.recreated current a = true
    · exact Or.inl (List.mem_append_right _ (hkept hrecreated))
    · refine Or.inr (List.mem_append_right _ ?_)
      rw [if_neg hrecreated]
      exact hcontainer

/-- Nothing is answered in the step that ends a recreate. -/
theorem Await.recreated_answers {w : Await} {a : Settle} {current : Option String}
    (h : w.recreated current a = true) : w.answersExternal a = none ∧ w.answers a = none := by
  unfold Await.recreated at h
  split at h
  case h_1 => exact ⟨rfl, rfl⟩
  case h_2 => exact ⟨rfl, rfl⟩
  case h_3 => exact ⟨rfl, rfl⟩
  case h_4 => cases h

theorem Health.settle_recreated {h : Health} {current : Option String} {w : Await} {a : Settle}
    (hrecreated : w.recreated current a = true) :
    h.settle current w a = { external := h.external, container := [] } := by
  rcases Await.recreated_answers hrecreated with ⟨hexternal, hcontainer⟩
  simp [Health.settle, hexternal, hcontainer, hrecreated]

theorem Health.settle_finishes {w : Await} {a : Settle} {address : String}
    (hfinishes : w.finishes a = some address) (h : Health) (current : Option String) :
    (h.settle current w a).Answered address := by
  unfold Await.finishes at hfinishes
  split at hfinishes
  case h_1 url =>
      cases hfinishes
      exact Or.inl (List.mem_cons_self ..)
  case h_2 image address' =>
      cases hfinishes
      exact Or.inr (List.mem_cons_self ..)
  case h_3 => cases hfinishes

/-- "Apply update" takes over an address without an answer. -/
theorem Health.settle_adoptsUnheard {w : Await} {a : Settle} {address : String}
    (hunheard : w.adoptsUnheard a = some address) (h : Health) (current : Option String) :
    h.settle current w a = h := by
  unfold Await.adoptsUnheard at hunheard
  split at hunheard
  case h_1 => rfl
  case h_2 => cases hunheard

/-- An install adopts an address behind its answer. -/
theorem Await.adopts_cases {w : Await} {a : Settle} {address : String}
    (hadopts : w.adopts a = some address) :
    w.adoptsUnheard a = some address ∨ w.answers a = some address := by
  unfold Await.adopts at hadopts
  split at hadopts
  case h_1 => exact Or.inl hadopts
  case h_2 => exact Or.inr hadopts
  case h_3 => exact Or.inr hadopts
  case h_4 => cases hadopts

theorem adoptsUnheard_state {p p' : System} {i : ℕ} {t : Task} {a : Settle} {address : String}
    (ht : p.tasks[i]? = some t) (hunheard : t.await.adoptsUnheard a = some address)
    (hs : pluginStep p (.settle i a) = some p') :
    p'.state = p.state.adoptServerAddress address := by
  rcases t with ⟨born, gen, await⟩
  unfold Await.adoptsUnheard at hunheard
  split at hunheard
  case h_1 hawait =>
      cases hunheard
      cases hawait
      simp only [pluginStep, ht, Option.bind_some, Task.step, State.applyStep, Option.map_some,
        Option.some.injEq] at hs
      rw [← hs]
  case h_2 => cases hunheard

theorem Await.not_recreated_of_adopts {w : Await} {a : Settle} {address : String}
    (h : w.adopts a = some address) (current : Option String) : w.recreated current a = false := by
  unfold Await.adopts at h
  split at h <;> first | rfl | cases h

theorem Await.not_recreated_of_finishes {w : Await} {a : Settle} {address : String}
    (h : w.finishes a = some address) (current : Option String) : w.recreated current a = false := by
  unfold Await.finishes at h
  split at h <;> first | rfl | cases h

/-- A recreate leaves the client as it is. -/
theorem TaskStep.recreated_client {s : State} {gen : ℕ} {w : Await} {a : Settle} {r : State × Await}
    {current : Option String} (h : TaskStep s gen w a r) (hrecreated : w.recreated current a = true) :
    r.1.client = s.client := by
  cases h.link with
  | calm hcalm =>
      exact hcalm.client
  | adopts hadopts _ =>
      rw [Await.not_recreated_of_adopts hadopts] at hrecreated
      cases hrecreated
  | finishes hfinishes _ _ =>
      rw [Await.not_recreated_of_finishes hfinishes] at hrecreated
      cases hrecreated

/-! ## One step -/

/-- The base URL of an adopted client is the new one, or the client stays. -/
theorem State.adoptServerAddress_baseUrl {s : State} {address : String} {c' : Client}
    (h : (s.adoptServerAddress address).client = some c') :
    s.client = some c' ∨
      c'.baseUrl = address ∧ s.client.isSome = true ∧ s.containerAddress ≠ some address := by
  by_cases hsame : s.containerAddress = some address
  · rw [adoptServerAddress_same_address hsame] at h
    exact Or.inl h
  · cases hclient : s.client with
    | none =>
        rw [adoptServerAddress_none hclient, hclient] at h
        cases h
    | some c =>
        cases hsettings : s.settings with
        | none =>
            rw [adoptServerAddress_unloaded hsettings, hclient] at h
            exact Or.inl h
        | some settings =>
            rw [(adoptServerAddress_new hclient hsettings hsame).1] at h
            cases h
            exact Or.inr ⟨rfl, rfl, hsame⟩

theorem heard_settle {w : Machine.Watched System Health} {i : ℕ} {t : Task} {o : Settle}
    {r : State × Await} (h : ClientHeard w) (hcareful : Careful w (.settle i o))
    (ht : w.state.tasks[i]? = some t) (hstep : TaskStep w.state.state t.gen t.await o r) :
    ∀ c, r.1.client = some c →
      (w.record.settle w.state.state.container t.await o).Answered c.baseUrl := by
  rcases hcareful t ht with ⟨hrecreate, hadopt⟩
  -- a client that stays has been heard, and its answer is not forgotten
  have hstays : ∀ c, w.state.state.client = some c →
      (w.record.settle w.state.state.container t.await o).Answered c.baseUrl := fun c hc =>
    Health.settle_answered (h c hc) fun hrecreated => hrecreate hrecreated c hc
  intro c hc
  cases hstep.link with
  | calm hcalm =>
      rw [hcalm.client] at hc
      exact hstays c hc
  | @adopts address hadopts heq =>
      rw [heq] at hc
      rcases State.adoptServerAddress_baseUrl hc with hold | ⟨hurl, hclient, hnew⟩
      · exact hstays c hold
      · rw [hurl]
        rcases Await.adopts_cases hadopts with hunheard | hanswers
        · -- "Apply update" adopts before the server has answered
          rw [Health.settle_adoptsUnheard hunheard]
          exact hadopt address hunheard hclient hnew
        · -- an install adopts behind the answer
          refine Or.inr ?_
          simp [Health.settle, hanswers]
  | finishes hfinishes _ hfinished =>
      rw [hfinished.client] at hc
      cases hc
      exact Health.settle_finishes hfinishes _ _

theorem heard_step {w w' : Machine.Watched System Health} {a : Action} (h : ClientHeard w)
    (hcareful : Careful w a) (hs : monitored.step w a = some w') : ClientHeard w' := by
  rcases Machine.watch_step_eq_some.1 hs with ⟨hp, hrecord⟩
  change pluginStep w.state a = some w'.state at hp
  intro c hc
  rw [hrecord]
  cases a with
  | start config =>
      have hstarted := Option.some.inj hp
      have hnone := (asyncStart_launched (w.state.state.start config)
        (w.state.state.start config).lifecycleGeneration).client
      rw [← hstarted] at hc
      cases hnone.symm.trans hc
  | stop =>
      have hstopped := Option.some.inj hp
      rw [← hstopped] at hc
      cases hc
  | settle i o =>
      rcases settle_cases hp with ⟨t, r, ht, hstep, heq⟩
      rw [heq] at hc
      simp only [Health.after, ht]
      exact heard_settle h hcareful ht hstep c hc
  | _ =>
      rw [(calm_outside rfl hp).1.client] at hc
      exact h c hc

/-- A step against the condition leaves a client whose server has not answered. -/
theorem careless_not_heard {w w' : Machine.Watched System Health} {a : Action}
    (hconnected : Connected w.state) (hs : monitored.step w a = some w') (hcareless : ¬Careful w a) :
    ¬ClientHeard w' := by
  rcases Machine.watch_step_eq_some.1 hs with ⟨hp, hrecord⟩
  change pluginStep w.state a = some w'.state at hp
  intro h
  apply hcareless
  cases a with
  | settle i o =>
      intro t ht
      rcases settle_cases hp with ⟨t', r, ht', hstep, heq⟩
      cases ht.symm.trans ht'
      have hheard : ∀ c, r.1.client = some c →
          (w.record.settle w.state.state.container t.await o).Answered c.baseUrl := by
        intro c hc
        have hanswered := h c (by rw [heq]; exact hc)
        rw [hrecord] at hanswered
        simpa only [Health.after, ht] using hanswered
      refine ⟨fun hrecreated c hc => ?_, fun address hunheard hclient hnew => ?_⟩
      · -- the client stays, and its container has not answered yet
        have hanswered := hheard c ((hstep.recreated_client hrecreated).trans hc)
        rw [Health.settle_recreated hrecreated] at hanswered
        rcases hanswered with hexternal | hcontainer
        · exact hexternal
        · cases hcontainer
      · -- the client is at the adopted address now, and its server has answered
        rcases Option.isSome_iff_exists.1 hclient with ⟨c, hc⟩
        have hsettings : w.state.state.settings =
            some (w.state.state.settingsObjects w.state.state.lifecycleGeneration) := by
          simp [State.settings, hconnected.published hclient]
        have hadopted := (State.adoptServerAddress_new hc hsettings hnew).1
        have hstate : r.1 = w.state.state.adoptServerAddress address := by
          have hmoved := adoptsUnheard_state ht hunheard hp
          rwa [heq] at hmoved
        have hanswered := hheard _ ((congrArg State.client hstate).trans hadopted)
        rwa [Health.settle_adoptsUnheard hunheard] at hanswered
  | _ => trivial

/-! ## Runs -/

theorem reachable_heard {w : Machine.Watched System Health}
    (h : monitored.ReachableUnder Careful Unheard w) : ClientHeard w := by
  refine h.invariant ?_ fun _ _ _ hheard hcareful hs => heard_step hheard hcareful hs
  rintro w ⟨hloaded, _⟩ c hc
  rw [hloaded.2.2.2.1] at hc
  cases hc

/-- In careful runs, whenever `GET /status` would answer `ready`, the server behind the client's base
URL has answered in this lifecycle, and since its container was last recreated. -/
theorem reachable_ready {w : Machine.Watched System Health} {containerState : String}
    (h : monitored.ReachableUnder Careful Unheard w)
    (hready : statusReady w.state.state containerState = true) :
    ∃ c, w.state.state.client = some c ∧ w.record.Answered c.baseUrl := by
  simp only [statusReady, Bool.and_eq_true] at hready
  rcases Option.isSome_iff_exists.1 hready.1 with ⟨c, hc⟩
  exact ⟨c, hc, reachable_heard h c hc⟩

/-- A pinned tag is applied before the startup is through. -/
theorem reachable_ready_first :
    ∃ w : Machine.Watched System Health,
      monitored.run { state := unstarted, record := {} }
          [.start {}, .apply true (some "0.9.0") true, .settle 0 .ok, .settle 0 (.lookup .noManager),
            .settle 1 .ok, .settle 0 .ok, .settle 0 (.address (some "http://127.0.0.1:3010"))] =
        some w ∧
      ∃ c, w.state.state.client = some c ∧ w.record.Answered c.baseUrl := by
  let actions : List Action :=
    [.start {}, .apply true (some "0.9.0") true, .settle 0 .ok, .settle 0 (.lookup .noManager),
      .settle 1 .ok, .settle 0 .ok, .settle 0 (.address (some "http://127.0.0.1:3010"))]
  obtain ⟨w, hw⟩ : ∃ w, monitored.run { state := unstarted, record := {} } actions = some w :=
    ⟨_, rfl⟩
  have hmeets : monitored.Meets Careful { state := unstarted, record := {} } actions := by
    decide +kernel
  have hreach : monitored.ReachableUnder Careful Unheard w :=
    .run (.init ⟨unstarted_loaded, rfl⟩) hmeets hw
  have hready : statusReady w.state.state "running" = true := by
    cases hw
    rfl
  exact ⟨w, hw, reachable_ready hreach hready⟩

/-- "Apply update" has recreated the container, and it has not answered. -/
theorem reachable_ready_early :
    ¬∀ (w : Machine.Watched System Health) (containerState : String), monitored.Reachable Unheard w →
      statusReady w.state.state containerState = true →
        ∃ c, w.state.state.client = some c ∧ w.record.Answered c.baseUrl := by
  intro hall
  obtain ⟨w, hw⟩ : ∃ w, monitored.run { state := unstarted, record := {} }
      (startsUp {} 0 "http://127.0.0.1:3010" ++
        [.apply true none true, .settle 1 (.update none true), .settle 1 .ok]) = some w := ⟨_, rfl⟩
  have hreach : monitored.Reachable Unheard w :=
    Machine.Reachable.run (.init ⟨unstarted_loaded, rfl⟩) hw
  have hanswered := hall w "running" hreach
  cases hw
  rcases hanswered rfl with ⟨c, hc, hanswered⟩
  cases hc
  exact absurd hanswered (by decide)

end Plugin
end SignalKBackup
