import SignalKBackup.Client.Request

/-!
# Idle — `isIdle`, three requests at once

`BackupClient.isIdle`: the three restore statuses are read side by side under `Promise.all`, and
`true` lets an automatic update restart the server.  The first request that fails decides; the
others stay under way and end on their own.

* `Checked` is the invariant: what each request is, and what the outcome says about them.
* `reachable_checked`: the outcome is `true` only if all three routes have answered, within the
  timeout, with a settled state; it is there when the timeout has passed, and no request or timer
  outlives it.
-/

namespace SignalKBackup
namespace Client

open Lib
open Timed (Move)

/-! ## The three statuses -/

/-- States in which no restore is running: the flow either never started or has ended. -/
def SETTLED_RESTORE_STATES : List String :=
  ["idle", "completed", "failed", "rolled_back"]

/-- "ready" is not settled: the user is choosing what to restore from the cloud. -/
def SETTLED_CLOUD_RESTORE_PHASES : List String :=
  ["idle", "failed"]

/-- The default of `timeoutMs`. -/
def REQUEST_MS : ℕ := 10000

/-- A route that `isIdle` reads, and how it reads the answer. -/
structure StatusRoute where
  path : String
  key : String
  settled : List String

def statusRoutes : List StatusRoute :=
  [{ path := "/api/backups/restore/status", key := "state", settled := SETTLED_RESTORE_STATES },
    { path := "/api/backups/restore-partial/status", key := "state", settled := SETTLED_RESTORE_STATES },
    { path := "/api/cloud/restore/status", key := "cloudPhase", settled := SETTLED_CLOUD_RESTORE_PHASES }]

/-- `v.key`; there is none of `undefined` and `null`, where it throws. -/
def property (key : String) : Option Json → Option (Option Json)
  | none => none
  | some .null => none
  | some (.object members) => some (members.lookup key)
  | some _ => some none

/-- `SET.has(v ?? '')` -/
def has (set : List String) : Option Json → Bool
  | none => set.contains ""
  | some .null => set.contains ""
  | some (.string s) => set.contains s
  | some _ => false

/-- The operand of `&&` for a route; the `catch` block makes `false` of a throw. -/
def StatusRoute.isSettled (route : StatusRoute) (v : Option Json) : Bool :=
  ((property route.key v).map (has route.settled)).getD false

/-! ## The call -/

structure Checking where
  requests : List Request
  /-- What `isIdle` returned. -/
  outcome : Option Bool

def Request.result (r : Request) : Option Result :=
  match r.await with
  | .ended result => some result
  | _ => none

/-- What `Promise.all` waits for; a result that there is not yet is `none`. -/
def fulfilled : Option Result → Option (Option Json)
  | some (.ok v) => some v
  | _ => none

def isRejected : Option Result → Bool
  | some (.error _) => true
  | _ => false

/-- `Promise.all` of the results so far, and what follows it. -/
def verdict (results : List (Option Result)) : Option Bool :=
  -- the first rejection rejects the whole
  if results.any isRejected then some false
  else (results.mapM fulfilled).map fun vs => (statusRoutes.zip vs).all fun p => p.1.isSettled p.2

def Checking.joined (s : Checking) : Checking :=
  if s.outcome.isSome then s else { s with outcome := verdict (s.requests.map Request.result) }

inductive CheckEvent
  /-- The promise that a request awaits settles. -/
  | answers (i : ℕ) (a : Answer)
  /-- The timer of a request fires. -/
  | timeout (i : ℕ)

def Checking.step (now : ℕ) (s : Checking) : CheckEvent → Option Checking
  | .answers i a =>
      (s.requests[i]?.bind fun r : Request => r.settle a).map fun r =>
        ({ s with requests := s.requests.set i r } : Checking).joined
  | .timeout i =>
      (s.requests[i]?.bind fun r : Request => r.expire now).map fun r =>
        { s with requests := s.requests.set i r }

def checking : Timed Checking CheckEvent where
  step := Checking.step
  due s := s.requests.flatMap Request.due

/-- `isIdle`, up to its await. -/
def isIdle (now : ℕ) : Checking where
  requests := statusRoutes.map fun route => .make now route.path REQUEST_MS none
  outcome := none

/-- The call has just been made. -/
def Asks (start : ℕ) (c : Clocked Checking) : Prop :=
  c = { now := start, state := isIdle start }

/-! ## The verdict -/

section Verdict

theorem fulfilled_all (vs : List (Option Json)) :
    (vs.map fun v => some (Except.ok v)).mapM fulfilled = some vs := by
  induction vs with
  | nil =>
      rfl
  | cons v vs ih =>
      simp [List.mapM_cons, fulfilled, ih]

variable {results : List (Option Result)}

theorem fulfilled_none (h : none ∈ results) : results.mapM fulfilled = none := by
  induction results with
  | nil =>
      cases h
  | cons result results ih =>
      rcases List.mem_cons.1 h with rfl | hrest
      · simp [List.mapM_cons, fulfilled]
      · simp [List.mapM_cons, ih hrest]

/-- One has failed, one is under way, or all of them have answered. -/
theorem results_cases (results : List (Option Result)) :
    (∃ message, some (.error message) ∈ results) ∨ none ∈ results ∨
      ∃ vs : List (Option Json), results = vs.map fun v => some (.ok v) := by
  induction results with
  | nil =>
      exact Or.inr (Or.inr ⟨[], rfl⟩)
  | cons result results ih =>
      cases result with
      | none =>
          exact Or.inr (Or.inl List.mem_cons_self)
      | some result =>
          rcases ih with ⟨message, hfailed⟩ | hnone | ⟨vs, rfl⟩
          · exact Or.inl ⟨message, List.mem_cons_of_mem _ hfailed⟩
          · exact Or.inr (Or.inl (List.mem_cons_of_mem _ hnone))
          · cases result with
            | error message =>
                exact Or.inl ⟨message, List.mem_cons_self⟩
            | ok v =>
                exact Or.inr (Or.inr ⟨v :: vs, rfl⟩)

theorem verdict_rejected {message : String} (h : some (.error message) ∈ results) :
    verdict results = some false := by
  have hany : results.any isRejected = true := List.any_eq_true.2 ⟨_, h, rfl⟩
  rw [verdict, if_pos hany]

/-- There is no verdict just when a request is under way and none has failed. -/
theorem verdict_none (h : verdict results = none) :
    none ∈ results ∧ ∀ message, some (.error message) ∉ results := by
  have hclear : ∀ message, some (.error message) ∉ results := by
    intro message hfailed
    rw [verdict_rejected hfailed] at h
    cases h
  refine ⟨?_, hclear⟩
  rcases results_cases results with ⟨message, hfailed⟩ | hnone | ⟨vs, rfl⟩
  · exact absurd hfailed (hclear message)
  · exact hnone
  · unfold verdict at h
    rw [fulfilled_all] at h
    split at h <;> cases h

theorem verdict_some {b : Bool} (h : verdict results = some b) :
    (b = false ∧ ∃ message, some (.error message) ∈ results) ∨
      ∃ vs : List (Option Json), results = vs.map (fun v => some (.ok v)) ∧
        b = (statusRoutes.zip vs).all fun p => p.1.isSettled p.2 := by
  rcases results_cases results with ⟨message, hfailed⟩ | hnone | ⟨vs, rfl⟩
  · rw [verdict_rejected hfailed] at h
    cases h
    exact Or.inl ⟨rfl, message, hfailed⟩
  · unfold verdict at h
    split at h
    case isTrue hany =>
        cases h
        rcases List.any_eq_true.1 hany with ⟨result, hmem, hrejected⟩
        unfold isRejected at hrejected
        split at hrejected
        case h_1 message =>
            exact Or.inl ⟨rfl, message, hmem⟩
        case h_2 =>
            cases hrejected
    case isFalse =>
        rw [fulfilled_none hnone] at h
        cases h
  · refine Or.inr ⟨vs, rfl, ?_⟩
    unfold verdict at h
    rw [fulfilled_all] at h
    split at h
    case isTrue hany =>
        rcases List.any_eq_true.1 hany with ⟨result, hmem, hrejected⟩
        rcases List.mem_map.1 hmem with ⟨v, _, rfl⟩
        cases hrejected
    case isFalse =>
        exact (Option.some.inj h).symm

/-- What is decided stays so, whatever a request that was under way makes of it. -/
theorem verdict_set {i : ℕ} {b : Bool} (h : verdict results = some b) (hi : results[i]? = some none)
    (result : Option Result) : verdict (results.set i result) = some b := by
  rcases verdict_some h with ⟨rfl, message, hfailed⟩ | ⟨vs, rfl, _⟩
  · rcases List.mem_iff_getElem?.1 hfailed with ⟨j, hj⟩
    have hne : i ≠ j := by
      rintro rfl
      cases hi.symm.trans hj
    have hkept : (results.set i result)[j]? = some (some (.error message)) := by
      rwa [List.getElem?_set_ne hne]
    exact verdict_rejected (List.mem_of_getElem? hkept)
  · rw [List.getElem?_map] at hi
    rcases Option.map_eq_some_iff.1 hi with ⟨v, _, hv⟩
    cases hv

end Verdict

/-! ## The invariant -/

/-- A request of the call: under way, or over. -/
structure Asked (start now : ℕ) (route : StatusRoute) (r : Request) : Prop where
  path : r.path = route.path
  timeoutMs : r.timeoutMs = REQUEST_MS
  begun : r.begun = start
  goes : r.Live none now ∨ r.Over
  /-- A value comes out of a successful response. -/
  told : ∀ v, r.result = some (.ok v) → ∃ raw, unwrap route.path raw = .ok v

structure Checked (start now : ℕ) (s : Checking) : Prop where
  length : s.requests.length = statusRoutes.length
  asked : ∀ (i : ℕ) (route : StatusRoute) (r : Request), statusRoutes[i]? = some route →
    s.requests[i]? = some r → Asked start now route r
  outcome : s.outcome = verdict (s.requests.map Request.result)

section Steps

variable {start now : ℕ} {s s' : Checking}

/-- Every request is one of a route. -/
theorem Checked.routed (h : Checked start now s) {i : ℕ} {r : Request}
    (hr : s.requests[i]? = some r) : ∃ route, statusRoutes[i]? = some route ∧ Asked start now route r := by
  have hi : i < statusRoutes.length := by
    rw [← h.length]
    exact (List.getElem?_eq_some_iff.1 hr).1
  exact ⟨_, List.getElem?_eq_getElem hi, h.asked i _ r (List.getElem?_eq_getElem hi) hr⟩

theorem Checked.request (h : Checked start now s) {i : ℕ} {route : StatusRoute}
    (hroute : statusRoutes[i]? = some route) : ∃ r, s.requests[i]? = some r ∧ Asked start now route r := by
  have hi : i < s.requests.length := by
    rw [h.length]
    exact (List.getElem?_eq_some_iff.1 hroute).1
  exact ⟨_, List.getElem?_eq_getElem hi, h.asked i route _ hroute (List.getElem?_eq_getElem hi)⟩

theorem result_live {signal : Option Bool} {r : Request} (h : r.Live signal now) : r.result = none := by
  have hwaits := h.waits
  cases hawait : r.await with
  | ended result =>
      rw [Request.isOver, hawait] at hwaits
      cases hwaits
  | fetch =>
      rw [Request.result, hawait]
  | text status =>
      rw [Request.result, hawait]
  | json =>
      rw [Request.result, hawait]

theorem live_of_result {r : Request} {route : StatusRoute} (h : Asked start now route r)
    (hnone : r.result = none) : r.Live none now := by
  rcases h.goes with hlive | hover
  · exact hlive
  · have hend := hover.done
    unfold Request.isOver at hend
    unfold Request.result at hnone
    split at hend
    case h_1 result hresult =>
        rw [hresult] at hnone
        cases hnone
    case h_2 =>
        cases hend

/-- One request takes a step. -/
theorem asked_set (h : Checked start now s) {i : ℕ} {r r' : Request} (hr : s.requests[i]? = some r)
    (hasked : ∀ route, statusRoutes[i]? = some route → Asked start now route r') :
    ∀ (j : ℕ) (route : StatusRoute) (u : Request), statusRoutes[j]? = some route →
      (s.requests.set i r')[j]? = some u → Asked start now route u := by
  intro j route u hroute hu
  rcases eq_or_ne i j with rfl | hne
  · have hi : i < s.requests.length := (List.getElem?_eq_some_iff.1 hr).1
    rw [List.getElem?_set_self hi] at hu
    cases hu
    exact hasked route hroute
  · rw [List.getElem?_set_ne hne] at hu
    exact h.asked j route u hroute hu

/-- A value comes from the JSON of a response. -/
theorem told_settle {r r' : Request} {a : Answer} (hs : r.settle a = some r') {v : Option Json}
    (hv : r'.result = some (.ok v)) : ∃ raw, unwrap r.path raw = .ok v := by
  rcases Request.settle_cases hs with ⟨w, rfl, _, hw⟩ | ⟨raw, u, _, _, hunwrap, rfl⟩ | ⟨message, _, rfl⟩
  · rcases hw with rfl | ⟨status, rfl⟩ <;> cases hv
  · cases hv
    exact ⟨raw, hunwrap⟩
  · cases hv

theorem checked_answers (h : Checked start now s) {i : ℕ} {a : Answer}
    (hs : s.step now (.answers i a) = some s') : Checked start now s' := by
  rcases Option.map_eq_some_iff.1 hs with ⟨r', hsettle, rfl⟩
  rcases Option.bind_eq_some_iff.1 hsettle with ⟨r, hr, hr'⟩
  rcases h.routed hr with ⟨route, hroute, hasked⟩
  rcases Request.settle_begun hr' with ⟨hbegun, hpath, htimeout⟩
  have hlive : r.Live none now := by
    rcases hasked.goes with hlive | hover
    · exact hlive
    · rw [hover.settle a] at hr'
      cases hr'
  have hasked' : ∀ route, statusRoutes[i]? = some route → Asked start now route r' := by
    intro route' hroute'
    cases hroute.symm.trans hroute'
    refine ⟨hpath.trans hasked.path, htimeout.trans hasked.timeoutMs, hbegun.trans hasked.begun,
      Request.live_settle hlive hr', fun v hv => ?_⟩
    exact hasked.path ▸ told_settle hr' hv
  have hset := asked_set h hr hasked'
  have hlength : (s.requests.set i r').length = statusRoutes.length := by
    rw [List.length_set, h.length]
  unfold Checking.joined
  split
  case isTrue hdecided =>
      refine ⟨hlength, hset, ?_⟩
      rcases Option.isSome_iff_exists.1 hdecided with ⟨b, hb⟩
      have hopen : (s.requests.map Request.result)[i]? = some none := by
        rw [List.getElem?_map, hr, Option.map_some, result_live hlive]
      have hkept := verdict_set (h.outcome.symm.trans hb) hopen r'.result
      rw [← List.map_set] at hkept
      exact hb.trans hkept.symm
  case isFalse hopen =>
      exact ⟨hlength, hset, rfl⟩

theorem checked_timeout (h : Checked start now s) {i : ℕ}
    (hs : s.step now (.timeout i) = some s') : Checked start now s' := by
  rcases Option.map_eq_some_iff.1 hs with ⟨r', hexpire, rfl⟩
  rcases Option.bind_eq_some_iff.1 hexpire with ⟨r, hr, hr'⟩
  rcases h.routed hr with ⟨route, hroute, hasked⟩
  have hlive : r.Live none now := by
    rcases hasked.goes with hlive | hover
    · exact hlive
    · rw [hover.expire] at hr'
      cases hr'
  rcases Request.live_expire hlive hr' with ⟨hlive', _, _, hawait, hbegun, htimeout⟩
  have hresult : r'.result = r.result := by
    unfold Request.result
    rw [hawait]
  have hpath : r'.path = r.path := by
    unfold Request.expire at hr'
    split at hr' <;> cases hr'
    rfl
  refine ⟨?_, asked_set h hr fun route' hroute' => ?_, ?_⟩
  · rw [List.length_set, h.length]
  · cases hroute.symm.trans hroute'
    refine ⟨hpath.trans hasked.path, htimeout.trans hasked.timeoutMs, hbegun.trans hasked.begun,
      Or.inl hlive', fun v hv => ?_⟩
    exact hasked.told v (hresult.symm.trans hv)
  · -- the results are what they were
    have hsame : (s.requests.map Request.result)[i]? = some r'.result := by
      rw [List.getElem?_map, hr, Option.map_some, hresult]
    have hset : (s.requests.map Request.result).set i r'.result = s.requests.map Request.result := by
      rcases List.getElem?_eq_some_iff.1 hsame with ⟨hi, hget⟩
      rw [← hget, List.set_getElem_self]
    dsimp only
    rw [List.map_set, hset, h.outcome]

theorem checked_passes (h : Checked start now s) {ms : ℕ} (hdue : checking.InTime (now + ms) s) :
    Checked start (now + ms) s := by
  refine ⟨h.length, fun i route r hroute hr => ?_, h.outcome⟩
  have hasked := h.asked i route r hroute hr
  refine ⟨hasked.path, hasked.timeoutMs, hasked.begun, ?_, hasked.told⟩
  rcases hasked.goes with hlive | hover
  · refine Or.inl (hlive.passes fun t ht => hdue t ?_)
    exact List.mem_flatMap.2 ⟨r, List.mem_of_getElem? hr, ht⟩
  · exact Or.inr hover

end Steps

theorem checked_isIdle (start : ℕ) : Checked start start (isIdle start) := by
  refine ⟨rfl, fun i route r hroute hr => ?_, rfl⟩
  simp only [isIdle, List.getElem?_map, hroute, Option.map_some] at hr
  cases hr
  exact ⟨rfl, rfl, rfl, Or.inl (Request.live_make _ _ _ _), nofun⟩

/-! ## Runs -/

section Runs

variable {start : ℕ} {c : Clocked Checking}

theorem reachable_invariant (h : checking.machine.Reachable (Asks start) c) :
    Checked start c.now c.state := by
  refine Timed.invariant h ?_ (fun now ms s hchecked hdue => checked_passes hchecked hdue) ?_
  · rintro _ rfl
    exact checked_isIdle start
  · intro now s e s' hchecked _ hs
    cases e with
    | answers i a =>
        exact checked_answers hchecked hs
    | timeout i =>
        exact checked_timeout hchecked hs

/-- What an answer of the route says: it came, and the state is settled. -/
def SaysSettled (route : StatusRoute) (r : Request) : Prop :=
  ∃ raw v, unwrap route.path raw = .ok v ∧ r.result = some (.ok v) ∧ route.isSettled v = true

/-- What the caller can rely on. -/
structure Checks (start : ℕ) (c : Clocked Checking) : Prop where
  /-- It is `true` just when each of the routes has answered with a settled state. -/
  idle : c.state.outcome = some true ↔ ∀ (i : ℕ) (route : StatusRoute),
    statusRoutes[i]? = some route → ∃ r, c.state.requests[i]? = some r ∧ SaysSettled route r
  /-- A request that has failed has made it `false`, whatever the others do. -/
  busy : ∀ r ∈ c.state.requests, ∀ message, r.result = some (.error message) →
    c.state.outcome = some false
  /-- The caller waits no longer than one request may take, and can go on. -/
  pending : c.state.outcome = none →
    c.now ≤ start + REQUEST_MS ∧ ∃ m c', checking.machine.step c m = some c' ∧ c'.now = c.now
  /-- The answer does not change. -/
  final : ∀ b m c', c.state.outcome = some b → checking.machine.step c m = some c' →
    c'.state.outcome = some b
  /-- What is left of the other requests ends with their timeouts. -/
  quiet : start + REQUEST_MS < c.now → ∀ r ∈ c.state.requests, r.Over

theorem Checked.idle_iff (h : Checked start c.now c.state) : c.state.outcome = some true ↔
    ∀ (i : ℕ) (route : StatusRoute), statusRoutes[i]? = some route →
      ∃ r, c.state.requests[i]? = some r ∧ SaysSettled route r := by
  constructor
  · intro htrue i route hroute
    rcases verdict_some (h.outcome.symm.trans htrue) with ⟨hfalse, _⟩ | ⟨vs, hvs, hall⟩
    · cases hfalse
    · rcases h.request hroute with ⟨r, hr, hasked⟩
      have hat : (c.state.requests.map Request.result)[i]? = some r.result := by
        rw [List.getElem?_map, hr, Option.map_some]
      rw [hvs, List.getElem?_map] at hat
      rcases Option.map_eq_some_iff.1 hat with ⟨v, hv, hresult⟩
      rcases hasked.told v hresult.symm with ⟨raw, hraw⟩
      have hmem : (route, v) ∈ statusRoutes.zip vs :=
        List.mem_of_getElem? (List.getElem?_zip_eq_some.2 ⟨hroute, hv⟩)
      exact ⟨r, hr, raw, v, hraw, hresult.symm, List.all_eq_true.1 hall.symm _ hmem⟩
  · intro hsettled
    -- every result is the value of a settled route
    have hat : ∀ (i : ℕ) (result : Option Result),
        (c.state.requests.map Request.result)[i]? = some result →
          ∃ route v, statusRoutes[i]? = some route ∧ result = some (.ok v) ∧ route.isSettled v = true := by
      intro i result hresult
      rw [List.getElem?_map] at hresult
      rcases Option.map_eq_some_iff.1 hresult with ⟨r, hr, rfl⟩
      rcases h.routed hr with ⟨route, hroute, _⟩
      rcases hsettled i route hroute with ⟨r', hr', raw, v, _, hv, hyes⟩
      cases hr.symm.trans hr'
      exact ⟨route, v, hroute, hv, hyes⟩
    have hmem : ∀ result ∈ c.state.requests.map Request.result, ∃ v, result = some (.ok v) := by
      intro result hresult
      rcases List.mem_iff_getElem?.1 hresult with ⟨i, hi⟩
      rcases hat i result hi with ⟨_, v, _, hv, _⟩
      exact ⟨v, hv⟩
    cases hverdict : verdict (c.state.requests.map Request.result) with
    | none =>
        rcases hmem none (verdict_none hverdict).1 with ⟨v, hv⟩
        cases hv
    | some b =>
        rw [h.outcome, hverdict]
        rcases verdict_some hverdict with ⟨_, message, hfailed⟩ | ⟨vs, hvs, rfl⟩
        · rcases hmem _ hfailed with ⟨v, hv⟩
          cases hv
        · refine congrArg some (List.all_eq_true.2 fun p hp => ?_)
          rcases List.mem_iff_getElem?.1 hp with ⟨i, hi⟩
          rcases List.getElem?_zip_eq_some.1 hi with ⟨hroute, hv⟩
          rcases hat i (some (.ok p.2)) (by rw [hvs, List.getElem?_map, hv]; rfl) with
            ⟨route, v, hroute', hv', hyes⟩
          cases hroute.symm.trans hroute'
          cases hv'
          exact hyes

theorem Checked.goesOn (h : Checked start c.now c.state) (hopen : c.state.outcome = none) :
    c.now ≤ start + REQUEST_MS ∧ ∃ m c', checking.machine.step c m = some c' ∧ c'.now = c.now := by
  have hnone := (verdict_none (h.outcome.symm.trans hopen)).1
  rcases List.mem_iff_getElem?.1 hnone with ⟨i, hi⟩
  rw [List.getElem?_map] at hi
  rcases Option.map_eq_some_iff.1 hi with ⟨r, hr, hresult⟩
  rcases h.routed hr with ⟨route, _, hasked⟩
  have hlive := live_of_result hasked hresult
  have hlate := hlive.inTime
  have htimer : timerMs REQUEST_MS = REQUEST_MS := rfl
  rw [hasked.begun, hasked.timeoutMs, htimer] at hlate
  rcases Request.settle_rejects hlive.waits "" with ⟨r', hr'⟩
  refine ⟨hlate, .acts (.answers i (.rejects "")),
    { c with state := ({ c.state with requests := c.state.requests.set i r' } : Checking).joined }, ?_, rfl⟩
  simp [checking, Timed.machine, Checking.step, hr, hr']

theorem Checked.stays {b : Bool} {m : Move CheckEvent} {c' : Clocked Checking}
    (hb : c.state.outcome = some b) (hs : checking.machine.step c m = some c') :
    c'.state.outcome = some b := by
  rcases Timed.machine_step hs with ⟨ms, rfl, _, _, rfl⟩ | ⟨e, s, rfl, hact, rfl⟩
  · exact hb
  · cases e with
    | answers i a =>
        rcases Option.map_eq_some_iff.1 hact with ⟨r, _, rfl⟩
        simp [Checking.joined, hb]
    | timeout i =>
        rcases Option.map_eq_some_iff.1 hact with ⟨r, _, rfl⟩
        exact hb

theorem Checked.ended (h : Checked start c.now c.state) (hlate : start + REQUEST_MS < c.now) :
    ∀ r ∈ c.state.requests, r.Over := by
  intro r hr
  rcases List.mem_iff_getElem?.1 hr with ⟨i, hi⟩
  rcases h.routed hi with ⟨route, _, hasked⟩
  rcases hasked.goes with hlive | hover
  · have hin := hlive.inTime
    have htimer : timerMs REQUEST_MS = REQUEST_MS := rfl
    rw [hasked.begun, hasked.timeoutMs, htimer] at hin
    exact absurd hlate (Nat.not_lt.2 hin)
  · exact hover

/-- Whatever the server answers, and in whichever order. -/
theorem reachable_checked (h : checking.machine.Reachable (Asks start) c) : Checks start c := by
  have hchecked := reachable_invariant h
  refine ⟨hchecked.idle_iff, fun r hr message hfailed => ?_, hchecked.goesOn,
    fun b m c' hb hs => Checked.stays hb hs, hchecked.ended⟩
  rw [hchecked.outcome]
  exact verdict_rejected (List.mem_map.2 ⟨r, hr, hfailed⟩)

end Runs

/-! ## A server at rest -/

/-- The body of a settled state. -/
def stateIs (key state : String) : Answer :=
  .value (.object [("success", .bool true), ("data", .object [(key, .string state)])])

/-- The three answers come in another order than they were asked for. -/
def atRest : List (Move CheckEvent) :=
  [.acts (.answers 2 (.responds true 200)), .passes 30, .acts (.answers 0 (.responds true 200)),
    .acts (.answers 2 (stateIs "cloudPhase" "idle")), .acts (.answers 0 (stateIs "state" "rolled_back")),
    .acts (.answers 1 (.responds true 200)), .passes 5, .acts (.answers 1 (stateIs "state" "completed"))]

theorem reachable_checked_atRest : ∃ c,
    checking.machine.run { now := 100, state := isIdle 100 } atRest = some c ∧
      c.state.outcome = some true ∧ Checks 100 c := by
  obtain ⟨c, hc, hidle⟩ : ∃ c,
      checking.machine.run { now := 100, state := isIdle 100 } atRest = some c ∧
        c.state.outcome = some true := ⟨_, rfl, rfl⟩
  exact ⟨c, hc, hidle, reachable_checked (Machine.Reachable.run (.init rfl) hc)⟩

end Client
end SignalKBackup
