import SignalKBackup.Export.Scheduler

/-!
# ConfigRoute — the configuration of the database export, and when it is in effect

`POST /api/db-export/config` puts the new configuration in place before it is saved, and leaves it
there when saving fails.

* `configRoute` is the machine of the requests and of the saves they wait for, in any order.
* `InOrder` is the condition on a step: a save fails only for a request that changes nothing, and a
  save that is overtaken by a later one carries the same configuration.
* `reachable_inForce`: under it, when no request is in progress, what `GET` returns, what a tick uses
  and what the running interval was armed with is what was saved last, and a request that is answered
  with an error has changed none of them.
-/

namespace SignalKBackup
namespace Export
namespace ConfigRoute

open Lib
open Plugin (State Settings DatabaseExportConfig DbExportBody SCHEMA_DEFAULTS)

/-! ## The route -/

inductive Reply
  | error (status : ℕ) (code message : String)
  | data (cfg : DatabaseExportConfig)
  deriving DecidableEq

/-- What `GET /api/db-export/config` returns. -/
def getConfig (s : State) : DatabaseExportConfig :=
  (s.settings.map Settings.databaseExport).getD SCHEMA_DEFAULTS.databaseExport

/-- What `runDbExportOnce` reads. -/
def tickConfig (s : State) : DatabaseExportConfig :=
  (s.settings.map Settings.databaseExport).getD SCHEMA_DEFAULTS.databaseExport

/-- `POST /api/db-export/config` up to its await, with the options that are saved, or its answer. -/
def postConfig (s : State) (body : DbExportBody) : Except Reply (State × Settings) :=
  if body.questdb = none ∧ body.grafana = none ∧ body.signalkDatabase = none ∧ body.minutes = none then
    .error (.error 400 "INVALID_INPUT" ("Provide questdb (boolean), grafana (boolean), " ++
      "signalkDatabase (boolean), and/or intervalMinutes (number)."))
  else if body.minutes.any fun minutes => minutes < 5 || 1440 < minutes then
    .error (.error 400 "INVALID_INPUT" "intervalMinutes must be between 5 and 1440.")
  else
    match (s.modifySettings fun c => { c with databaseExport := body.next c.databaseExport }).callSave with
    | none => .error (.error 503 "NOT_READY" "Plugin settings not loaded yet.")
    | some saved => .ok saved

/-- What a request could change. -/
structure InEffect where
  get : DatabaseExportConfig
  tick : DatabaseExportConfig
  /-- What the running interval was armed with. -/
  armed : Option DatabaseExportConfig
  deriving DecidableEq

/-- A request, with a record that no step reads. -/
structure Post where
  /-- The configuration it found. -/
  found : DatabaseExportConfig
  next : DatabaseExportConfig
  /-- What `savePluginOptions` was called with; `none` when the request is refused. -/
  options : Option Settings
  reply : Option Reply
  /-- What was in effect before and behind each of its steps. -/
  steps : List (InEffect × InEffect)
  deriving DecidableEq

def Post.saved (p : Post) : Bool :=
  match p.reply with
  | some (.data _) => true
  | _ => false

structure Route where
  state : State
  posts : List Post
  armed : Option DatabaseExportConfig
  /-- The configuration that was saved last, or loaded at the start. -/
  lastSaved : DatabaseExportConfig

def Route.inEffect (s : Route) : InEffect :=
  { get := getConfig s.state, tick := tickConfig s.state, armed := s.armed }

inductive RouteAction
  | post (body : DbExportBody)
  /-- The save of a request succeeds. -/
  | saves (i : ℕ)
  | fails (i : ℕ) (message : String)
  deriving DecidableEq

def Route.post (s : Route) (body : DbExportBody) : Route :=
  match postConfig s.state body with
  | .error reply =>
      { s with
        posts := s.posts ++
          [{ found := getConfig s.state, next := getConfig s.state, options := none
             reply := some reply, steps := [(s.inEffect, s.inEffect)] }] }
  | .ok (state, options) =>
      { s with
        state
        posts := s.posts ++
          [{ found := getConfig s.state, next := options.databaseExport, options := some options
             reply := none, steps := [(s.inEffect, { s with state }.inEffect)] }] }

/-- The rest of a request whose save has succeeded: the new interval takes effect at once. -/
def Route.finish (s : Route) (options : Settings) : Route :=
  let state := { s.state with stored := some options }.startDbExportTimer
  { s with
    state
    armed := state.dbExportTimer.map fun _ => getConfig state
    lastSaved := options.databaseExport }

def routeStep (s : Route) : RouteAction → Option Route
  | .post body => some (s.post body)
  | .saves i =>
      match s.posts[i]? with
      | some { found, next, options := some options, reply := none, steps } =>
          let s' := s.finish options
          some { s' with
            posts := s.posts.set i
              { found, next, options := some options, reply := some (.data next)
                steps := steps ++ [(s.inEffect, s'.inEffect)] } }
      | _ => none
  | .fails i message =>
      match s.posts[i]? with
      | some { found, next, options := some options, reply := none, steps } =>
          some { s with
            posts := s.posts.set i
              { found, next, options := some options
                reply := some (.error 500 "PERSIST_FAILED" message)
                steps := steps ++ [(s.inEffect, s.inEffect)] } }
      | _ => none

def configRoute : Machine Route RouteAction where
  step := routeStep

/-- The settings are loaded or not, and an interval that runs was armed with them. -/
structure Loaded (s : Route) : Prop where
  noPosts : s.posts = []
  lastSaved : s.lastSaved = getConfig s.state
  armed : s.armed = s.state.dbExportTimer.map fun _ => getConfig s.state
  interval : ∀ minutes, s.state.dbExportTimer = some minutes →
    minutes = max 5 (getConfig s.state).intervalMinutes

/-! ## What is in force -/

def Idle (s : Route) : Prop :=
  ∀ p ∈ s.posts, p.reply.isSome = true

structure InForce (s : Route) : Prop where
  get : Idle s → s.inEffect.get = s.lastSaved
  tick : Idle s → s.inEffect.tick = s.lastSaved
  armed : Idle s → ∀ cfg, s.inEffect.armed = some cfg → cfg = s.lastSaved
  refused : ∀ p ∈ s.posts, ∀ status code message, p.reply = some (.error status code message) →
    ∀ e ∈ p.steps, e.1 = e.2

/-- A save fails only for a request that changes nothing; and a save that settles behind one of a
later request carries the same configuration. -/
def InOrder (s : Route) : RouteAction → Prop
  | .post _ => True
  | .saves i => ∀ (j : ℕ) (p q : Post), i < j → s.posts[i]? = some p → s.posts[j]? = some q →
      q.saved = true → q.next = p.next
  | .fails i _ => ∀ p, s.posts[i]? = some p → p.next = p.found

/-! ## One request -/

section Requests

variable {s s' : State} {body : DbExportBody} {options : Settings}

/-- A body that is let through is one that the plugin's machine accepts. -/
theorem refused_iff (body : DbExportBody) :
    body.accepted = false ↔
      (body.questdb = none ∧ body.grafana = none ∧ body.signalkDatabase = none ∧ body.minutes = none) ∨
        (body.minutes.any fun minutes => minutes < 5 || 1440 < minutes) = true := by
  unfold DbExportBody.accepted
  rw [Bool.and_eq_false_iff]
  -- a number outside the bounds, and a body with none of the fields
  have hrange : ((body.minutes.all fun minutes => 5 ≤ minutes && minutes ≤ 1440) = false ↔
      (body.minutes.any fun minutes => minutes < 5 || 1440 < minutes) = true) := by
    cases body.minutes with
    | none =>
        simp
    | some minutes =>
        simp only [Option.all_some, Option.any_some, Bool.and_eq_false_iff, Bool.or_eq_true,
          decide_eq_false_iff_not, decide_eq_true_eq, not_le]
  have hempty : ((body.questdb.isSome || body.grafana.isSome || body.signalkDatabase.isSome ||
      body.minutes.isSome) = false ↔
        body.questdb = none ∧ body.grafana = none ∧ body.signalkDatabase = none ∧ body.minutes = none) := by
    simp only [Bool.or_eq_false_iff, Option.isSome_eq_false_iff, Option.isNone_iff_eq_none, and_assoc]
  rw [hrange, hempty]

/-- The request makes the plugin's step, or is answered with an error. -/
theorem postConfig_setDbExport (s : State) (body : DbExportBody) :
    s.setDbExport body = (postConfig s body).toOption := by
  have hrefused := refused_iff body
  cases haccepted : body.accepted with
  | false =>
      have hnone : s.setDbExport body = none := by
        rw [State.setDbExport, haccepted]
        rfl
      rw [hnone]
      -- either check answers 400
      by_cases hempty : body.questdb = none ∧ body.grafana = none ∧ body.signalkDatabase = none ∧
        body.minutes = none
      · rw [postConfig, if_pos hempty]
        rfl
      · have hrange := (hrefused.1 haccepted).resolve_left hempty
        rw [postConfig, if_neg hempty, if_pos hrange]
        rfl
  | true =>
      rw [haccepted] at hrefused
      have hnot := mt hrefused.2 Bool.true_eq_false.mp
      rcases not_or.1 hnot with ⟨hempty, hrange⟩
      -- both checks pass, and what is left is whether the settings are loaded
      have hcall : s.setDbExport body =
          (s.modifySettings fun c => { c with databaseExport := body.next c.databaseExport }).callSave := by
        rw [State.setDbExport, haccepted]
        rfl
      rw [hcall, postConfig, if_neg hempty, if_neg hrange]
      split
      case h_1 hnone =>
          rw [hnone]
          rfl
      case h_2 saved hsaved =>
          rw [hsaved]
          rfl

theorem postConfig_error {reply : Reply} (h : postConfig s body = .error reply) :
    ∃ status code message, reply = .error status code message := by
  unfold postConfig at h
  split at h
  case isTrue =>
      cases h
      exact ⟨_, _, _, rfl⟩
  case isFalse =>
      split at h
      case isTrue =>
          cases h
          exact ⟨_, _, _, rfl⟩
      case isFalse =>
          split at h
          · cases h
            exact ⟨_, _, _, rfl⟩
          · cases h

theorem postConfig_ok (h : postConfig s body = .ok (s', options)) :
    getConfig s' = options.databaseExport ∧ options.databaseExport = body.next (getConfig s) ∧
      s'.dbExportTimer = s.dbExportTimer := by
  have hset : s.setDbExport body = some (s', options) := by
    rw [postConfig_setDbExport, h]
    rfl
  unfold State.setDbExport at hset
  split at hset
  case isTrue =>
      cases hset
  case isFalse =>
      rcases State.callSave_eq_some hset with ⟨hsettings, hsaved⟩
      have hsame : s'.settings = some options := by
        rw [hsaved]
        exact hsettings
      rw [State.modifySettings_settings] at hsettings
      rcases Option.map_eq_some_iff.1 hsettings with ⟨c, hc, rfl⟩
      refine ⟨by simp [getConfig, hsame], by simp [getConfig, hc], ?_⟩
      rw [hsaved]
      unfold State.modifySettings
      split
      · rfl
      · rfl

end Requests

/-! ## The invariant -/

section Folds

variable {α γ : Type} {f : γ → α → γ}

theorem foldl_set_same {l : List α} {i : ℕ} {y : α}
    (h : ∀ x, l[i]? = some x → ∀ c, f c y = f c x) (c : γ) :
    (l.set i y).foldl f c = l.foldl f c := by
  induction l generalizing i c with
  | nil =>
      rfl
  | cons x l ih =>
      cases i with
      | zero =>
          simp [h x rfl c]
      | succ i =>
          exact ih (fun z hz => h z hz) _

/-- Where every later item that counts leads to the same, an item decides alone. -/
theorem foldl_set_last {l : List α} {i : ℕ} {y : α} {v : γ} (hi : i < l.length) (hy : ∀ c, f c y = v)
    (h : ∀ (j : ℕ) (x : α), i < j → l[j]? = some x → f v x = v) (c : γ) :
    (l.set i y).foldl f c = v := by
  -- from `v` on nothing changes any more
  have hstay : ∀ (rest : List α), (∀ x ∈ rest, f v x = v) → rest.foldl f v = v := by
    intro rest hrest
    induction rest with
    | nil =>
        rfl
    | cons x rest ih =>
        rw [List.foldl_cons, hrest x (by simp)]
        exact ih fun z hz => hrest z (by simp [hz])
  induction l generalizing i c with
  | nil =>
      simp at hi
  | cons x l ih =>
      cases i with
      | zero =>
          rw [List.set_cons_zero, List.foldl_cons, hy]
          refine hstay l fun z hz => ?_
          rcases List.mem_iff_getElem?.1 hz with ⟨j, hj⟩
          exact h (j + 1) z (Nat.succ_pos j) hj
      | succ i =>
          rw [List.set_cons_succ, List.foldl_cons]
          exact ih (by simpa using hi) (fun j z hij hz => h (j + 1) z (Nat.succ_lt_succ hij) hz) _

theorem foldl_take_succ {l : List α} {n : ℕ} {x : α} (hx : l[n]? = some x) (c : γ) :
    (l.take (n + 1)).foldl f c = f ((l.take n).foldl f c) x := by
  rw [List.take_add_one, hx, List.foldl_append]
  rfl

end Folds

/-- The configuration that the requests have put in place, one after the other. -/
def merged (loaded : DatabaseExportConfig) (posts : List Post) : DatabaseExportConfig :=
  posts.foldl (fun _ p => p.next) loaded

/-- The configuration of the latest request that was saved. -/
def latestSaved (loaded : DatabaseExportConfig) (posts : List Post) : DatabaseExportConfig :=
  posts.foldl (fun cfg p => if p.saved then p.next else cfg) loaded

/-- The request was answered with an error. -/
def Post.refused (p : Post) : Prop :=
  p.reply.isSome = true ∧ p.saved = false

structure Follows (loaded : DatabaseExportConfig) (s : Route) : Prop where
  found : ∀ (i : ℕ) (p : Post), s.posts[i]? = some p → p.found = merged loaded (s.posts.take i)
  current : getConfig s.state = merged loaded s.posts
  lastSaved : s.lastSaved = latestSaved loaded s.posts
  options : ∀ p ∈ s.posts, ∀ c, p.options = some c → c.databaseExport = p.next
  unchanged : ∀ p ∈ s.posts, p.refused → p.next = p.found
  steps : ∀ p ∈ s.posts, p.saved = false → p.next = p.found → ∀ e ∈ p.steps, e.1 = e.2
  -- since the interval was armed, no request has been saved
  armed : ∀ cfg, s.armed = some cfg → ∃ n ≤ s.posts.length, cfg = merged loaded (s.posts.take n) ∧
    ∀ (k : ℕ) (p : Post), n ≤ k → s.posts[k]? = some p → p.saved = false

theorem merged_concat (loaded : DatabaseExportConfig) (posts : List Post) (p : Post) :
    merged loaded (posts ++ [p]) = p.next := by
  simp [merged, List.foldl_append]

theorem merged_set {loaded : DatabaseExportConfig} {posts : List Post} {i : ℕ} {p p' : Post}
    (hp : posts[i]? = some p) (hnext : p'.next = p.next) (n : ℕ) :
    merged loaded ((posts.set i p').take n) = merged loaded (posts.take n) := by
  rw [List.take_set]
  refine foldl_set_same (fun x hx _ => ?_) loaded
  rw [List.getElem?_take] at hx
  split at hx
  · cases hp.symm.trans hx
    exact hnext
  · cases hx

theorem merged_set_all {loaded : DatabaseExportConfig} {posts : List Post} {i : ℕ} {p p' : Post}
    (hp : posts[i]? = some p) (hnext : p'.next = p.next) :
    merged loaded (posts.set i p') = merged loaded posts := by
  refine foldl_set_same (fun x hx _ => ?_) loaded
  cases hp.symm.trans hx
  exact hnext

section Idle

variable {loaded : DatabaseExportConfig} {s : Route}

theorem Follows.refused_of_idle (h : Follows loaded s) (hidle : Idle s) {k : ℕ} {p : Post}
    (hp : s.posts[k]? = some p) (hunsaved : p.saved = false) :
    p.next = merged loaded (s.posts.take k) := by
  have hmem : p ∈ s.posts := List.mem_of_getElem? hp
  rw [h.unchanged p hmem ⟨hidle p hmem, hunsaved⟩]
  exact h.found k p hp

/-- Once every request is answered, what was saved last is what the requests have put in place. -/
theorem Follows.latestSaved_eq (h : Follows loaded s) (hidle : Idle s) :
    latestSaved loaded s.posts = merged loaded s.posts := by
  -- by induction on the requests: one that was not saved is refused, and changes nothing
  have hprefix : ∀ n ≤ s.posts.length,
      latestSaved loaded (s.posts.take n) = merged loaded (s.posts.take n) := by
    intro n
    induction n with
    | zero =>
        intro _
        rfl
    | succ n ih =>
        intro hn
        have hp : s.posts[n]? = some s.posts[n] := List.getElem?_eq_getElem hn
        have hbefore := ih (Nat.le_of_lt hn)
        unfold latestSaved merged at hbefore ⊢
        rw [foldl_take_succ hp, foldl_take_succ hp]
        split
        case isTrue =>
            rfl
        case isFalse hunsaved =>
            rw [hbefore]
            exact (h.refused_of_idle hidle hp (by simpa using hunsaved)).symm
  have hall := hprefix s.posts.length (Nat.le_refl _)
  rwa [List.take_length] at hall

/-- Behind the last one that was saved, no request has changed anything. -/
theorem Follows.merged_take (h : Follows loaded s) (hidle : Idle s) {n : ℕ}
    (hunsaved : ∀ (k : ℕ) (p : Post), n ≤ k → s.posts[k]? = some p → p.saved = false) (m : ℕ)
    (hn : n ≤ m) (hm : m ≤ s.posts.length) :
    merged loaded (s.posts.take m) = merged loaded (s.posts.take n) := by
  induction m, hn using Nat.le_induction with
  | base =>
      rfl
  | succ m hnm ih =>
      have hp : s.posts[m]? = some s.posts[m] := List.getElem?_eq_getElem hm
      have hstays := h.refused_of_idle hidle hp (hunsaved m _ hnm hp)
      have hnext : merged loaded (s.posts.take (m + 1)) = s.posts[m].next := foldl_take_succ hp _
      rw [hnext, hstays]
      exact ih (Nat.le_of_lt hm)

theorem Follows.inForce (h : Follows loaded s) : InForce s where
  get hidle := by
    rw [h.lastSaved, h.latestSaved_eq hidle]
    exact h.current
  tick hidle := by
    rw [h.lastSaved, h.latestSaved_eq hidle]
    exact h.current
  armed hidle cfg hcfg := by
    -- armed behind the n-th request, and none saved since
    rcases h.armed cfg hcfg with ⟨n, hn, rfl, hunsaved⟩
    rw [h.lastSaved, h.latestSaved_eq hidle, ← h.merged_take hidle hunsaved _ hn (Nat.le_refl _),
      List.take_length]
  refused p hp status code message hreply := by
    have hunsaved : p.saved = false := by rw [Post.saved, hreply]
    have hanswered : p.reply.isSome = true := by rw [hreply]; rfl
    exact h.steps p hp hunsaved (h.unchanged p hp ⟨hanswered, hunsaved⟩)

end Idle

/-! ## Steps -/

section Steps

variable {loaded : DatabaseExportConfig} {s s' : Route}

theorem Loaded.follows (h : Loaded s) : Follows (getConfig s.state) s where
  found i p hp := by
    rw [h.noPosts] at hp
    cases hp
  current := by rw [h.noPosts]; rfl
  lastSaved := by rw [h.noPosts]; exact h.lastSaved
  options p hp := by
    rw [h.noPosts] at hp
    cases hp
  unchanged p hp := by
    rw [h.noPosts] at hp
    cases hp
  steps p hp := by
    rw [h.noPosts] at hp
    cases hp
  armed cfg hcfg := by
    rw [h.armed] at hcfg
    rcases Option.map_eq_some_iff.1 hcfg with ⟨_, _, rfl⟩
    refine ⟨0, Nat.zero_le _, by rw [h.noPosts]; rfl, fun k p _ hp => ?_⟩
    rw [h.noPosts] at hp
    cases hp

/-- A request is added, which is not saved yet, or refused and changes nothing. -/
theorem Follows.append (h : Follows loaded s) {state : State} {p : Post}
    (hfound : p.found = getConfig s.state) (hcurrent : getConfig state = p.next)
    (hunsaved : p.saved = false) (hoptions : ∀ c, p.options = some c → c.databaseExport = p.next)
    (hunchanged : p.refused → p.next = p.found)
    (hsteps : p.next = p.found → ∀ e ∈ p.steps, e.1 = e.2) :
    Follows loaded { s with state, posts := s.posts ++ [p] } where
  found i q hq := by
    rcases getElem?_concat_cases hq with hold | ⟨rfl, rfl⟩
    · have hlt : i < s.posts.length := (List.getElem?_eq_some_iff.1 hold).1
      rw [List.take_append_of_le_length (Nat.le_of_lt hlt)]
      exact h.found i q hold
    -- the new request finds what all the others have put in place
    · rw [List.take_append_of_le_length (Nat.le_refl _), List.take_length, hfound]
      exact h.current
  current := by
    rw [merged_concat]
    exact hcurrent
  lastSaved := by
    have hsame : latestSaved loaded (s.posts ++ [p]) = latestSaved loaded s.posts := by
      simp [latestSaved, List.foldl_append, hunsaved]
    rw [hsame]
    exact h.lastSaved
  options q hq := by
    rcases List.mem_append.1 hq with hold | hnew
    · exact h.options q hold
    · cases List.mem_singleton.1 hnew
      exact hoptions
  unchanged q hq := by
    rcases List.mem_append.1 hq with hold | hnew
    · exact h.unchanged q hold
    · cases List.mem_singleton.1 hnew
      exact hunchanged
  steps q hq := by
    rcases List.mem_append.1 hq with hold | hnew
    · exact h.steps q hold
    · cases List.mem_singleton.1 hnew
      exact fun _ => hsteps
  armed cfg hcfg := by
    rcases h.armed cfg hcfg with ⟨n, hn, hmerged, hlater⟩
    refine ⟨n, Nat.le_trans hn (by simp), ?_, fun k q hk hq => ?_⟩
    · rw [List.take_append_of_le_length hn]
      exact hmerged
    · rcases getElem?_concat_cases hq with hold | ⟨_, rfl⟩
      · exact hlater k q hk hold
      · exact hunsaved

theorem Follows.post (h : Follows loaded s) (body : DbExportBody) : Follows loaded (s.post body) := by
  unfold Route.post
  split
  case h_1 reply hreply =>
      -- refused before anything is assigned
      obtain ⟨status, code, message, rfl⟩ := postConfig_error hreply
      refine h.append rfl rfl rfl (fun c hc => by cases hc) (fun _ => rfl) fun _ e he => ?_
      cases List.mem_singleton.1 he
      rfl
  case h_2 state options hok =>
      rcases postConfig_ok hok with ⟨hcurrent, _, _⟩
      -- the configuration is in place before it is saved
      refine h.append rfl hcurrent rfl (fun c hc => by cases hc; rfl) ?_ fun hsame e he => ?_
      · rintro ⟨hanswered, _⟩
        cases hanswered
      · cases List.mem_singleton.1 he
        have hget : getConfig s.state = getConfig state := by
          rw [hcurrent]
          exact hsame.symm
        have htick : tickConfig s.state = tickConfig state := hget
        simp only [Route.inEffect, hget, htick]

theorem getConfig_finish (s : Route) (options : Settings) :
    getConfig (s.finish options).state = getConfig s.state := by
  have hview := State.startDbExportTimer_view (s := { s.state with stored := some options })
  have hsettings : (s.finish options).state.settings = s.state.settings :=
    congrArg State.View.settings hview
  rw [getConfig, hsettings]
  rfl

/-- A request goes on; what it puts in place stays. -/
theorem Follows.settled (h : Follows loaded s) {i : ℕ} {p p' : Post} (hp : s.posts[i]? = some p)
    (hfound : p'.found = p.found) (hnext : p'.next = p.next) (hoptions : p'.options = p.options)
    {state : State} {armed : Option DatabaseExportConfig} {lastSaved : DatabaseExportConfig}
    (hcurrent : getConfig state = getConfig s.state)
    (hlast : lastSaved = latestSaved loaded (s.posts.set i p'))
    (hunchanged : p'.refused → p.next = p.found)
    (hsteps : p'.saved = false → p'.next = p'.found → ∀ e ∈ p'.steps, e.1 = e.2)
    (harmed : ∀ cfg, armed = some cfg → ∃ n ≤ s.posts.length,
      cfg = merged loaded (s.posts.take n) ∧
        ∀ (k : ℕ) (q : Post), n ≤ k → (s.posts.set i p')[k]? = some q → q.saved = false) :
    Follows loaded { state, posts := s.posts.set i p', armed, lastSaved } := by
  have hmem : p ∈ s.posts := List.mem_of_getElem? hp
  refine ⟨fun j q hq => ?_, ?_, hlast, fun q hq => ?_, fun q hq => ?_, fun q hq => ?_, fun cfg hcfg => ?_⟩
  · rw [merged_set hp hnext]
    rcases getElem?_set_cases hq with ⟨rfl, rfl⟩ | ⟨_, hold⟩
    · rw [hfound]
      exact h.found j p hp
    · exact h.found j q hold
  · rw [merged_set_all hp hnext, hcurrent]
    exact h.current
  · rcases List.mem_or_eq_of_mem_set hq with hold | rfl
    · exact h.options q hold
    · rw [hoptions, hnext]
      exact h.options p hmem
  · rcases List.mem_or_eq_of_mem_set hq with hold | rfl
    · exact h.unchanged q hold
    · rw [hnext, hfound]
      exact hunchanged
  · rcases List.mem_or_eq_of_mem_set hq with hold | rfl
    · exact h.steps q hold
    · exact hsteps
  · rcases harmed cfg hcfg with ⟨n, hn, hmerged, hlater⟩
    refine ⟨n, by simpa using hn, ?_, hlater⟩
    rw [merged_set hp hnext]
    exact hmerged

theorem Follows.step {a : RouteAction} (h : Follows loaded s) (horder : InOrder s a)
    (hstep : routeStep s a = some s') : Follows loaded s' := by
  cases a with
  | post body =>
      cases hstep
      exact h.post body
  | saves i =>
      simp only [routeStep] at hstep
      split at hstep
      case h_1 found next options steps hp =>
          cases hstep
          have hnext : options.databaseExport = next := h.options _ (List.mem_of_getElem? hp) options rfl
          have hlt : i < s.posts.length := (List.getElem?_eq_some_iff.1 hp).1
          refine h.settled hp (by rfl) (by rfl) (by rfl) (getConfig_finish s options) ?_ ?_ ?_ ?_
          · -- the requests behind it that are saved already carry the same
            refine (foldl_set_last hlt (fun cfg => ?_) (fun j q hij hq => ?_) loaded).symm
            · exact hnext.symm
            · split
              case isTrue hsaved =>
                  exact (horder j _ q hij hp hq hsaved).trans hnext.symm
              case isFalse =>
                  rfl
          -- a request that is saved is neither refused nor unsaved
          · rintro ⟨_, hunsaved⟩
            cases hunsaved
          · intro hunsaved
            cases hunsaved
          · intro cfg hcfg
            rcases Option.map_eq_some_iff.1 hcfg with ⟨_, _, rfl⟩
            refine ⟨s.posts.length, Nat.le_refl _, ?_, fun k q hk hq => ?_⟩
            -- the interval is armed with what all requests have put in place
            · rw [List.take_length]
              exact (getConfig_finish s options).trans h.current
            · rw [List.getElem?_eq_none (by simpa using hk)] at hq
              cases hq
      case h_2 =>
          cases hstep
  | fails i message =>
      simp only [routeStep] at hstep
      split at hstep
      case h_1 found next options steps hp =>
          cases hstep
          -- by the condition the request has changed nothing
          have hsame : next = found := horder _ hp
          refine h.settled hp (by rfl) (by rfl) (by rfl) rfl ?_ (fun _ => hsame) (fun _ _ e he => ?_)
            fun cfg hcfg => ?_
          · rw [h.lastSaved]
            refine (foldl_set_same (fun x hx cfg => ?_) loaded).symm
            cases hp.symm.trans hx
            rfl
          · rcases List.mem_append.1 he with hold | hnew
            · exact h.steps _ (List.mem_of_getElem? hp) rfl hsame e hold
            · cases List.mem_singleton.1 hnew
              rfl
          · rcases h.armed cfg hcfg with ⟨n, hn, hmerged, hlater⟩
            refine ⟨n, hn, hmerged, fun k q hk hq => ?_⟩
            -- the request that fails is not saved either
            rcases getElem?_set_cases hq with ⟨_, rfl⟩ | ⟨_, hold⟩
            · rfl
            · exact hlater k q hk hold
      case h_2 =>
          cases hstep

end Steps

/-! ## The interval and the tick -/

/-- A tick exports with the configuration that is in effect. -/
theorem runDbExportOnce_tickConfig {β : Type} (e : Setup β) (s : State) :
    runDbExportOnce e s =
      if s.settings.any fun c => !c.managedContainer then pure ()
      else do
        let _results : List ExportResult ← runAllExports e.codec e.resolveSignalkConfigRoot
          { questdb := (tickConfig s).questdb
            grafana := (tickConfig s).grafana
            signalkDatabase := (tickConfig s).signalkDatabase }
        return () := by
  unfold runDbExportOnce tickConfig
  cases s.settings with
  | none =>
      rfl
  | some c =>
      rfl

/-- The interval that runs is the one of the configuration it was armed with. -/
def Interval (s : Route) : Prop :=
  s.state.dbExportTimer = s.armed.map fun cfg => max 5 cfg.intervalMinutes

theorem Interval.step {s s' : Route} {a : RouteAction} (h : Interval s)
    (hstep : routeStep s a = some s') : Interval s' := by
  cases a with
  | post body =>
      cases hstep
      unfold Route.post
      split
      case h_1 =>
          exact h
      case h_2 hok =>
          exact (postConfig_ok hok).2.2.trans h
  | saves i =>
      simp only [routeStep] at hstep
      split at hstep
      case h_1 options steps hp =>
          cases hstep
          simp only [Interval, Route.finish, State.startDbExportTimer, State.settings, State.stopDbExportTimer]
          cases hobject : s.state.currentSettings with
          | none =>
              rfl
          | some object =>
              simp only [Option.map_some]
              split
              · rfl
              · simp [getConfig, State.settings]
      case h_2 =>
          cases hstep
  | fails i message =>
      simp only [routeStep] at hstep
      split at hstep
      case h_1 =>
          cases hstep
          exact h
      case h_2 =>
          cases hstep

theorem reachable_interval {s : Route} (h : configRoute.Reachable Loaded s) : Interval s := by
  refine h.invariant (fun t ht => ?_) fun t a t' ht _ hstep => ht.step hstep
  rw [Interval, ht.armed, Option.map_map]
  cases hminutes : t.state.dbExportTimer with
  | none =>
      rfl
  | some minutes =>
      exact congrArg some (ht.interval minutes hminutes)

/-! ## Runs -/

/-- In every run in which a save fails only for a request that changes nothing, and none that is
overtaken differs from the later one: what is not saved is not in effect, once no request is in
progress, and a request that is answered with an error has changed nothing. -/
theorem reachable_inForce {s : Route} (h : configRoute.ReachableUnder InOrder Loaded s) : InForce s := by
  have hfollows : ∃ loaded, Follows loaded s := by
    refine h.invariant (P := fun t => ∃ loaded, Follows loaded t) (fun t ht => ⟨_, ht.follows⟩)
      fun t a t' ht horder hstep => ?_
    rcases ht with ⟨loaded, ht⟩
    exact ⟨loaded, ht.step horder hstep⟩
  rcases hfollows with ⟨loaded, hfollows⟩
  exact hfollows.inForce

/-! ## A save that fails -/

/-- QuestDB is exported every hour. -/
def hourly : Route :=
  let state := (Plugin.unstarted.state.start { questdb := some true }).startDbExportTimer
  { state, posts := [], armed := some (getConfig state), lastSaved := getConfig state }

theorem hourly_loaded : Loaded hourly := by
  refine ⟨rfl, rfl, rfl, fun minutes h => ?_⟩
  cases h
  rfl

def alsoGrafana : RouteAction :=
  .post { grafana := some true }

theorem reachable_inForce_saved :
    ∃ s, configRoute.run hourly [alsoGrafana, .saves 0] = some s ∧ Idle s ∧
      s.state.dbExportTimer = some 60 ∧ InForce s := by
  obtain ⟨s, hs, hidle, htimer⟩ : ∃ s, configRoute.run hourly [alsoGrafana, .saves 0] = some s ∧
      (s.posts.all fun p => p.reply.isSome) = true ∧ s.state.dbExportTimer = some 60 :=
    ⟨_, rfl, rfl, rfl⟩
  have hmeets : configRoute.Meets InOrder hourly [alsoGrafana, .saves 0] := by
    refine ⟨trivial, fun t ht => ⟨fun j p q hj _ hq => ?_, fun _ _ => trivial⟩⟩
    cases ht
    -- no request comes behind the first
    rw [List.getElem?_eq_none hj] at hq
    cases hq
  have hforce := reachable_inForce (.run (.init hourly_loaded) hmeets hs)
  exact ⟨s, hs, List.all_eq_true.1 hidle, htimer, hforce⟩

/-- The save fails, and the new configuration is what `GET` returns. -/
theorem reachable_not_inForce : ∃ s, configRoute.Reachable Loaded s ∧ ¬InForce s := by
  obtain ⟨s, hs, hidle, hget, hsaved⟩ :
      ∃ s, configRoute.run hourly [alsoGrafana, .fails 0 "EACCES"] = some s ∧
        (s.posts.all fun p => p.reply.isSome) = true ∧
          s.inEffect.get.grafana = true ∧ s.lastSaved.grafana = false :=
    ⟨_, rfl, rfl, rfl, rfl⟩
  refine ⟨s, Machine.Reachable.run (.init hourly_loaded) hs, fun h => ?_⟩
  -- what is in effect was never saved
  rw [h.get (List.all_eq_true.1 hidle), hsaved] at hget
  cases hget

end ConfigRoute
end Export
end SignalKBackup
