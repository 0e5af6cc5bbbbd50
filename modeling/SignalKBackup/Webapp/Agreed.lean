import SignalKBackup.Webapp.RestoreModal

/-!
# Agreed — the dialogs and the host-restore route together

Any number of restore dialogs, in any number of browsers, before one plugin: what a dialog submits
arrives at `POST /api/restore-partial-host` at any time or never, and so do the answers; other
clients post what they like.

* `Told` is the invariant: a conflict that a dialog shows is what the plugin has answered to just
  what the dialog would submit once more.
* `reachable_agreed`: a request of a dialog that may overwrite is one whose user has pressed
  "Overwrite" beside what the plugin had found at the very target; and whatever a run of a dialog
  finds at its target, its user has agreed to lose.

The path in the alert is `toHostPath` of the target, though the target is a path of the host
already: where it reads as a path of the container's mount, the user sees another one.
-/

namespace SignalKBackup
namespace Webapp

open Lib
open Restore

variable {β : Type}

/-! ## The answers of the route -/

/-- What an answer holds besides: the time, and what `stat` tells of the entry. -/
structure Facts where
  timestamp : String
  mtime : String
  dated : mtime ≠ ""
  size : String

def invalidMessage (request : HostRestoreRequest) : String :=
  if request.customPath.all isWhitespace then "customPath must not be empty"
  else if request.sourcePath.contains '\x00' || request.customPath.contains '\x00' then
    "paths must not contain NUL bytes"
  else "sourcePath must not contain \"..\" segments"

def targetOf (cwd : List Char) (stamp : Stamp) (request : HostRestoreRequest) : String :=
  String.ofList (resolveHostTarget cwd stamp request.customPath request.isDir
    request.sourcePath).absoluteTarget

def refusal (facts : Facts) (status : ℕ) (code message : String) (data : List (String × Json)) :
    Response where
  status := status
  json := .ok (.object ([("success", .bool false),
    ("error", .object [("code", .string code), ("message", .string message)])] ++ data ++
      [("timestamp", .string facts.timestamp)]))

def conflictOf (target : String) (facts : Facts) : Json :=
  .object [("targetPath", .string target), ("mtime", .string facts.mtime),
    ("size", .number facts.size)]

/-- The answers of `POST /api/restore-partial-host`. -/
def respond (request : HostRestoreRequest) (target : String) (facts : Facts) : Answer → Response
  | .invalidInput => refusal facts 400 "INVALID_INPUT" (invalidMessage request) []
  | .restoreInProgress =>
      refusal facts 409 "RESTORE_IN_PROGRESS" "A host-restore is already in progress" []
  | .targetExists =>
      refusal facts 409 "TARGET_EXISTS"
        ("Target '" ++ target ++ "' already exists; resubmit with confirmOverwrite=true to proceed")
        [("data", .object [("conflict", conflictOf target facts)])]
  | .upstreamNotReady => refusal facts 503 "UPSTREAM_NOT_READY" "backup-server not ready" []
  | _ =>
      { status := 202
        json := .ok (.object [("success", .bool true), ("data", .object [("started", .bool true)]),
          ("timestamp", .string facts.timestamp)]) }

/-- The dialog shows a conflict only for `TARGET_EXISTS`, and the one it was answered. -/
theorem respond_conflict {name message : String} {request : HostRestoreRequest} {target : String}
    {facts : Facts} {a : Answer} {c : Json}
    (h : outcome name (respond request target facts a) = .conflict message c) :
    a = .targetExists ∧ c = conflictOf target facts := by
  cases a with
  | targetExists =>
      simp only [respond, refusal, outcome, if_true] at h
      cases h
      exact ⟨rfl, rfl⟩
  | restoreInProgress =>
      -- another code, and no data
      simp only [respond, refusal, outcome, if_true] at h
      cases h
  | invalidInput =>
      simp [respond, refusal, outcome] at h
  | upstreamNotReady =>
      simp [respond, refusal, outcome] at h
  | _ =>
      simp [respond, outcome, Json.get] at h

/-! ## The world -/

/-- Where the request of a dialog is. -/
inductive Wire
  | idle
  | sent
  /-- The plugin has it, as its task at this position. -/
  | handled (i : ℕ)
  | answered (res : Response)

structure Screen where
  props : RestoreProps
  pathMapping : Option PathMapping
  dialog : Dialog := {}
  wire : Wire := .idle

/-- "Overwrite" has been pressed. -/
structure Press where
  screen : ℕ
  /-- What the dialog showed, and the mapping that it had then. -/
  shown : Alert
  pathMapping : Option PathMapping
  call : Call

structure World (β : Type) where
  server : Server β
  screens : List Screen := []
  /-- Every press of "Overwrite"; nothing reads it. -/
  presses : List Press := []
  /-- Which tasks of the plugin come from which dialog; nothing reads it. -/
  posted : List (ℕ × ℕ) := []
  /-- What tasks have answered when they went on after their probe; nothing reads it. -/
  replies : List (ℕ × Response) := []

inductive Event (β : Type)
  | opens (props : RestoreProps) (pathMapping : Option PathMapping)
  /-- The page has polled the status of the plugin. -/
  | polls (j : ℕ) (pathMapping : Option PathMapping)
  | uses (j : ℕ) (control : Control)
  /-- The request of a dialog arrives at the plugin. -/
  | arrives (j : ℕ) (stamp : Stamp) (facts : Facts)
  /-- A call of `restorePartial`, which the backup server answers. -/
  | elsewhere (j : ℕ) (res : Response)
  /-- The plugin goes on, or another client or process does. -/
  | serves (a : Restore.Action β) (facts : Facts)
  | receives (j : ℕ)
  /-- The awaited `fetch` rejects, wherever the request is. -/
  | loses (j : ℕ) (message : String)
  /-- The browser takes the dialog away. -/
  | unmounts (j : ℕ)

/-- What the press of a control leaves in `presses`. -/
def pressed (j : ℕ) (sc : Screen) (d : Dialog) : Control → List Press
  | .overwrite =>
      match sc.dialog.conflict, d.awaits with
      | some conflict, some call =>
          [{ screen := j, shown := alert conflict sc.pathMapping, pathMapping := sc.pathMapping, call }]
      | _, _ => []
  | _ => []

/-- The request at this position has been answered. -/
def Screen.hear (i : ℕ) (res : Response) (sc : Screen) : Screen :=
  match sc.wire with
  | .handled k => if k = i then { sc with wire := .answered res } else sc
  | _ => sc

/-- A task answers its request. -/
def World.reply (w : World β) (facts : Facts) : Restore.Action β → Option (ℕ × Response)
  | .resume i =>
      match w.server.tasks[i]?, answer w.server (.resume i) with
      | some t, some ans =>
          some (i, respond t.ctx.request (String.ofList t.ctx.target.absoluteTarget) facts ans)
      | _, _ => none
  | _ => none

def Screen.answers (screens : List Screen) : Option (ℕ × Response) → List Screen
  | some (i, res) => screens.map (Screen.hear i res)
  | none => screens

/-- A request of the dialog at this position arrives. -/
def World.deliver (cwd : List Char) (w : World β) (j : ℕ) (sc : Screen) (request : HostRestoreRequest)
    (stamp : Stamp) (facts : Facts) : World β :=
  let server := post cwd w.server request stamp
  let wire : Wire :=
    match answer w.server (.post request stamp) with
    | some ans => .answered (respond request (targetOf cwd stamp request) facts ans)
    | none => .handled w.server.tasks.length
  { w with
    server
    screens := w.screens.set j { sc with wire }
    posted :=
      if w.server.tasks.length < server.tasks.length then w.posted ++ [(j, w.server.tasks.length)]
      else w.posted }

def World.step (cwd : List Char) (w : World β) : Event β → Option (World β)
  | .opens props pathMapping => some { w with screens := w.screens ++ [{ props, pathMapping }] }
  | .polls j pathMapping =>
      w.screens[j]?.map fun sc => { w with screens := w.screens.set j { sc with pathMapping } }
  | .uses j control =>
      w.screens[j]?.bind fun sc => (sc.dialog.use sc.props control).map fun d =>
        { w with
          screens := w.screens.set j
            { sc with dialog := d, wire := if d.submitting then .sent else sc.wire }
          presses := w.presses ++ pressed j sc d control }
  | .arrives j stamp facts =>
      w.screens[j]?.bind fun sc =>
        match sc.wire, sc.dialog.awaits with
        | .sent, some (.restorePartialHost request) => some (w.deliver cwd j sc request stamp facts)
        | _, _ => none
  | .elsewhere j res =>
      w.screens[j]?.bind fun sc =>
        match sc.wire, sc.dialog.awaits with
        | .sent, some (.restorePartial _ _) =>
            some { w with screens := w.screens.set j { sc with wire := .answered res } }
        | _, _ => none
  | .serves a facts =>
      (serverStep cwd w.server a).map fun server =>
        { w with
          server
          screens := Screen.answers w.screens (w.reply facts a)
          replies := w.replies ++ (w.reply facts a).toList }
  | .receives j =>
      w.screens[j]?.bind fun sc =>
        match sc.wire, sc.dialog.awaits with
        | .answered res, some call =>
            some { w with
              screens := w.screens.set j
                { sc with dialog := sc.dialog.settled (outcome call.name res), wire := .idle } }
        | _, _ => none
  | .loses j message =>
      w.screens[j]?.bind fun sc =>
        match sc.wire with
        | .idle => none
        | _ =>
            some { w with
              screens := w.screens.set j
                { sc with dialog := sc.dialog.settled (.failed message), wire := .idle } }
  | .unmounts j =>
      w.screens[j]?.map fun sc =>
        { w with screens := w.screens.set j { sc with dialog := { sc.dialog with isOpen := false } } }

def worldMachine (cwd : List Char) : Machine (World β) (Event β) :=
  { step := World.step cwd }

/-- The routes have just been registered, and no dialog is open. -/
def Fresh (w : World β) : Prop :=
  Registered w.server ∧ w.screens = [] ∧ w.presses = [] ∧ w.posted = [] ∧ w.replies = []

/-! ## What the plugin has said -/

/-- The plugin has answered 409 to the request, with these facts of the entry that it had found at
the target. -/
def Refused (w : World β) (j : ℕ) (request : HostRestoreRequest) (facts : Facts) : Prop :=
  ∃ i t, (j, i) ∈ w.posted ∧ w.server.tasks[i]? = some t ∧ t.phase = .answered 409 ∧
    t.ctx.request = { request with confirmOverwrite := false } ∧
      (i, respond t.ctx.request (String.ofList t.ctx.target.absoluteTarget) facts .targetExists) ∈
        w.replies

/-- The conflict is that of such an answer. -/
def Conflicts (cwd : List Char) (w : World β) (j : ℕ) (request : HostRestoreRequest) (c : Json) :
    Prop :=
  ∃ facts, Refused w j request facts ∧ ∀ stamp, c = conflictOf (targetOf cwd stamp request) facts

/-- The alert beside the button tells of this target: its path as `toHostPath` gives it, which is
the path itself unless that reads as the mount point or as one below it. -/
structure Press.Tells (press : Press) (target : String) (facts : Facts) : Prop where
  path : press.shown.target = toHostPath (some target.toList) press.pathMapping
  itself : (∀ m, press.pathMapping = some m → ¬m.Covers target.toList) →
    press.shown.target = some target.toList
  size : press.shown.size = some (.number facts.size)
  mtime : press.shown.mtime = some (.string facts.mtime)

/-- The user has pressed "Overwrite" beside an alert that tells of the target of the request. -/
def Agreed (cwd : List Char) (w : World β) (j : ℕ) (request : HostRestoreRequest) : Prop :=
  ∃ press ∈ w.presses, ∃ facts, press.screen = j ∧ press.call = .restorePartialHost request ∧
    Refused w j request facts ∧ ∀ stamp, press.Tells (targetOf cwd stamp request) facts

theorem tells_alert {press : Press} {target : String} {facts : Facts}
    (h : press.shown = alert (conflictOf target facts) press.pathMapping) :
    press.Tells target facts := by
  have htarget : press.shown.target = toHostPath (some target.toList) press.pathMapping := by
    rw [h]
    rfl
  refine ⟨htarget, fun hnot => ?_, ?_, ?_⟩
  · rw [htarget, toHostPath_eq_self hnot]
  · rw [h]
    rfl
  · have hmtime : Json.get "mtime" (some (conflictOf target facts)) = some (.string facts.mtime) := rfl
    have htruthy : Json.truthy (some (.string facts.mtime)) = true := bne_iff_ne.2 facts.dated
    rw [h]
    simp only [alert, hmtime, htruthy, if_true]

/-- What is recorded stays, and what is answered. -/
structure Grows (w w' : World β) : Prop where
  posted : ∀ p ∈ w.posted, p ∈ w'.posted
  presses : ∀ p ∈ w.presses, p ∈ w'.presses
  replies : ∀ p ∈ w.replies, p ∈ w'.replies
  tasks : ∀ (i : ℕ) (t : Restore.Task β), w.server.tasks[i]? = some t →
    ∃ t', w'.server.tasks[i]? = some t' ∧ t'.ctx = t.ctx ∧
      ∀ n, t.phase = .answered n → t'.phase = .answered n

section Growth

variable {cwd : List Char} {w w' : World β} {j : ℕ} {request : HostRestoreRequest}
  {facts : Facts} {c : Json}

theorem Grows.of_server (h : w'.server = w.server) (hposted : w'.posted = w.posted)
    (hreplies : w'.replies = w.replies) (hpresses : ∀ p ∈ w.presses, p ∈ w'.presses) :
    Grows w w' := by
  refine ⟨fun p hp => hposted ▸ hp, hpresses, fun p hp => hreplies ▸ hp,
    fun i t ht => ⟨t, ?_, rfl, fun _ hn => hn⟩⟩
  rw [h]
  exact ht

theorem Refused.grows (h : Refused w j request facts) (hgrows : Grows w w') :
    Refused w' j request facts := by
  rcases h with ⟨i, t, hposted, ht, hphase, hrequest, hreply⟩
  rcases hgrows.tasks i t ht with ⟨t', ht', hctx, hanswered⟩
  have htarget : t'.ctx.target = t.ctx.target := by rw [hctx]
  refine ⟨i, t', hgrows.posted _ hposted, ht', hanswered 409 hphase, hctx ▸ hrequest, ?_⟩
  rw [htarget, hctx]
  exact hgrows.replies _ hreply

theorem Conflicts.grows (h : Conflicts cwd w j request c) (hgrows : Grows w w') :
    Conflicts cwd w' j request c := by
  rcases h with ⟨facts, hrefused, hc⟩
  exact ⟨facts, hrefused.grows hgrows, hc⟩

theorem Agreed.grows (h : Agreed cwd w j request) (hgrows : Grows w w') : Agreed cwd w' j request := by
  rcases h with ⟨press, hmem, facts, hscreen, hcall, hrefused, htells⟩
  exact ⟨press, hgrows.presses _ hmem, facts, hscreen, hcall, hrefused.grows hgrows, htells⟩

/-- One step of the plugin. -/
theorem server_grows {s s' : Server β} {a : Restore.Action β} (hs : ServerStep cwd s a s') (i : ℕ)
    {t : Restore.Task β} (ht : s.tasks[i]? = some t) :
    ∃ t', s'.tasks[i]? = some t' ∧ t'.ctx = t.ctx ∧
      ∀ n, t.phase = .answered n → t'.phase = .answered n := by
  have hlt : i < s.tasks.length := (List.getElem?_eq_some_iff.1 ht).1
  cases hown : a.own i with
  | false =>
      exact ⟨t, other_step hs hown ht, rfl, fun _ hn => hn⟩
  | true =>
      -- a task that is settled or resumed is in the middle of its handler or its run
      have hset : ∀ u : Restore.Task β, (∀ n, t.phase ≠ .answered n) → u.ctx = t.ctx →
          ∃ t', (s.tasks.set i u)[i]? = some t' ∧ t'.ctx = t.ctx ∧
            ∀ n, t.phase = .answered n → t'.phase = .answered n :=
        fun u hnot hctx => ⟨u, List.getElem?_set_self hlt, hctx, fun n hn => absurd hn (hnot n)⟩
      cases hs with
      | @probe k u a existing hu hphase _ =>
          have hk : k = i := of_decide_eq_true hown
          subst hk
          cases hu.symm.trans ht
          exact hset _ (fun n hn => by simp [hphase] at hn) rfl
      | @run k u a await r hu hphase _ =>
          have hk : k = i := of_decide_eq_true hown
          subst hk
          cases hu.symm.trans ht
          exact hset (t.putRun r) (fun n hn => by simp [hphase] at hn) rfl
      | @conflict k u hu hphase =>
          have hk : k = i := of_decide_eq_true hown
          subst hk
          cases hu.symm.trans ht
          exact hset _ (fun n hn => by simp [hphase] at hn) rfl
      | @goesOn k u hu hphase _ =>
          have hk : k = i := of_decide_eq_true hown
          subst hk
          cases hu.symm.trans ht
          exact hset _ (fun n hn => by simp [hphase] at hn) rfl
      | @goesOnUnready k u hu hphase _ =>
          have hk : k = i := of_decide_eq_true hown
          subst hk
          cases hu.symm.trans ht
          exact hset _ (fun n hn => by simp [hphase] at hn) rfl
      | _ =>
          cases hown

end Growth

/-! ## The invariant -/

/-- What holds of the dialog at this position. -/
structure Sound (cwd : List Char) (w : World β) (j : ℕ) (sc : Screen) : Prop where
  free : sc.dialog.submitting = false → sc.dialog.awaits = none
  quiet : sc.dialog.awaits = none → sc.wire = .idle
  /-- The call under way is what the dialog would submit again. -/
  awaited : ∀ call, sc.dialog.awaits = some call → ∃ confirm, sc.dialog.call sc.props confirm = call ∧
    (confirm = true → ∀ request, call = .restorePartialHost request → Agreed cwd w j request)
  handled : ∀ i, sc.wire = .handled i → ∃ request t,
    sc.dialog.awaits = some (.restorePartialHost request) ∧ (j, i) ∈ w.posted ∧
      w.server.tasks[i]? = some t ∧ t.ctx.request = request ∧ t.ctx.cwd = cwd ∧
        request.confirmOverwrite = false
  answered : ∀ res, sc.wire = .answered res → ∀ request message c,
    sc.dialog.awaits = some (.restorePartialHost request) →
      outcome "restore-partial-host" res = .conflict message c → Conflicts cwd w j request c
  /-- The conflict is about what the dialog would submit. -/
  conflict : ∀ c, sc.dialog.conflict = some c → ∀ request,
    sc.dialog.call sc.props false = .restorePartialHost request → Conflicts cwd w j request c

structure Told (cwd : List Char) (w : World β) : Prop where
  known : ∀ j i, (j, i) ∈ w.posted → ∃ t, w.server.tasks[i]? = some t
  sound : ∀ (j : ℕ) (sc : Screen), w.screens[j]? = some sc → Sound cwd w j sc
  consent : ∀ (j i : ℕ) (t : Restore.Task β), (j, i) ∈ w.posted → w.server.tasks[i]? = some t →
    t.ctx.request.confirmOverwrite = true → Agreed cwd w j t.ctx.request

section Steps

variable {cwd : List Char} {w w' : World β} {j : ℕ} {sc : Screen} {d : Dialog}
  {props : RestoreProps}

theorem call_confirm {confirm : Bool} {request : HostRestoreRequest}
    (h : d.call props confirm = .restorePartialHost request) (confirm' : Bool) :
    request.confirmOverwrite = confirm ∧
      d.call props confirm' = .restorePartialHost { request with confirmOverwrite := confirm' } := by
  unfold Dialog.call at h ⊢
  split at h
  case isTrue hmode =>
      cases h
      rw [if_pos hmode]
      exact ⟨rfl, rfl⟩
  case isFalse =>
      cases h

theorem Sound.grows (h : Sound cwd w j sc) (hgrows : Grows w w') : Sound cwd w' j sc := by
  refine ⟨h.free, h.quiet, fun call hcall => ?_, fun i hi => ?_,
    fun res hres request message c hawaits hc =>
      (h.answered res hres request message c hawaits hc).grows hgrows,
    fun c hc request hrequest => (h.conflict c hc request hrequest).grows hgrows⟩
  · rcases h.awaited call hcall with ⟨confirm, hsame, hagreed⟩
    exact ⟨confirm, hsame, fun hyes request hrequest => (hagreed hyes request hrequest).grows hgrows⟩
  · rcases h.handled i hi with ⟨request, t, hawaits, hposted, ht, hrequest, hcwd, hconfirm⟩
    rcases hgrows.tasks i t ht with ⟨t', ht', hctx, _⟩
    exact ⟨request, t', hawaits, hgrows.posted _ hposted, ht', hctx ▸ hrequest, hctx ▸ hcwd, hconfirm⟩

/-- Of the dialogs, one has changed. -/
theorem sound_set (h : Told cwd w) (hgrows : Grows w w') {sc' : Screen}
    (hscreens : w'.screens = w.screens.set j sc') (hsound : Sound cwd w' j sc') :
    ∀ (k : ℕ) (u : Screen), w'.screens[k]? = some u → Sound cwd w' k u := by
  intro k u hu
  rw [hscreens] at hu
  rcases eq_or_ne j k with rfl | hne
  · have hlt : j < w.screens.length := by
      simpa using (List.getElem?_eq_some_iff.1 hu).1
    rw [List.getElem?_set_self hlt] at hu
    cases hu
    exact hsound
  · rw [List.getElem?_set_ne hne] at hu
    exact (h.sound k u hu).grows hgrows

/-- Nothing but one dialog has changed, and what is recorded. -/
theorem Told.known_grows (h : Told cwd w) (hgrows : Grows w w') {k i : ℕ} (hk : (k, i) ∈ w.posted) :
    ∃ t, w'.server.tasks[i]? = some t := by
  rcases h.known k i hk with ⟨t, ht⟩
  rcases hgrows.tasks i t ht with ⟨t', ht', _⟩
  exact ⟨t', ht'⟩

theorem Told.consent_grows (h : Told cwd w) (hgrows : Grows w w') {k i : ℕ} {t : Restore.Task β}
    (hk : (k, i) ∈ w.posted) (ht : w'.server.tasks[i]? = some t)
    (hconfirm : t.ctx.request.confirmOverwrite = true) : Agreed cwd w' k t.ctx.request := by
  rcases h.known k i hk with ⟨t₀, ht₀⟩
  rcases hgrows.tasks i t₀ ht₀ with ⟨t', ht', hctx, _⟩
  cases ht.symm.trans ht'
  rw [hctx] at hconfirm ⊢
  exact (h.consent k i t₀ hk ht₀ hconfirm).grows hgrows

/-- Nothing new has been posted. -/
theorem Told.of_grows (h : Told cwd w) (hgrows : Grows w w') (hposted : w'.posted = w.posted)
    (hsound : ∀ (k : ℕ) (u : Screen), w'.screens[k]? = some u → Sound cwd w' k u) : Told cwd w' :=
  ⟨fun _ _ hk => h.known_grows hgrows (hposted ▸ hk), hsound,
    fun _ _ _ hk ht hconfirm => h.consent_grows hgrows (hposted ▸ hk) ht hconfirm⟩

theorem Told.put (h : Told cwd w) (hgrows : Grows w w') (hposted : w'.posted = w.posted)
    {sc' : Screen} (hscreens : w'.screens = w.screens.set j sc') (hsound : Sound cwd w' j sc') :
    Told cwd w' :=
  h.of_grows hgrows hposted (sound_set h hgrows hscreens hsound)

theorem told_opens (h : Told cwd w) (props : RestoreProps) (pathMapping : Option PathMapping) :
    Told cwd { w with screens := w.screens ++ [{ props, pathMapping }] } := by
  have hgrows : Grows w { w with screens := w.screens ++ [{ props, pathMapping }] } :=
    .of_server rfl rfl rfl fun _ hp => hp
  refine h.of_grows hgrows rfl fun k u hu => ?_
  rcases getElem?_concat_cases hu with hold | ⟨_, rfl⟩
  · exact (h.sound k u hold).grows hgrows
  · exact ⟨fun _ => rfl, fun _ => rfl, nofun, nofun, nofun, nofun⟩

/-- Only "Overwrite" records a press. -/
theorem told_uses (h : Told cwd w) (hsc : w.screens[j]? = some sc) {control : Control}
    (huse : sc.dialog.use sc.props control = some d) :
    Told cwd { w with
      screens := w.screens.set j
        { sc with dialog := d, wire := if d.submitting then .sent else sc.wire }
      presses := w.presses ++ pressed j sc d control } := by
  have hsound := h.sound j sc hsc
  refine h.put (.of_server rfl rfl rfl fun p hp => List.mem_append_left _ hp) rfl rfl ?_
  rcases Dialog.use_cases huse with ⟨hsubmitting, hcase⟩
  have hfree := hsound.free hsubmitting
  have hquiet := hsound.quiet hfree
  rcases hcase with ⟨hconflict, hawaits, hidle⟩ | ⟨rfl, hconflict, rfl⟩ | ⟨rfl, ⟨c, hc⟩, rfl⟩ | rfl
  · -- an edit
    rw [hfree] at hawaits
    simp only [hidle, Bool.false_eq_true, if_false, hquiet]
    refine ⟨fun _ => hawaits, fun _ => rfl, fun call hcall => ?_, nofun, nofun, fun c hc => ?_⟩
    · cases hawaits.symm.trans hcall
    · cases hconflict.symm.trans hc
  · refine ⟨nofun, nofun, fun call hcall => ?_, nofun, nofun, fun c hc => ?_⟩
    · exact ⟨false, Option.some.inj hcall, nofun⟩
    · cases hconflict.symm.trans hc
  · -- "Overwrite": the conflict is about the call
    have hgrows : Grows w { w with
        screens := w.screens.set j
          { sc with
            dialog := sc.dialog.submit sc.props true
            wire := if (sc.dialog.submit sc.props true).submitting then .sent else sc.wire }
        presses := w.presses ++ pressed j sc (sc.dialog.submit sc.props true) .overwrite } :=
      .of_server rfl rfl rfl fun p hp => List.mem_append_left _ hp
    refine ⟨nofun, nofun, fun call hcall => ⟨true, Option.some.inj hcall, fun _ request hrequest => ?_⟩,
      nofun, nofun, fun c' hc' request hrequest => ?_⟩
    · cases hcall
      have hfalse := (call_confirm hrequest false).2
      rcases hsound.conflict c hc _ hfalse with ⟨facts, hrefused, hnames⟩
      refine ⟨{ screen := j, shown := alert c sc.pathMapping, pathMapping := sc.pathMapping
                call := sc.dialog.call sc.props true }, ?_, facts, rfl, hrequest,
        Refused.grows hrefused hgrows, fun stamp => tells_alert (congrArg₂ alert (hnames stamp) rfl)⟩
      refine List.mem_append_right _ ?_
      simp [pressed, hc, Dialog.submit]
    · exact (hsound.conflict c' hc' request hrequest).grows hgrows
  · simp only [hsubmitting, Bool.false_eq_true, if_false, hquiet]
    refine ⟨fun _ => hfree, fun _ => rfl, fun call hcall => ?_, nofun, nofun,
      fun c hc request hrequest => ?_⟩
    · cases hfree.symm.trans hcall
    · exact (hsound.conflict c hc request hrequest).grows
        (.of_server rfl rfl rfl fun p hp => List.mem_append_left _ hp)

/-- The call comes out. -/
theorem told_settled (h : Told cwd w) (hsc : w.screens[j]? = some sc) {call : Call}
    (hcall : sc.dialog.awaits = some call) (result : Outcome)
    (hconflict : ∀ request message c, call = .restorePartialHost request →
      result = .conflict message c → Conflicts cwd w j request c) :
    Told cwd { w with
      screens := w.screens.set j { sc with dialog := sc.dialog.settled result, wire := .idle } } := by
  have hsound := h.sound j sc hsc
  have hgrows : Grows w { w with
      screens := w.screens.set j { sc with dialog := sc.dialog.settled result, wire := .idle } } :=
    .of_server rfl rfl rfl fun _ hp => hp
  refine h.put hgrows rfl rfl ⟨fun _ => (Dialog.settled_awaits result).1, fun _ => rfl,
    fun call' hcall' => ?_, nofun, nofun, fun c hc request hrequest => ?_⟩
  · cases (Dialog.settled_awaits result).1.symm.trans hcall'
  · dsimp only at hc hrequest
    rw [Dialog.settled_call] at hrequest
    rcases Dialog.settled_conflict hc with ⟨message, hresult⟩ | hold
    · -- what was submitted is what would be submitted now
      rcases hsound.awaited call hcall with ⟨confirm, hsame, _⟩
      have hhost := (call_confirm hrequest confirm).2
      exact (hconflict _ message c (hsame.symm.trans hhost) hresult).grows hgrows
    · exact (hsound.conflict c hold request hrequest).grows hgrows

theorem told_elsewhere (h : Told cwd w) (hsc : w.screens[j]? = some sc) {id : String}
    {input : PartialRestoreInput} (hawaits : sc.dialog.awaits = some (.restorePartial id input))
    (res : Response) :
    Told cwd { w with screens := w.screens.set j { sc with wire := .answered res } } := by
  have hsound := h.sound j sc hsc
  have hgrows : Grows w { w with screens := w.screens.set j { sc with wire := .answered res } } :=
    .of_server rfl rfl rfl fun _ hp => hp
  have hsame := hsound.grows hgrows
  refine h.put hgrows rfl rfl ⟨hsound.free, fun hnone => ?_, hsame.awaited, nofun,
    fun _ _ request message c hcall => ?_, hsame.conflict⟩
  · cases hawaits.symm.trans hnone
  · cases hawaits.symm.trans hcall

/-- The mapping is only shown. -/
theorem told_polls (h : Told cwd w) (hsc : w.screens[j]? = some sc)
    (pathMapping : Option PathMapping) :
    Told cwd { w with screens := w.screens.set j { sc with pathMapping } } := by
  have hgrows : Grows w { w with screens := w.screens.set j { sc with pathMapping } } :=
    .of_server rfl rfl rfl fun _ hp => hp
  have hsame := (h.sound j sc hsc).grows hgrows
  exact h.put hgrows rfl rfl ⟨hsame.free, hsame.quiet, hsame.awaited, hsame.handled,
    hsame.answered, hsame.conflict⟩

theorem told_unmounts (h : Told cwd w) (hsc : w.screens[j]? = some sc) :
    Told cwd { w with
      screens := w.screens.set j { sc with dialog := { sc.dialog with isOpen := false } } } := by
  have hgrows : Grows w { w with
      screens := w.screens.set j { sc with dialog := { sc.dialog with isOpen := false } } } :=
    .of_server rfl rfl rfl fun _ hp => hp
  have hsame := (h.sound j sc hsc).grows hgrows
  exact h.put hgrows rfl rfl ⟨hsame.free, hsame.quiet, hsame.awaited, hsame.handled,
    hsame.answered, hsame.conflict⟩

/-- A task that answers `TARGET_EXISTS` has found an entry. -/
theorem answers_targetExists {s s' : Server β} {i : ℕ} {t : Restore.Task β}
    (ht : s.tasks[i]? = some t) (hanswer : answer s (.resume i) = some .targetExists)
    (hs : serverStep cwd s (.resume i) = some s') :
    ∃ t', s'.tasks[i]? = some t' ∧ t'.ctx = t.ctx ∧ t'.phase = .answered 409 := by
  have hlt : i < s.tasks.length := (List.getElem?_eq_some_iff.1 ht).1
  have hprobed : t.phase = .probed true := by
    simp only [answer, ht] at hanswer
    split at hanswer
    case h_1 hphase =>
        exact hphase
    case h_2 =>
        unfold beginAnswer at hanswer
        split at hanswer <;> cases hanswer
    case h_3 =>
        cases hanswer
  simp only [serverStep, ht, hprobed] at hs
  cases hs
  exact ⟨_, List.getElem?_set_self hlt, rfl, rfl⟩

/-- Only a task that goes on answers. -/
theorem reply_cases {a : Restore.Action β} {facts : Facts} {i : ℕ} {res : Response}
    (h : w.reply facts a = some (i, res)) :
    a = .resume i ∧ ∃ t ans, w.server.tasks[i]? = some t ∧ answer w.server (.resume i) = some ans ∧
      res = respond t.ctx.request (String.ofList t.ctx.target.absoluteTarget) facts ans := by
  unfold World.reply at h
  split at h
  case h_1 k =>
      split at h
      case h_1 t ans ht hans =>
          cases h
          exact ⟨rfl, t, ans, ht, hans, rfl⟩
      case h_2 =>
          cases h
  case h_2 =>
      cases h

/-- A conflict that the plugin answers is one of the request that the task was posted for. -/
theorem conflicts_of_reply {k m : ℕ} {t : Restore.Task β} {a : Restore.Action β} {facts : Facts}
    {res : Response} {name message : String} {c : Json} (hposted : (k, m) ∈ w.posted)
    (ht : w.server.tasks[m]? = some t) (hcwd : t.ctx.cwd = cwd)
    (hconfirm : t.ctx.request.confirmOverwrite = false) (hreply : w.reply facts a = some (m, res))
    (hs : serverStep cwd w.server a = some w'.server) (hposts : w'.posted = w.posted)
    (hreplies : w'.replies = w.replies ++ [(m, res)])
    (hc : outcome name res = .conflict message c) : Conflicts cwd w' k t.ctx.request c := by
  rcases reply_cases hreply with ⟨rfl, t₀, ans, ht₀, hanswer, hres⟩
  cases ht.symm.trans ht₀
  rw [hres] at hc
  rcases respond_conflict hc with ⟨rfl, rfl⟩
  rcases answers_targetExists ht hanswer hs with ⟨t', ht', hctx, hphase⟩
  refine ⟨facts, ⟨m, t', hposts ▸ hposted, ht', hphase, ?_, ?_⟩, fun stamp => ?_⟩
  · rw [hctx, ← hconfirm]
  · rw [hctx, ← hres, hreplies]
    exact List.mem_append_right _ List.mem_cons_self
  · have htarget : targetOf cwd stamp t.ctx.request =
        String.ofList t.ctx.target.absoluteTarget := by
      simp only [targetOf, RestoreContext.target, hcwd]
      rfl
    rw [htarget]

/-- What the dialogs hear of a step of the plugin. -/
theorem told_serves (h : Told cwd w) {a : Restore.Action β} {server : Server β} (facts : Facts)
    (hs : serverStep cwd w.server a = some server) :
    Told cwd { w with
      server
      screens := Screen.answers w.screens (w.reply facts a)
      replies := w.replies ++ (w.reply facts a).toList } := by
  have hstep := ServerStep.of_step hs
  have hgrows : Grows w { w with
      server
      screens := Screen.answers w.screens (w.reply facts a)
      replies := w.replies ++ (w.reply facts a).toList } :=
    ⟨fun _ hp => hp, fun _ hp => hp, fun _ hp => List.mem_append_left _ hp,
      fun i t ht => server_grows hstep i ht⟩
  refine h.of_grows hgrows rfl fun k u hu => ?_
  cases hreply : w.reply facts a with
  | none =>
      simp only [hreply, Screen.answers] at hu hgrows ⊢
      exact (h.sound k u hu).grows hgrows
  | some reply =>
      rcases reply with ⟨i, res⟩
      simp only [hreply, Screen.answers, List.getElem?_map] at hu
      rcases Option.map_eq_some_iff.1 hu with ⟨sc, hsc, rfl⟩
      have hsame := (h.sound k sc hsc).grows hgrows
      rw [← hreply]
      unfold Screen.hear
      split
      case h_2 =>
          exact hsame
      case h_1 m hwire =>
          split
          case isFalse =>
              exact hsame
          case isTrue hm =>
              subst hm
              -- the request of this dialog
              rcases (h.sound k sc hsc).handled m hwire with
                ⟨request, t, hawaits, hposted, ht, rfl, hcwd, hconfirm⟩
              refine ⟨hsame.free, fun hnone => ?_, hsame.awaited, nofun,
                fun res' hres request' message c hcall hc => ?_, hsame.conflict⟩
              · cases hawaits.symm.trans hnone
              · cases hawaits.symm.trans hcall
                cases hres
                exact conflicts_of_reply hposted ht hcwd hconfirm hreply hs rfl
                  (congrArg (w.replies ++ ·.toList) hreply) hc

theorem beginAnswer_ne (s : Server β) : beginAnswer s ≠ .targetExists := by
  unfold beginAnswer
  split <;> exact nofun

/-- A request that arrives is turned away, or it is a task from then on. -/
theorem post_cases (cwd : List Char) (s : Server β) (request : HostRestoreRequest) (stamp : Stamp) :
    (post cwd s request stamp = s ∧ ∃ ans, answer s (.post request stamp) = some ans ∧
        ans ≠ .targetExists) ∨
      ∃ t : Restore.Task β, (post cwd s request stamp).tasks = s.tasks ++ [t] ∧
        t.ctx = { request, stamp, cwd } ∧
          (answer s (.post request stamp) = none ∧ request.confirmOverwrite = false ∨
            ∃ ans, answer s (.post request stamp) = some ans ∧ ans ≠ .targetExists) := by
  have hanswer : answer s (.post request stamp) =
      if !accepts request then some .invalidInput
      else if s.status.state.isRunning then some .restoreInProgress
      else if request.confirmOverwrite then some (beginAnswer s) else none := rfl
  rw [hanswer]
  unfold post
  cases accepts request with
  | false =>
      exact Or.inl ⟨rfl, .invalidInput, rfl, nofun⟩
  | true =>
      cases s.status.state.isRunning with
      | true =>
          exact Or.inl ⟨rfl, .restoreInProgress, rfl, nofun⟩
      | false =>
          cases hconfirm : request.confirmOverwrite with
          | false =>
              exact Or.inr ⟨_, rfl, rfl, Or.inl ⟨rfl, rfl⟩⟩
          | true =>
              let t : Restore.Task β :=
                { ctx := { request, stamp, cwd }, phase := .probing, start := s.fs }
              refine Or.inr ⟨(begin { s with status := preparingStatus t.ctx } t).2, ?_, ?_,
                Or.inr ⟨beginAnswer s, rfl, beginAnswer_ne s⟩⟩
              · simp only [begin, Bool.not_true, Bool.or_false, Bool.false_eq_true, if_false, if_true]
                split <;> rfl
              · unfold begin
                split <;> rfl

theorem deliver_answered {request : HostRestoreRequest} {stamp : Stamp} {ans : Answer}
    (hans : answer w.server (.post request stamp) = some ans) (facts : Facts) :
    (w.deliver cwd j sc request stamp facts).screens = w.screens.set j
      { sc with wire := .answered (respond request (targetOf cwd stamp request) facts ans) } := by
  simp only [World.deliver, hans]

theorem deliver_handled {request : HostRestoreRequest} {stamp : Stamp}
    (hans : answer w.server (.post request stamp) = none) (facts : Facts) :
    (w.deliver cwd j sc request stamp facts).screens =
      w.screens.set j { sc with wire := .handled w.server.tasks.length } := by
  simp only [World.deliver, hans]

theorem told_deliver (h : Told cwd w) (hsc : w.screens[j]? = some sc) {request : HostRestoreRequest}
    (hcall : sc.dialog.awaits = some (.restorePartialHost request)) (stamp : Stamp) (facts : Facts) :
    Told cwd (w.deliver cwd j sc request stamp facts) := by
  have hsound := h.sound j sc hsc
  have hstep : ServerStep cwd w.server (.post request stamp) (post cwd w.server request stamp) :=
    .of_step rfl
  have hgrows : Grows w (w.deliver cwd j sc request stamp facts) := by
    refine ⟨fun p hp => ?_, fun _ hp => hp, fun _ hp => hp, fun i t ht => server_grows hstep i ht⟩
    dsimp only [World.deliver]
    split
    · exact List.mem_append_left _ hp
    · exact hp
  have hsame := hsound.grows hgrows
  have hturned : ∀ ans, ans ≠ .targetExists → Sound cwd (w.deliver cwd j sc request stamp facts) j
      { sc with wire := .answered (respond request (targetOf cwd stamp request) facts ans) } := by
    intro ans hne
    refine ⟨hsame.free, fun hnone => ?_, hsame.awaited, nofun,
      fun res hres request' message c hcall' hc => ?_, hsame.conflict⟩
    · cases hcall.symm.trans hnone
    · cases hres
      exact absurd (respond_conflict hc).1 hne
  rcases post_cases cwd w.server request stamp with
    ⟨hserver, ans, hans, hne⟩ | ⟨t, htasks, hctx, hanswer⟩
  · -- turned away
    have hposted : (w.deliver cwd j sc request stamp facts).posted = w.posted := by
      simp [World.deliver, hserver]
    exact h.put hgrows hposted (deliver_answered hans facts) (hturned ans hne)
  · -- a task of this dialog
    have hnew : (post cwd w.server request stamp).tasks[w.server.tasks.length]? = some t := by
      rw [htasks, List.getElem?_concat_length]
    have hposted : (w.deliver cwd j sc request stamp facts).posted =
        w.posted ++ [(j, w.server.tasks.length)] := by
      simp [World.deliver, htasks]
    refine ⟨fun k i hk => ?_, ?_, fun k i u hk hu hconfirm => ?_⟩
    · rw [hposted] at hk
      rcases List.mem_append.1 hk with hold | hlast
      · exact h.known_grows hgrows hold
      · cases List.mem_singleton.1 hlast
        exact ⟨t, hnew⟩
    · rcases hanswer with ⟨hans, hconfirm⟩ | ⟨ans, hans, hne⟩
      · refine sound_set h hgrows (deliver_handled hans facts) ⟨hsame.free, fun hnone => ?_,
          hsame.awaited, fun i hi => ?_, nofun, hsame.conflict⟩
        · cases hcall.symm.trans hnone
        · cases hi
          refine ⟨request, t, hcall, ?_, hnew, by rw [hctx], by rw [hctx], hconfirm⟩
          rw [hposted]
          exact List.mem_append_right _ List.mem_cons_self
      · exact sound_set h hgrows (deliver_answered hans facts) (hturned ans hne)
    · rw [hposted] at hk
      rcases List.mem_append.1 hk with hold | hlast
      · exact h.consent_grows hgrows hold hu hconfirm
      · cases List.mem_singleton.1 hlast
        cases hnew.symm.trans hu
        rw [hctx] at hconfirm ⊢
        -- the user has agreed before the dialog submitted it
        rcases hsame.awaited _ hcall with ⟨confirm, hcalled, hagreed⟩
        have hyes := (call_confirm hcalled confirm).1
        exact hagreed (hyes.symm.trans hconfirm) request rfl

theorem told_step (h : Told cwd w) {e : Event β} (hs : w.step cwd e = some w') : Told cwd w' := by
  cases e with
  | opens props pathMapping =>
      cases hs
      exact told_opens h props pathMapping
  | polls j pathMapping =>
      rcases Option.map_eq_some_iff.1 hs with ⟨sc, hsc, rfl⟩
      exact told_polls h hsc pathMapping
  | uses j control =>
      rcases Option.bind_eq_some_iff.1 hs with ⟨sc, hsc, hused⟩
      rcases Option.map_eq_some_iff.1 hused with ⟨d, huse, rfl⟩
      exact told_uses h hsc huse
  | arrives j stamp facts =>
      rcases Option.bind_eq_some_iff.1 hs with ⟨sc, hsc, hrest⟩
      split at hrest
      case h_1 request _ hcall =>
          cases hrest
          exact told_deliver h hsc hcall stamp facts
      case h_2 =>
          cases hrest
  | elsewhere j res =>
      rcases Option.bind_eq_some_iff.1 hs with ⟨sc, hsc, hrest⟩
      split at hrest
      case h_1 id input _ hcall =>
          cases hrest
          exact told_elsewhere h hsc hcall res
      case h_2 =>
          cases hrest
  | serves a facts =>
      rcases Option.map_eq_some_iff.1 hs with ⟨server, hserver, rfl⟩
      exact told_serves h facts hserver
  | receives j =>
      rcases Option.bind_eq_some_iff.1 hs with ⟨sc, hsc, hrest⟩
      split at hrest
      case h_1 res call hwire hcall =>
          cases hrest
          refine told_settled h hsc hcall _ fun request message c hhost hc => ?_
          subst hhost
          exact (h.sound j sc hsc).answered res hwire request message c hcall hc
      case h_2 =>
          cases hrest
  | loses j message =>
      rcases Option.bind_eq_some_iff.1 hs with ⟨sc, hsc, hrest⟩
      split at hrest
      case h_1 =>
          cases hrest
      case h_2 hbusy =>
          cases hrest
          cases hcall : sc.dialog.awaits with
          | none =>
              exact absurd ((h.sound j sc hsc).quiet hcall) hbusy
          | some call =>
              exact told_settled h hsc hcall _ fun _ _ _ _ hc => nomatch hc
  | unmounts j =>
      rcases Option.map_eq_some_iff.1 hs with ⟨sc, hsc, rfl⟩
      exact told_unmounts h hsc

/-- Nothing gets between a probe and the run behind it. -/
def Undisturbed (w : World β) : Event β → Prop
  | .serves a _ => Unchallenged w.server a
  | _ => True

/-- What a step does to the plugin. -/
theorem step_server {e : Event β} (hs : w.step cwd e = some w') :
    w'.server = w.server ∨ ∃ a, ServerStep cwd w.server a w'.server ∧
      (Undisturbed w e → Unchallenged w.server a) := by
  cases e with
  | arrives j stamp facts =>
      rcases Option.bind_eq_some_iff.1 hs with ⟨sc, _, hrest⟩
      split at hrest
      case h_1 request _ _ =>
          cases hrest
          exact Or.inr ⟨.post request stamp, .of_step rfl, fun _ => trivial⟩
      case h_2 =>
          cases hrest
  | serves a facts =>
      rcases Option.map_eq_some_iff.1 hs with ⟨server, hserver, rfl⟩
      exact Or.inr ⟨a, .of_step hserver, id⟩
  | opens props pathMapping =>
      cases hs
      exact Or.inl rfl
  | polls j pathMapping =>
      rcases Option.map_eq_some_iff.1 hs with ⟨sc, _, rfl⟩
      exact Or.inl rfl
  | uses j control =>
      rcases Option.bind_eq_some_iff.1 hs with ⟨sc, _, hrest⟩
      rcases Option.map_eq_some_iff.1 hrest with ⟨d, _, rfl⟩
      exact Or.inl rfl
  | unmounts j =>
      rcases Option.map_eq_some_iff.1 hs with ⟨sc, _, rfl⟩
      exact Or.inl rfl
  | _ =>
      rcases Option.bind_eq_some_iff.1 hs with ⟨sc, _, hrest⟩
      split at hrest <;> cases hrest
      exact Or.inl rfl

end Steps

/-! ## Runs -/

section Runs

variable {cwd : List Char} {w : World β} {C : World β → Event β → Prop}

theorem reachable_told (h : (worldMachine cwd).ReachableUnder C Fresh w) : Told cwd w := by
  refine h.invariant ?_ fun w e w' htold _ hs => told_step htold hs
  rintro w ⟨_, hscreens, _, hposted, _⟩
  refine ⟨fun j i hmem => ?_, fun j sc hsc => ?_, fun j i t hmem => ?_⟩
  · rw [hposted] at hmem
    cases hmem
  · rw [hscreens] at hsc
    cases hsc
  · rw [hposted] at hmem
    cases hmem

/-- The answer of every probe still holds when its run begins. -/
theorem reachable_cleared (h : (worldMachine cwd).ReachableUnder C Fresh w)
    (hC : ∀ w e, C w e → Undisturbed w e) : SingleFlight w.server ∧ Cleared w.server := by
  refine h.invariant (P := fun w => SingleFlight w.server ∧ Cleared w.server) ?_ ?_
  · rintro w ⟨hregistered, _⟩
    refine ⟨hregistered.singleFlight, ?_⟩
    rcases hregistered with ⟨fs, upstream, hserver⟩
    rw [hserver]
    constructor
    · intro i t ht
      simp at ht
    · intro i t await ht
      simp at ht
  · rintro w e w' ⟨hone, hcleared⟩ hmeets hs
    rcases step_server hs with hsame | ⟨a, hstep, hunchallenged⟩
    · rw [hsame]
      exact ⟨hone, hcleared⟩
    · exact ⟨singleFlight_step hone hstep,
        cleared_step hcleared hone (hunchallenged (hC _ _ hmeets)) hstep⟩

end Runs

/-! ## A user who overwrites a chart -/

def oldChart : World Nat where
  server :=
    { fs := emptyDir.put ["d".toList, "chart.db".toList] (.file 1), status := idleStatus
      upstream := true }

def chartProps : RestoreProps where
  backupId := "b1"
  sourcePath := "chart.db".toList
  isDir := false

def midnight : Facts where
  timestamp := "2026-01-01T00:00:00.000Z"
  mtime := "2025-12-24T18:00:00.000Z"
  dated := by decide
  size := "4096"

def signalkMount : PathMapping where
  containerPath := "/signalk-data".toList
  hostPath := "/home/pi/.signalk".toList

/-- The dialog is told of the old chart, and submits once more. -/
def overwrites : List (Event Nat) :=
  [.opens chartProps none, .polls 0 (some signalkMount), .uses 0 (.choose .custom),
    .uses 0 (.type " /d/".toList), .uses 0 .restore,
    .arrives 0 newYear midnight, .serves (.settle 0 .ok) midnight, .serves (.resume 0) midnight,
    .receives 0, .uses 0 .overwrite, .arrives 0 newYear midnight]

end Webapp
end SignalKBackup
