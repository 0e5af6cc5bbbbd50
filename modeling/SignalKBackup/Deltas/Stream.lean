import SignalKBackup.Deltas.Emitter
import SignalKBackup.Lib.Letters
import SignalKBackup.Lib.Slot

/-!
# Stream — the subscribers of the event stream

`startSignalKEmitter` makes a subscriber, which connects to the server's event stream, cuts it into
frames, and hands the events to `handleEvent`; `stopSignalKEmitter` aborts it.  A subscriber that was
stopped may still be on its way: `connect` looks at `stopped` before each read and behind each error,
and a read that has resolved before the abort is handled all the same (`Streams.late`).

`parse` is `JSON.parse`, with `none` where it throws.
-/

namespace SignalKBackup
namespace Deltas

/-! ## Frames -/

/-- The text before the first blank line, and the text behind it. -/
def cutFrame : List Char → Option (List Char × List Char)
  | [] => none
  | '\n' :: '\n' :: rest => some ([], rest)
  | c :: rest => (cutFrame rest).map fun r => (c :: r.1, r.2)

/-- The complete frames of a buffer, and what is left of it; every frame takes one unit of `fuel`. -/
def cutFrames : ℕ → List Char → List (List Char) × List Char
  | 0, buffer => ([], buffer)
  | fuel + 1, buffer =>
      match cutFrame buffer with
      | none => ([], buffer)
      | some (frame, rest) =>
          let r := cutFrames fuel rest
          (frame :: r.1, r.2)

/-- The `data:` lines of a frame, joined; `none` when there are none. -/
def frameData (frame : List Char) : Option (List Char) :=
  let dataLines :=
    ((frame.splitOn '\n').filter fun l => "data:".toList.isPrefixOf l).map fun l =>
      (l.drop 5).dropWhile Lib.isWhitespace
  if dataLines = [] then none else some (List.intercalate ['\n'] dataLines)

/-- The events a chunk of text completes, and the buffer it leaves. -/
def takeChunk (parse : List Char → Option Event) (buffer text : List Char) :
    List Event × List Char :=
  let buffer := buffer ++ text
  let r := cutFrames buffer.length buffer
  (r.1.filterMap fun frame => (frameData frame).bind parse, r.2)

theorem cutFrame_length {buffer frame rest : List Char} (h : cutFrame buffer = some (frame, rest)) :
    rest.length < buffer.length := by
  fun_induction cutFrame buffer generalizing frame rest with
  | case1 =>
      cases h
  | case2 rest =>
      cases h
      simp only [List.length_cons]
      omega
  | case3 c tail _ ih =>
      rcases Option.map_eq_some_iff.1 h with ⟨r, hr, heq⟩
      cases heq
      have hshorter := ih hr
      simp only [List.length_cons]
      omega

/-- The fuel of `takeChunk` is enough: no complete frame is left behind. -/
theorem cutFrames_complete {fuel : ℕ} {buffer : List Char} (hfuel : buffer.length ≤ fuel) :
    cutFrame (cutFrames fuel buffer).2 = none := by
  induction fuel generalizing buffer with
  | zero =>
      have hempty : buffer = [] := List.length_eq_zero_iff.1 (Nat.le_zero.1 hfuel)
      subst hempty
      rfl
  | succ fuel ih =>
      unfold cutFrames
      cases hcut : cutFrame buffer with
      | none =>
          exact hcut
      | some r =>
          have hshorter := cutFrame_length hcut
          exact ih (by omega)

/-! ## Subscribers -/

/-- What `connect` waits for. -/
inductive ConnectAwait
  | fetch
  | read
  /-- `read()` has resolved with this text, and `connect` is about to go on. -/
  | chunk (text : List Char)
  /-- No `connect` is under way. -/
  | idle
  deriving DecidableEq

structure Subscriber where
  emitter : DeltaEmitterState
  buffer : List Char := []
  await : ConnectAwait

namespace Subscriber

variable (u : Subscriber)

/-- `connect`, up to its first await. -/
def connect : Subscriber :=
  { u with await := if u.emitter.stopped then .idle else .fetch }

/-- The head of the read loop. -/
def readNext : Subscriber :=
  { u with await := if u.emitter.stopped then .idle else .read }

def scheduleReconnect : Subscriber :=
  let delay := u.emitter.reconnectDelayMs
  { u with
    emitter :=
      { u.emitter with reconnectTimer := some delay, reconnectDelayMs := min (delay * 2) 30000 } }

/-- The `catch` of `connect`. -/
def disconnected : Subscriber :=
  let u := { u with await := .idle }
  if u.emitter.stopped then u else u.scheduleReconnect

/-- From the answer of the server to the first read. -/
def connected : Subscriber :=
  { u with emitter := { u.emitter with reconnectDelayMs := 1000 }, buffer := [] }.readNext

/-- The part of `stopSignalKEmitter` that concerns the subscriber. -/
def stop : Subscriber :=
  { u with emitter := { u.emitter with stopped := true, reconnectTimer := none } }

end Subscriber

/-- All subscribers made so far. -/
structure Streams where
  /-- `app.selfId`. -/
  selfId : String
  subscribers : List Subscriber := []
  /-- The position of the running subscriber. -/
  state : Option ℕ := none
  deltas : List Delta := []

namespace Streams

variable (s : Streams)

/-- `startSignalKEmitter`, with `emitSignalKDeltas` set. -/
def startSignalKEmitter (baseUrl : String) : Streams :=
  match s.state with
  | some _ => s
  | none =>
      { s with
        subscribers :=
          s.subscribers ++
            [{ emitter := newEmitter s.selfId baseUrl, await := .idle : Subscriber }.connect]
        state := some s.subscribers.length }

def stopSignalKEmitter : Streams :=
  match s.state with
  | none => s
  | some i => { s with subscribers := s.subscribers.modify i Subscriber.stop, state := none }

/-- The base URL of the running subscriber. -/
def running : Option String :=
  s.state.bind fun i => s.subscribers[i]?.map fun u => u.emitter.baseUrl

/-- The events of a chunk, handled one after another; `clock n` is the time at the n-th. -/
def handleChunk (parse : List Char → Option Event) (i : ℕ) (u : Subscriber) (text : List Char)
    (clock : ℕ → ℤ) : Streams :=
  let r := takeChunk parse u.buffer text
  let w := { emitter := u.emitter, deltas := s.deltas : World }.handleEvents
    (r.1.zipIdx.map fun e => (e.1, clock e.2))
  { s with
    subscribers :=
      s.subscribers.set i { u with emitter := w.emitter, buffer := r.2 : Subscriber }.readNext
    deltas := w.deltas }

inductive Action
  /-- The request of the subscriber at this position is answered, with a stream or with an error. -/
  | fetched (i : ℕ) (ok : Bool)
  /-- `read()` resolves with this text. -/
  | delivered (i : ℕ) (text : List Char)
  /-- The stream ends, or `read()` rejects. -/
  | ended (i : ℕ)
  /-- `connect` goes on behind a read. -/
  | resumes (i : ℕ) (clock : ℕ → ℤ)
  /-- The reconnect timer fires. -/
  | reconnects (i : ℕ)

def step (parse : List Char → Option Event) : Action → Option Streams
  | .fetched i ok =>
      match s.subscribers[i]? with
      | none => none
      | some u =>
          if u.await = .fetch then
            some { s with
              subscribers := s.subscribers.set i (if ok then u.connected else u.disconnected) }
          else none
  | .delivered i text =>
      match s.subscribers[i]? with
      | none => none
      | some u =>
          -- behind the abort a pending read rejects
          if u.await = .read ∧ u.emitter.stopped = false then
            some { s with subscribers := s.subscribers.set i { u with await := .chunk text } }
          else none
  | .ended i =>
      match s.subscribers[i]? with
      | none => none
      | some u =>
          if u.await = .read then
            some { s with subscribers := s.subscribers.set i u.disconnected }
          else none
  | .resumes i clock =>
      match s.subscribers[i]? with
      | none => none
      | some u =>
          match u.await with
          | .chunk text => some (s.handleChunk parse i u text clock)
          | _ => none
  | .reconnects i =>
      match s.subscribers[i]? with
      | none => none
      | some u =>
          if u.emitter.reconnectTimer.isSome then
            some { s with
              subscribers := s.subscribers.set i
                { u with emitter := { u.emitter with reconnectTimer := none } : Subscriber }.connect }
          else none

end Streams

/-! ## What handling an event leaves alone -/

namespace World

/-- The connection stays, and deltas are only added. -/
structure Adds (s s' : World) : Prop where
  baseUrl : s'.emitter.baseUrl = s.emitter.baseUrl
  stopped : s'.emitter.stopped = s.emitter.stopped
  reconnectTimer : s'.emitter.reconnectTimer = s.emitter.reconnectTimer
  deltas : s.deltas <+: s'.deltas

theorem Adds.refl (s : World) : s.Adds s :=
  ⟨rfl, rfl, rfl, List.prefix_rfl⟩

theorem Adds.trans {s t u : World} (h : s.Adds t) (h' : t.Adds u) : s.Adds u :=
  ⟨h'.baseUrl.trans h.baseUrl, h'.stopped.trans h.stopped,
    h'.reconnectTimer.trans h.reconnectTimer, h.deltas.trans h'.deltas⟩

variable (s : World)

theorem emitNotification_adds (key : NotificationKey) (state : AlarmState) (message : String)
    (timestamp : ℤ) : s.Adds (s.emitNotification key state message timestamp) :=
  ⟨rfl, rfl, rfl, List.prefix_append _ _⟩

theorem clearNotification_adds (clock : ℤ) (key : NotificationKey) :
    s.Adds (s.clearNotification clock key) := by
  unfold clearNotification
  split
  case isTrue =>
      exact .refl s
  case isFalse =>
      exact ⟨rfl, rfl, rfl, List.prefix_append _ _⟩

theorem emitMetrics_adds (clock : ℤ) (event : BackupCompletedEvent) :
    s.Adds (s.emitMetrics clock event) :=
  ⟨rfl, rfl, rfl, List.prefix_append _ _⟩

theorem evaluateFailed_adds (clock : ℤ) (event : BackupCompletedEvent) :
    s.Adds (s.evaluateFailed clock event) := by
  unfold evaluateFailed
  split
  case isTrue =>
      have hrecord : s.Adds (s.recordSuccess event) := ⟨rfl, rfl, rfl, List.prefix_rfl⟩
      exact hrecord.trans (clearNotification_adds _ clock .failed)
  case isFalse =>
      exact s.emitNotification_adds _ _ _ _

theorem evaluateOverdue_adds (clock : ℤ) (event : BackupCompletedEvent) :
    s.Adds (s.evaluateOverdue clock event) := by
  unfold evaluateOverdue
  dsimp only
  split
  case h_1 =>
      exact s.emitNotification_adds _ _ _ _
  case h_2 =>
      exact s.clearNotification_adds clock .overdue

theorem evaluateStorageLow_adds (clock : ℤ) (event : BackupCompletedEvent) :
    s.Adds (s.evaluateStorageLow clock event) := by
  unfold evaluateStorageLow
  split
  case isTrue =>
      exact .refl s
  case isFalse =>
      dsimp only
      split
      case h_1 =>
          exact s.emitNotification_adds _ _ _ _
      case h_2 =>
          split
          case isTrue =>
              exact s.clearNotification_adds clock .storageLow
          case isFalse =>
              exact .refl s

/-- The alarms behind the metrics. -/
theorem handleEvent_metrics (clock : ℤ) (event : BackupCompletedEvent) :
    (s.emitMetrics clock event).Adds (s.handleEvent clock (.backupCompleted event)) :=
  ((evaluateFailed_adds _ clock event).trans (evaluateOverdue_adds _ clock event)).trans
    (evaluateStorageLow_adds _ clock event)

theorem handleEvent_adds (clock : ℤ) (event : Event) : s.Adds (s.handleEvent clock event) := by
  cases event with
  | unknown type =>
      exact .refl s
  | backupCompleted event =>
      exact (s.emitMetrics_adds clock event).trans (s.handleEvent_metrics clock event)

theorem handleEvents_adds (events : List (Event × ℤ)) : s.Adds (s.handleEvents events) := by
  induction events generalizing s with
  | nil =>
      exact .refl s
  | cons e events ih =>
      exact (s.handleEvent_adds e.2 e.1).trans (ih _)

end World

/-- The event is one that `handleEvent` looks at. -/
def Event.completed : Event → Bool
  | .backupCompleted _ => true
  | .unknown _ => false

namespace World

variable {s : World}

theorem handleEvents_unknown {events : List (Event × ℤ)}
    (h : ∀ e ∈ events, e.1.completed = false) : s.handleEvents events = s := by
  induction events with
  | nil =>
      rfl
  | cons e events ih =>
      rcases e with ⟨event, clock⟩
      have hevent := h (event, clock) (by simp)
      cases event with
      | unknown type =>
          exact ih fun e he => h e (by simp [he])
      | backupCompleted event =>
          cases hevent

/-- A completed backup is published: its metrics alone are one delta. -/
theorem handleEvents_publishes {events : List (Event × ℤ)} {e : Event × ℤ} (he : e ∈ events)
    (hcompleted : e.1.completed = true) :
    s.deltas.length < (s.handleEvents events).deltas.length := by
  induction events generalizing s with
  | nil =>
      cases he
  | cons first events ih =>
      rcases first with ⟨event, clock⟩
      rcases List.mem_cons.1 he with rfl | hmem
      · cases event with
        | unknown type =>
            cases hcompleted
        | backupCompleted event =>
            calc
              s.deltas.length < (s.emitMetrics clock event).deltas.length := by
                simp [emitMetrics, handleMessage]
              _ ≤ (s.handleEvent clock (.backupCompleted event)).deltas.length :=
                (s.handleEvent_metrics clock event).deltas.length_le
              _ ≤ (s.handleEvents ((.backupCompleted event, clock) :: events)).deltas.length :=
                (handleEvents_adds _ events).deltas.length_le
      · calc
          s.deltas.length ≤ (s.handleEvent clock event).deltas.length :=
            (s.handleEvent_adds clock event).deltas.length_le
          _ < (s.handleEvents ((event, clock) :: events)).deltas.length := ih hmem

end World

/-! ## Stopped subscribers -/

/-- The subscriber keeps its server and stays stopped or running, and a stopped one arms no timer. -/
structure Subscriber.Keeps (u u' : Subscriber) : Prop where
  baseUrl : u'.emitter.baseUrl = u.emitter.baseUrl
  stopped : u'.emitter.stopped = u.emitter.stopped
  reconnectTimer : u.emitter.stopped = true → u.emitter.reconnectTimer = none →
    u'.emitter.reconnectTimer = none

/-- The text of a read that has resolved completes a backup event. -/
def Subscriber.completes (parse : List Char → Option Event) (u : Subscriber) : Bool :=
  match u.await with
  | .chunk text => (takeChunk parse u.buffer text).1.any Event.completed
  | _ => false

theorem Subscriber.disconnected_keeps (u : Subscriber) : u.Keeps u.disconnected := by
  unfold disconnected
  dsimp only
  split
  case isTrue =>
      exact ⟨rfl, rfl, fun _ hnone => hnone⟩
  case isFalse hrunning =>
      exact ⟨rfl, rfl, fun hstopped => absurd hstopped hrunning⟩

namespace Streams

variable {s s' : Streams} {parse : List Char → Option Event}

/-- The running subscriber is the only one that is not stopped, and the others have no timer. -/
structure Sound (s : Streams) : Prop where
  running : ∀ (i : ℕ) (u : Subscriber), s.subscribers[i]? = some u → u.emitter.stopped = false →
    s.state = some i
  quiet : ∀ (i : ℕ) (u : Subscriber), s.subscribers[i]? = some u → u.emitter.stopped = true →
    u.emitter.reconnectTimer = none

/-- A stopped subscriber goes on with a text that completes a backup event. -/
def late (s : Streams) (parse : List Char → Option Event) : Action → Bool
  | .resumes i _ => s.subscribers[i]?.any fun u => u.emitter.stopped && u.completes parse
  | _ => false

theorem handleChunk_published {i : ℕ} {u : Subscriber} {text : List Char} {clock : ℕ → ℤ} :
    (s.handleChunk parse i u text clock).deltas = s.deltas ↔
      (takeChunk parse u.buffer text).1.any Event.completed = false := by
  constructor
  · intro hsame
    by_contra hany
    simp only [Bool.not_eq_false, List.any_eq_true] at hany
    rcases hany with ⟨event, hmem, hcompleted⟩
    rcases List.getElem?_of_mem hmem with ⟨n, hn⟩
    have hzip : (event, clock n) ∈ (takeChunk parse u.buffer text).1.zipIdx.map
        fun e => (e.1, clock e.2) :=
      List.mem_map.2 ⟨(event, n), by simpa [List.mem_zipIdx_iff_getElem?] using hn, rfl⟩
    exact (World.handleEvents_publishes hzip hcompleted).ne' (congrArg List.length hsame)
  · intro hnone
    have hunknown : ∀ e ∈ (takeChunk parse u.buffer text).1.zipIdx.map fun e => (e.1, clock e.2),
        e.1.completed = false := by
      intro e he
      rcases List.mem_map.1 he with ⟨⟨event, n⟩, hzip, rfl⟩
      have hmem := List.mem_of_getElem? (List.mem_zipIdx_iff_getElem?.1 hzip)
      simpa using List.any_eq_false.1 hnone event hmem
    exact congrArg World.deltas (World.handleEvents_unknown hunknown)

/-- What a step does: one subscriber goes on, and deltas come from a chunk only. -/
structure Moves (s : Streams) (parse : List Char → Option Event) (a : Action) (i : ℕ)
    (u u' : Subscriber) (s' : Streams) : Prop where
  at_i : s.subscribers[i]? = some u
  keeps : u.Keeps u'
  subscribers : s'.subscribers = s.subscribers.set i u'
  state : s'.state = s.state
  deltas : (∀ j clock, a ≠ .resumes j clock) ∧ s'.deltas = s.deltas ∨
    ∃ text clock, a = .resumes i clock ∧ u.await = .chunk text ∧
      s' = s.handleChunk parse i u text clock

theorem moves_of_step {a : Action} (hs : s.step parse a = some s') :
    ∃ i u u', Moves s parse a i u u' s' := by
  -- every action looks its subscriber up first
  have hno : ∀ {i : ℕ} {r : Subscriber → Option Streams}
      (h : (match s.subscribers[i]? with | none => none | some u => r u) = some s'),
      ∃ u, s.subscribers[i]? = some u ∧ r u = some s' := by
    intro i r h
    split at h
    case h_1 =>
        cases h
    case h_2 u hu =>
        exact ⟨u, hu, h⟩
  cases a with
  | fetched i ok =>
      rcases hno hs with ⟨u, hu, hif⟩
      split at hif
      case isTrue =>
          cases hif
          refine ⟨i, u, _, hu, ?_, rfl, rfl, Or.inl ⟨by simp, rfl⟩⟩
          cases ok with
          | true =>
              exact ⟨rfl, rfl, fun _ hnone => hnone⟩
          | false =>
              exact u.disconnected_keeps
      case isFalse =>
          cases hif
  | delivered i text =>
      rcases hno hs with ⟨u, hu, hif⟩
      split at hif
      case isTrue =>
          cases hif
          have hkeeps : u.Keeps { u with await := .chunk text } := ⟨rfl, rfl, fun _ hnone => hnone⟩
          exact ⟨i, u, _, hu, hkeeps, rfl, rfl, Or.inl ⟨by simp, rfl⟩⟩
      case isFalse =>
          cases hif
  | ended i =>
      rcases hno hs with ⟨u, hu, hif⟩
      split at hif
      case isTrue =>
          cases hif
          exact ⟨i, u, _, hu, u.disconnected_keeps, rfl, rfl, Or.inl ⟨by simp, rfl⟩⟩
      case isFalse =>
          cases hif
  | resumes i clock =>
      rcases hno hs with ⟨u, hu, hmatch⟩
      split at hmatch
      case h_1 text htext =>
          cases hmatch
          have hadds := World.handleEvents_adds { emitter := u.emitter, deltas := s.deltas }
            ((takeChunk parse u.buffer text).1.zipIdx.map fun e => (e.1, clock e.2))
          refine ⟨i, u, _, hu, ?_, rfl, rfl, Or.inr ⟨text, clock, rfl, htext, rfl⟩⟩
          exact ⟨hadds.baseUrl, hadds.stopped, fun _ hnone => hadds.reconnectTimer.trans hnone⟩
      case h_2 =>
          cases hmatch
  | reconnects i =>
      rcases hno hs with ⟨u, hu, hif⟩
      split at hif
      case isTrue =>
          cases hif
          -- the timer that has fired is not armed any more
          let fired : Subscriber := { u with emitter := { u.emitter with reconnectTimer := none } }
          have hkeeps : u.Keeps fired.connect := ⟨rfl, rfl, fun _ _ => rfl⟩
          exact ⟨i, u, _, hu, hkeeps, rfl, rfl, Or.inl ⟨by simp, rfl⟩⟩
      case isFalse =>
          cases hif

theorem Sound.step (h : Sound s) {a : Action} (hs : s.step parse a = some s') :
    Sound s' ∧ s'.state = s.state := by
  rcases moves_of_step hs with ⟨i, u, u', hmoves⟩
  refine ⟨⟨fun j v hv hrunning => ?_, fun j v hv hstopped => ?_⟩, hmoves.state⟩
  · rw [hmoves.subscribers] at hv
    rcases Lib.getElem?_set_cases hv with ⟨rfl, rfl⟩ | ⟨_, hold⟩
    · have hstate := h.running j u hmoves.at_i (hmoves.keeps.stopped.symm.trans hrunning)
      exact hmoves.state.trans hstate
    · exact hmoves.state.trans (h.running j v hold hrunning)
  · rw [hmoves.subscribers] at hv
    rcases Lib.getElem?_set_cases hv with ⟨rfl, rfl⟩ | ⟨_, hold⟩
    · have hold := hmoves.keeps.stopped.symm.trans hstopped
      exact hmoves.keeps.reconnectTimer hold (h.quiet j u hmoves.at_i hold)
    · exact h.quiet j v hold hstopped

theorem running_step {a : Action} (hs : s.step parse a = some s') : s'.running = s.running := by
  rcases moves_of_step hs with ⟨i, u, u', hmoves⟩
  -- the subscribers keep their base URLs, and the state its position
  have hsame : ∀ j : ℕ, (s'.subscribers[j]?.map fun v => v.emitter.baseUrl) =
      s.subscribers[j]?.map fun v => v.emitter.baseUrl := by
    intro j
    rw [hmoves.subscribers, List.getElem?_set]
    split
    case isTrue hij =>
        subst hij
        rcases List.getElem?_eq_some_iff.1 hmoves.at_i with ⟨hlt, _⟩
        rw [if_pos hlt, hmoves.at_i]
        exact congrArg some hmoves.keeps.baseUrl
    case isFalse =>
        rfl
  simp only [running, hmoves.state, hsame]

theorem running_stop : s.stopSignalKEmitter.running = none := by
  unfold stopSignalKEmitter
  split
  case h_1 hnone =>
      simp [running, hnone]
  case h_2 =>
      rfl

theorem running_start (hnone : s.state = none) (baseUrl : String) :
    (s.startSignalKEmitter baseUrl).running = some baseUrl := by
  simp [running, startSignalKEmitter, hnone, Subscriber.connect, newEmitter]

/-- With no running subscriber, a step publishes exactly when it goes on with a late chunk. -/
theorem Sound.published (h : Sound s) (hnone : s.state = none) {a : Action}
    (hs : s.step parse a = some s') : s'.deltas = s.deltas ↔ s.late parse a = false := by
  rcases moves_of_step hs with ⟨i, u, u', hmoves⟩
  -- nothing runs, so it is a stopped subscriber that moves
  have hstopped : u.emitter.stopped = true := by
    by_contra hrunning
    have hstate := h.running i u hmoves.at_i (by simpa using hrunning)
    rw [hnone] at hstate
    cases hstate
  rcases hmoves.deltas with ⟨hother, hsame⟩ | ⟨text, clock, rfl, htext, rfl⟩
  · refine ⟨fun _ => ?_, fun _ => hsame⟩
    cases a with
    | resumes j clock =>
        exact absurd rfl (hother j clock)
    | _ =>
        rfl
  · have hlate : s.late parse (.resumes i clock) =
        (takeChunk parse u.buffer text).1.any Event.completed := by
      simp [late, hmoves.at_i, hstopped, Subscriber.completes, htext]
    rw [handleChunk_published, hlate]

theorem Sound.startSignalKEmitter (h : Sound s) (baseUrl : String) :
    Sound (s.startSignalKEmitter baseUrl) := by
  unfold Streams.startSignalKEmitter
  split
  case h_1 =>
      exact h
  case h_2 hnone =>
      refine ⟨fun i u hu hrunning => ?_, fun i u hu hstopped => ?_⟩
      · rcases Lib.getElem?_concat_cases hu with hold | ⟨rfl, rfl⟩
        · -- nothing else runs
          have hstate := h.running i u hold hrunning
          rw [hnone] at hstate
          cases hstate
        · rfl
      · rcases Lib.getElem?_concat_cases hu with hold | ⟨rfl, rfl⟩
        · exact h.quiet i u hold hstopped
        · rfl

theorem Sound.stopSignalKEmitter (h : Sound s) : Sound s.stopSignalKEmitter := by
  unfold Streams.stopSignalKEmitter
  split
  case h_1 =>
      exact h
  case h_2 i hstate =>
      refine ⟨fun j u hu hrunning => ?_, fun j u hu hstopped => ?_⟩
      · simp only [List.getElem?_modify, Option.map_eq_map, Option.map_eq_some_iff] at hu
        rcases hu with ⟨v, hv, rfl⟩
        split at hrunning
        case isTrue =>
            cases hrunning
        case isFalse hother =>
            -- the one that was running is the one that is stopped
            have hrunning' := h.running j v hv hrunning
            rw [hstate] at hrunning'
            cases hrunning'
            exact absurd rfl hother
      · simp only [List.getElem?_modify, Option.map_eq_map, Option.map_eq_some_iff] at hu
        rcases hu with ⟨v, hv, rfl⟩
        split
        case isTrue =>
            rfl
        case isFalse hother =>
            rw [if_neg hother] at hstopped
            exact h.quiet j v hv hstopped

theorem stopSignalKEmitter_state : s.stopSignalKEmitter.state = none := by
  unfold stopSignalKEmitter
  split
  case h_1 hnone =>
      exact hnone
  case h_2 =>
      rfl

theorem stopSignalKEmitter_deltas : s.stopSignalKEmitter.deltas = s.deltas := by
  unfold stopSignalKEmitter
  split <;> rfl

/-- Nothing runs, so no timer is armed. -/
theorem Sound.no_timer (h : Sound s) (hnone : s.state = none) {u : Subscriber}
    (hu : u ∈ s.subscribers) : u.emitter.reconnectTimer = none := by
  rcases List.getElem?_of_mem hu with ⟨i, hi⟩
  cases hstopped : u.emitter.stopped with
  | true =>
      exact h.quiet i u hi hstopped
  | false =>
      have hstate := h.running i u hi hstopped
      rw [hnone] at hstate
      cases hstate

end Streams

end Deltas
end SignalKBackup
