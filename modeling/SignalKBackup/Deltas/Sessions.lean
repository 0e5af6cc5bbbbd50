import SignalKBackup.Deltas.Alarms
import SignalKBackup.Deltas.Chunks
import SignalKBackup.Lib.Machine

/-!
# Sessions — subscribers over their connections

A subscriber connects, reads, loses its connection and connects again, and subscribers are started and
stopped meanwhile.  `streams` is the machine of all this; an `Account` records, for each subscriber,
the text of each of its connections and how often it failed since the last one, and who published what.

* `World.online` puts an emitter that has not seen any connection onto one: handling events commutes
  with it (`World.handleEvents_online`).
* `Tells` is what the record tells about a subscriber, and `Kept` is kept by every step (`Kept.step`).
* `reachable_connecting`: a subscriber that runs has one thing under way, and backs off.
* `reachable_published`: what a subscriber has published are the deltas of the complete frames of its
  connections, one connection behind another.
-/

namespace SignalKBackup
namespace Deltas

open Lib

/-! ## Emitters and connections -/

/-- The emitter but for what belongs to the connection. -/
def DeltaEmitterState.offline (e : DeltaEmitterState) : DeltaEmitterState :=
  { e with reconnectTimer := none, reconnectDelayMs := 1000, stopped := false }

namespace World

/-- The same emitter with the connection of `e`, behind deltas of others. -/
def online (s : World) (e : DeltaEmitterState) (past : List Delta) : World where
  emitter :=
    { s.emitter with
      reconnectTimer := e.reconnectTimer, reconnectDelayMs := e.reconnectDelayMs, stopped := e.stopped }
  deltas := past ++ s.deltas

variable (s : World) (e : DeltaEmitterState) (past : List Delta)

theorem online_offline (past : List Delta) :
    { emitter := e, deltas := past : World } = online { emitter := e.offline } e past := by
  simp [online, DeltaEmitterState.offline]

theorem handleMessage_online (updates : List Update) :
    (s.online e past).handleMessage updates = (s.handleMessage updates).online e past := by
  simp [online, handleMessage]

theorem emitNotification_online (key : NotificationKey) (state : AlarmState) (message : String)
    (timestamp : ℤ) : (s.online e past).emitNotification key state message timestamp =
      (s.emitNotification key state message timestamp).online e past := by
  simp [online, emitNotification, handleMessage]

theorem clearNotification_online (clock : ℤ) (key : NotificationKey) :
    (s.online e past).clearNotification clock key = (s.clearNotification clock key).online e past := by
  unfold clearNotification
  by_cases h : key ∈ s.emitter.activeNotifications
  · simp [online, handleMessage, h]
  · simp [online, h]

theorem emitMetrics_online (clock : ℤ) (event : BackupCompletedEvent) :
    (s.online e past).emitMetrics clock event = (s.emitMetrics clock event).online e past :=
  handleMessage_online { s with emitter := { s.emitter with metaEmitted := true } } e past _

theorem evaluateFailed_online (clock : ℤ) (event : BackupCompletedEvent) :
    (s.online e past).evaluateFailed clock event = (s.evaluateFailed clock event).online e past := by
  unfold evaluateFailed
  split
  · exact clearNotification_online (s.recordSuccess event) e past clock .failed
  · exact s.emitNotification_online e past _ _ _ _

theorem evaluateOverdue_online (clock : ℤ) (event : BackupCompletedEvent) :
    (s.online e past).evaluateOverdue clock event = (s.evaluateOverdue clock event).online e past := by
  have hsame : (s.online e past).emitter.lastSuccessByTier = s.emitter.lastSuccessByTier := rfl
  unfold evaluateOverdue
  simp only [hsame]
  split
  · exact s.emitNotification_online e past _ _ _ _
  · exact s.clearNotification_online e past clock .overdue

theorem evaluateStorageLow_online (clock : ℤ) (event : BackupCompletedEvent) :
    (s.online e past).evaluateStorageLow clock event =
      (s.evaluateStorageLow clock event).online e past := by
  have hsame : (s.online e past).emitter.activeNotifications = s.emitter.activeNotifications := rfl
  unfold evaluateStorageLow
  simp only [hsame]
  split
  · rfl
  · split
    · exact s.emitNotification_online e past _ _ _ _
    · split
      · exact s.clearNotification_online e past clock .storageLow
      · rfl

theorem handleEvents_online (events : List (Event × ℤ)) :
    (s.online e past).handleEvents events = (s.handleEvents events).online e past := by
  induction events generalizing s with
  | nil =>
      rfl
  | cons first events ih =>
      rcases first with ⟨event, clock⟩
      have hevent : (s.online e past).handleEvent clock event = (s.handleEvent clock event).online e past := by
        cases event with
        | unknown type =>
            rfl
        | backupCompleted event =>
            simp only [handleEvent, emitMetrics_online, evaluateFailed_online, evaluateOverdue_online,
              evaluateStorageLow_online]
      rw [handleEvents, handleEvents, hevent, ih]

end World

/-! ## Texts -/

/-- The events of the complete frames of a text. -/
def eventsIn (parse : List Char → Option Event) (text : List Char) : List Event :=
  (takeChunk parse [] text).1

/-- What is left of a text behind its complete frames. -/
def restOf (parse : List Char → Option Event) (text : List Char) : List Char :=
  (takeChunk parse [] text).2

theorem takeChunk_append (parse : List Char → Option Event) (text more : List Char) :
    takeChunk parse [] (text ++ more) =
      (eventsIn parse text ++ (takeChunk parse (restOf parse text) more).1,
        (takeChunk parse (restOf parse text) more).2) := by
  -- `framer` cuts piece by piece
  have hfeed := framer.feed_append framer.start text more
  have hrest := congrArg (fun r => r.1.1) hfeed
  have hframes := congrArg (fun r => r.2) hfeed
  simp only [framer] at hrest hframes
  simp only [takeChunk, eventsIn, restOf]
  rw [hrest, hframes, List.filterMap_append]

/-! ## The machine and its record -/

inductive StreamAction
  | starts (baseUrl : String)
  | stops
  /-- A subscriber goes on. -/
  | goes (a : Streams.Action)

def streams (parse : List Char → Option Event) : Machine Streams StreamAction where
  step s
    | .starts baseUrl => some (s.startSignalKEmitter baseUrl)
    | .stops => some s.stopSignalKEmitter
    | .goes a => s.step parse a

/-- What happened to one subscriber. -/
structure Session where
  /-- The text of each of its connections; the last one may be open. -/
  texts : List (List Char) := []
  /-- The events it handled, with their times. -/
  handled : List (Event × ℤ) := []
  /-- How often connecting or reading has failed since the last connection was there. -/
  failures : ℕ := 0

namespace Session

variable (x : Session)

def connects : Session :=
  { x with texts := x.texts ++ [[]], failures := 0 }

def fails : Session :=
  { x with failures := x.failures + 1 }

/-- A chunk comes, in the connection that is open. -/
def receives (text : List Char) (events : List (Event × ℤ)) : Session :=
  { x with
    texts := x.texts.dropLast ++ [x.texts.getLast?.getD [] ++ text]
    handled := x.handled ++ events }

end Session

/-- The events of a chunk, with the times they are handled at. -/
def clockedEvents (parse : List Char → Option Event) (u : Subscriber) (text : List Char)
    (clock : ℕ → ℤ) : List (Event × ℤ) :=
  (takeChunk parse u.buffer text).1.zipIdx.map fun e => (e.1, clock e.2)

structure Account where
  sessions : List Session := []
  /-- The deltas, with who published them. -/
  published : List (ℕ × Delta) := []

namespace Account

variable (account : Account)

/-- The subscriber at this position goes on, and publishes `more`. -/
def goes (i : ℕ) (f : Session → Session) (more : List Delta) : Account where
  sessions := account.sessions.modify i f
  published := account.published ++ more.map fun d => (i, d)

/-- What one subscriber has published. -/
def ownOf (i : ℕ) : List Delta :=
  (account.published.filter fun e => e.1 == i).map Prod.snd

/-- The record behind a step. -/
def next (parse : List Char → Option Event) (s : Streams) (a : StreamAction) (s' : Streams) : Account :=
  match a with
  | .starts _ =>
      match s.state with
      | none => { account with sessions := account.sessions ++ [{}] }
      | some _ => account
  | .stops => account
  | .goes (.fetched i ok) => account.goes i (if ok then Session.connects else Session.fails) []
  | .goes (.delivered i _) => account.goes i id []
  | .goes (.ended i) => account.goes i Session.fails []
  | .goes (.resumes i clock) =>
      match s.subscribers[i]? with
      | some u =>
          match u.await with
          | .chunk text =>
              account.goes i (fun x => x.receives text (clockedEvents parse u text clock))
                (s'.deltas.drop s.deltas.length)
          | _ => account
      | none => account
  | .goes (.reconnects i) => account.goes i id []

end Account

/-- The delay with which the timer is armed at the `n`-th failure in a row, counted from none. -/
def backoff (n : ℕ) : ℕ :=
  min (1000 * 2 ^ n) 30000

theorem backoff_succ (n : ℕ) : min (backoff n * 2) 30000 = backoff (n + 1) := by
  unfold backoff
  rw [pow_succ]
  omega

/-! ## What the record tells -/

/-- The record of a subscriber that has published `own`. -/
structure Tells (parse : List Char → Option Event) (selfId : String) (own : List Delta)
    (u : Subscriber) (x : Session) : Prop where
  /-- One thing is under way. -/
  one : u.emitter.stopped = false → (u.await = .idle ↔ u.emitter.reconnectTimer.isSome)
  quiet : u.emitter.stopped = true → u.emitter.reconnectTimer = none
  delay : u.emitter.stopped = false → u.emitter.reconnectDelayMs = backoff x.failures
  timer : ∀ d ∈ u.emitter.reconnectTimer, ∃ n, x.failures = n + 1 ∧ d = backoff n
  buffer : u.buffer = restOf parse (x.texts.getLast?.getD [])
  events : x.handled.map Prod.fst = x.texts.flatMap (eventsIn parse)
  world : (newWorld selfId u.emitter.baseUrl).handleEvents x.handled =
    { emitter := u.emitter.offline, deltas := own }

section Tells

variable {parse : List Char → Option Event} {selfId : String} {own : List Delta} {u : Subscriber}
  {x : Session}

@[simp] theorem backoff_zero : backoff 0 = 1000 := by
  decide

@[simp] theorem eventsIn_nil (parse : List Char → Option Event) : eventsIn parse [] = [] := rfl

/-- The record of a new subscriber. -/
theorem tells_new (parse : List Char → Option Event) (selfId baseUrl : String) :
    Tells parse selfId [] ({ emitter := newEmitter selfId baseUrl, await := .idle : Subscriber }.connect)
      {} where
  one _ := by simp [Subscriber.connect, newEmitter]
  quiet hstopped := by cases hstopped
  delay _ := by simp [Subscriber.connect, newEmitter]
  timer d hd := by cases hd
  buffer := rfl
  events := rfl
  world := rfl

/-- While something is under way no timer is armed. -/
theorem Tells.no_timer (h : Tells parse selfId own u x) (hawait : u.await ≠ .idle) :
    u.emitter.reconnectTimer = none := by
  cases hstopped : u.emitter.stopped with
  | true =>
      exact h.quiet hstopped
  | false =>
      have hnot : ¬u.emitter.reconnectTimer.isSome := fun harmed => hawait ((h.one hstopped).2 harmed)
      simpa using hnot

theorem Tells.connected (h : Tells parse selfId own u x) (hawait : u.await = .fetch) :
    Tells parse selfId own u.connected x.connects := by
  have hnone : u.connected.emitter.reconnectTimer = none := h.no_timer (by simp [hawait])
  refine ⟨fun hrunning => ?_, fun _ => hnone, fun _ => ?_, fun d hd => ?_, ?_, ?_, h.world⟩
  · have hrunning : u.emitter.stopped = false := hrunning
    simp [hnone]
    simp [Subscriber.connected, Subscriber.readNext, hrunning]
  · simp [Subscriber.connected, Subscriber.readNext, Session.connects]
  · rw [hnone] at hd
    cases hd
  · simp only [Session.connects, List.getLast?_concat, Option.getD_some]
    rfl
  · simp [Session.connects, h.events]

theorem Tells.disconnected (h : Tells parse selfId own u x) (hawait : u.await ≠ .idle) :
    Tells parse selfId own u.disconnected x.fails := by
  unfold Subscriber.disconnected
  dsimp only
  split
  case isTrue hstopped =>
      have hnone := h.no_timer hawait
      refine ⟨fun hrunning => ?_, fun _ => hnone, fun hrunning => ?_, fun d hd => ?_, h.buffer, h.events,
        h.world⟩
      · exact absurd hstopped (by simpa using hrunning)
      · exact absurd hstopped (by simpa using hrunning)
      · rw [show u.emitter.reconnectTimer = none from hnone] at hd
        cases hd
  case isFalse hrunning =>
      have hrunning : u.emitter.stopped = false := by simpa using hrunning
      have hdelay := h.delay hrunning
      refine ⟨fun _ => ?_, fun hstopped => ?_, fun _ => ?_, fun d hd => ?_, h.buffer, h.events, h.world⟩
      · simp [Subscriber.scheduleReconnect]
      · exact absurd hstopped (by simpa [Subscriber.scheduleReconnect] using hrunning)
      · simp only [Subscriber.scheduleReconnect, Session.fails, hdelay, backoff_succ]
      · simp only [Subscriber.scheduleReconnect, hdelay, Option.mem_def, Option.some.injEq] at hd
        exact ⟨x.failures, rfl, hd.symm⟩

theorem Tells.delivered (h : Tells parse selfId own u x) (hawait : u.await = .read) (text : List Char) :
    Tells parse selfId own { u with await := .chunk text } x := by
  refine ⟨fun hrunning => ?_, h.quiet, h.delay, h.timer, h.buffer, h.events, h.world⟩
  have hnone : u.emitter.reconnectTimer = none := h.no_timer (by simp [hawait])
  simp [hnone]

theorem Tells.reconnects (h : Tells parse selfId own u x) :
    Tells parse selfId own
      { u with emitter := { u.emitter with reconnectTimer := none } : Subscriber }.connect x := by
  refine ⟨fun hrunning => ?_, fun _ => rfl, h.delay, fun d hd => ?_, h.buffer, h.events, h.world⟩
  · have hrunning : u.emitter.stopped = false := hrunning
    simp [Subscriber.connect, hrunning]
  · cases hd

theorem Tells.stop (h : Tells parse selfId own u x) : Tells parse selfId own u.stop x := by
  refine ⟨fun hrunning => ?_, fun _ => rfl, fun hrunning => ?_, fun d hd => ?_, h.buffer, h.events,
    h.world⟩
  · cases hrunning
  · cases hrunning
  · cases hd

/-- The subscriber behind a chunk, whose events have been handled, and the deltas they led to. -/
theorem Tells.receives (h : Tells parse selfId own u x) {text : List Char}
    (hawait : u.await = .chunk text) (clock : ℕ → ℤ) (past : List Delta) :
    let w := { emitter := u.emitter, deltas := past : World }.handleEvents (clockedEvents parse u text clock)
    ∃ more, w.deltas = past ++ more ∧
      Tells parse selfId (own ++ more)
        { u with emitter := w.emitter, buffer := (takeChunk parse u.buffer text).2 : Subscriber }.readNext
        (x.receives text (clockedEvents parse u text clock)) := by
  intro w
  -- the same events, handled without a connection
  let w₀ := { emitter := u.emitter.offline : World }.handleEvents (clockedEvents parse u text clock)
  have hw : w = w₀.online u.emitter past := by
    rw [← World.handleEvents_online, ← World.online_offline]
  have hnone : u.emitter.reconnectTimer = none := h.no_timer (by simp [hawait])
  have hchunk := takeChunk_append parse (x.texts.getLast?.getD []) text
  rw [← h.buffer] at hchunk
  rw [hw]
  refine ⟨w₀.deltas, rfl, fun hrunning => ?_, fun _ => hnone, h.delay, fun d hd => ?_, ?_, ?_, ?_⟩
  · have hrunning : u.emitter.stopped = false := hrunning
    simp [Subscriber.readNext, World.online, hrunning, hnone]
  · have hd : d ∈ u.emitter.reconnectTimer := hd
    rw [hnone] at hd
    cases hd
  · simp only [Session.receives, List.getLast?_concat, Option.getD_some, restOf, hchunk]
    rfl
  · have hevents : (clockedEvents parse u text clock).map Prod.fst = (takeChunk parse u.buffer text).1 := by
      simp [clockedEvents, List.map_map, Function.comp_def, List.zipIdx_map_fst]
    have htexts : x.texts.flatMap (eventsIn parse) =
        x.texts.dropLast.flatMap (eventsIn parse) ++ eventsIn parse (x.texts.getLast?.getD []) := by
      rcases List.eq_nil_or_concat x.texts with hnil | ⟨init, last, hlast⟩
      · simp [hnil]
      · simp [hlast]
    simp only [Session.receives, List.map_append, h.events, hevents, htexts, List.flatMap_append,
      List.append_assoc]
    have hmore : eventsIn parse (x.texts.getLast?.getD [] ++ text) =
        eventsIn parse (x.texts.getLast?.getD []) ++ (takeChunk parse u.buffer text).1 :=
      congrArg Prod.fst hchunk
    rw [List.flatMap_singleton, hmore]
  · have hsame : { emitter := u.emitter.offline, deltas := own : World }.handleEvents
        (clockedEvents parse u text clock) = w₀.online u.emitter.offline own := by
      rw [World.online_offline, World.handleEvents_online]
      rfl
    have hbaseUrl : w₀.emitter.baseUrl = u.emitter.baseUrl :=
      (World.handleEvents_adds { emitter := u.emitter.offline } _).baseUrl
    calc
      (newWorld selfId w₀.emitter.baseUrl).handleEvents (x.handled ++ clockedEvents parse u text clock)
          = ((newWorld selfId u.emitter.baseUrl).handleEvents x.handled).handleEvents
              (clockedEvents parse u text clock) := by
        rw [hbaseUrl, World.handleEvents_append]
      _ = { emitter := u.emitter.offline, deltas := own : World }.handleEvents
            (clockedEvents parse u text clock) := by
        rw [h.world]
      _ = w₀.online u.emitter.offline own := hsame

end Tells

/-! ## Every step -/

/-- The inversion of a step. -/
theorem Streams.step_cases {parse : List Char → Option Event} {s s' : Streams} {a : Streams.Action}
    (hs : s.step parse a = some s') :
    ∃ (i : ℕ) (u : Subscriber), s.subscribers[i]? = some u ∧
      ((∃ ok, a = .fetched i ok ∧ u.await = .fetch ∧ s' = { s with
          subscribers := s.subscribers.set i (if ok then u.connected else u.disconnected) }) ∨
        (∃ text, a = .delivered i text ∧ u.await = .read ∧ s' = { s with
          subscribers := s.subscribers.set i { u with await := .chunk text } }) ∨
        (a = .ended i ∧ u.await = .read ∧ s' = { s with
          subscribers := s.subscribers.set i u.disconnected }) ∨
        (∃ text clock, a = .resumes i clock ∧ u.await = .chunk text ∧
          s' = s.handleChunk parse i u text clock) ∨
        (a = .reconnects i ∧ s' = { s with
          subscribers := s.subscribers.set i
            { u with emitter := { u.emitter with reconnectTimer := none } : Subscriber }.connect })) := by
  cases a with
  | fetched i ok =>
      simp only [Streams.step] at hs
      split at hs
      · cases hs
      · rename_i u hu
        split at hs
        case isTrue hawait =>
            cases hs
            exact ⟨i, u, hu, Or.inl ⟨ok, rfl, hawait, rfl⟩⟩
        case isFalse =>
            cases hs
  | delivered i text =>
      simp only [Streams.step] at hs
      split at hs
      · cases hs
      · rename_i u hu
        split at hs
        case isTrue hawait =>
            cases hs
            exact ⟨i, u, hu, Or.inr (Or.inl ⟨text, rfl, hawait.1, rfl⟩)⟩
        case isFalse =>
            cases hs
  | ended i =>
      simp only [Streams.step] at hs
      split at hs
      · cases hs
      · rename_i u hu
        split at hs
        case isTrue hawait =>
            cases hs
            exact ⟨i, u, hu, Or.inr (Or.inr (Or.inl ⟨rfl, hawait, rfl⟩))⟩
        case isFalse =>
            cases hs
  | resumes i clock =>
      simp only [Streams.step] at hs
      split at hs
      · cases hs
      · rename_i u hu
        split at hs
        case h_1 text hawait =>
            cases hs
            exact ⟨i, u, hu, Or.inr (Or.inr (Or.inr (Or.inl ⟨text, clock, rfl, hawait, rfl⟩)))⟩
        case h_2 =>
            cases hs
  | reconnects i =>
      simp only [Streams.step] at hs
      split at hs
      · cases hs
      · rename_i u hu
        split at hs
        case isTrue =>
            cases hs
            exact ⟨i, u, hu, Or.inr (Or.inr (Or.inr (Or.inr ⟨rfl, rfl⟩)))⟩
        case isFalse =>
            cases hs

abbrev Followed := Machine.Watched Streams Account

/-- The record tells about every subscriber, and who published each delta. -/
structure Kept (parse : List Char → Option Event) (w : Followed) : Prop where
  sound : w.state.Sound
  tells : ∀ (i : ℕ) (u : Subscriber), w.state.subscribers[i]? = some u →
    ∃ x, w.record.sessions[i]? = some x ∧ Tells parse w.state.selfId (w.record.ownOf i) u x
  length : w.record.sessions.length = w.state.subscribers.length
  deltas : w.record.published.map Prod.snd = w.state.deltas
  made : ∀ e ∈ w.record.published, e.1 < w.state.subscribers.length

/-- A subscriber that has handled a chunk. -/
def handled (parse : List Char → Option Event) (u : Subscriber) (text : List Char) (clock : ℕ → ℤ)
    (past : List Delta) : Subscriber :=
  let w := { emitter := u.emitter, deltas := past : World }.handleEvents (clockedEvents parse u text clock)
  { u with emitter := w.emitter, buffer := (takeChunk parse u.buffer text).2 : Subscriber }.readNext

section Steps

variable {parse : List Char → Option Event} {w : Followed} {i : ℕ} {u u' : Subscriber} {x : Session}

theorem ownOf_goes (account : Account) (i j : ℕ) (f : Session → Session) (more : List Delta) :
    (account.goes i f more).ownOf j = account.ownOf j ++ if j = i then more else [] := by
  by_cases h : j = i
  · subst h
    simp [Account.ownOf, Account.goes, List.filter_map, Function.comp_def, List.map_map]
  · have hne : (i == j) = false := by simpa using Ne.symm h
    simp [Account.ownOf, Account.goes, List.filter_map, Function.comp_def, hne, h]

/-- One subscriber goes on, and publishes `more`. -/
theorem Kept.goes (h : Kept parse w) (hu : w.state.subscribers[i]? = some u)
    {s' : Streams} (hsound : s'.Sound) (hself : s'.selfId = w.state.selfId)
    (hsubscribers : s'.subscribers = w.state.subscribers.set i u') {more : List Delta}
    (hdeltas : s'.deltas = w.state.deltas ++ more) (f : Session → Session)
    (htells : ∀ x, Tells parse w.state.selfId (w.record.ownOf i) u x →
      Tells parse w.state.selfId (w.record.ownOf i ++ more) u' (f x)) :
    Kept parse ⟨s', w.record.goes i f more⟩ where
  sound := hsound
  tells j v hv := by
    rw [hsubscribers] at hv
    rw [hself, ownOf_goes]
    rcases getElem?_set_cases hv with ⟨rfl, rfl⟩ | ⟨hne, hold⟩
    · rcases h.tells j u hu with ⟨x, hx, htell⟩
      refine ⟨f x, ?_, ?_⟩
      · simp [Account.goes, hx]
      · rw [if_pos rfl]
        exact htells x htell
    · rcases h.tells j v hold with ⟨x, hx, htell⟩
      refine ⟨x, ?_, ?_⟩
      · simp [Account.goes, List.getElem?_modify_ne _ _ (Ne.symm hne), hx]
      · rw [if_neg hne, List.append_nil]
        exact htell
  length := by simp [Account.goes, hsubscribers, h.length]
  deltas := by simp [Account.goes, hdeltas, h.deltas, List.map_map, Function.comp_def]
  made e he := by
    rw [hsubscribers, List.length_set]
    rcases List.mem_append.1 he with he | he
    · exact h.made e he
    · rcases List.mem_map.1 he with ⟨d, _, rfl⟩
      exact (List.getElem?_eq_some_iff.1 hu).1

/-- Nothing is published. -/
theorem Kept.goes_silently (h : Kept parse w) (hu : w.state.subscribers[i]? = some u)
    {s' : Streams} (hsound : s'.Sound)
    (hs' : s' = { w.state with subscribers := w.state.subscribers.set i u' }) (f : Session → Session)
    (htells : ∀ x, Tells parse w.state.selfId (w.record.ownOf i) u x →
      Tells parse w.state.selfId (w.record.ownOf i) u' (f x)) :
    Kept parse ⟨s', w.record.goes i f []⟩ := by
  subst hs'
  refine h.goes hu hsound rfl rfl (List.append_nil _).symm f fun x hx => ?_
  rw [List.append_nil]
  exact htells x hx

theorem Kept.step (h : Kept parse w) {a : Streams.Action} {s' : Streams}
    (hs : w.state.step parse a = some s') :
    Kept parse ⟨s', w.record.next parse w.state (.goes a) s'⟩ := by
  have hsound := (h.sound.step hs).1
  rcases Streams.step_cases hs with ⟨i, u, hu, hcase⟩
  rcases hcase with ⟨ok, rfl, hawait, hs'⟩ | ⟨text, rfl, hawait, hs'⟩ | ⟨rfl, hawait, hs'⟩ |
    ⟨text, clock, rfl, hawait, hs'⟩ | ⟨rfl, hs'⟩
  · refine h.goes_silently hu hsound hs' _ fun x hx => ?_
    cases ok with
    | true =>
        exact hx.connected hawait
    | false =>
        exact hx.disconnected (by simp [hawait])
  · exact h.goes_silently hu hsound hs' id fun x hx => hx.delivered hawait text
  · exact h.goes_silently hu hsound hs' _ fun x hx => hx.disconnected (by simp [hawait])
  · simp only [Account.next, hu, hawait]
    subst hs'
    have hmore : ∀ x, Tells parse w.state.selfId (w.record.ownOf i) u x →
        (w.state.handleChunk parse i u text clock).deltas = w.state.deltas ++
            (w.state.handleChunk parse i u text clock).deltas.drop w.state.deltas.length ∧
          Tells parse w.state.selfId (w.record.ownOf i ++
              (w.state.handleChunk parse i u text clock).deltas.drop w.state.deltas.length)
            (handled parse u text clock w.state.deltas)
            (x.receives text (clockedEvents parse u text clock)) := by
      intro x hx
      rcases hx.receives hawait clock w.state.deltas with ⟨more, hdeltas, htells⟩
      have hdeltas : (w.state.handleChunk parse i u text clock).deltas = w.state.deltas ++ more := hdeltas
      rw [hdeltas, List.drop_left]
      exact ⟨rfl, htells⟩
    rcases h.tells i u hu with ⟨x, _, hx⟩
    exact h.goes hu hsound rfl rfl (hmore x hx).1 _ fun x hx => (hmore x hx).2
  · exact h.goes_silently hu hsound hs' id fun x hx => hx.reconnects

theorem Kept.starts (h : Kept parse w) (baseUrl : String) :
    Kept parse ⟨w.state.startSignalKEmitter baseUrl,
      w.record.next parse w.state (.starts baseUrl) (w.state.startSignalKEmitter baseUrl)⟩ := by
  have hsound := h.sound.startSignalKEmitter baseUrl
  cases hstate : w.state.state with
  | some i =>
      -- one runs already
      have hsame : w.state.startSignalKEmitter baseUrl = w.state := by
        unfold Streams.startSignalKEmitter
        rw [hstate]
      simp only [Account.next, hstate, hsame]
      exact h
  | none =>
      simp only [Streams.startSignalKEmitter, hstate] at hsound
      simp only [Account.next, Streams.startSignalKEmitter, hstate]
      refine ⟨hsound, fun i u hu => ?_, by simp [h.length], h.deltas, fun e he => ?_⟩
      · rcases getElem?_concat_cases hu with hold | ⟨rfl, rfl⟩
        · rcases h.tells i u hold with ⟨x, hx, htells⟩
          refine ⟨x, ?_, htells⟩
          rw [List.getElem?_append_left (List.getElem?_eq_some_iff.1 hx).1, hx]
        · refine ⟨{}, by rw [← h.length, List.getElem?_concat_length], ?_⟩
          -- nobody has published at this position yet
          have hnone : w.record.ownOf w.state.subscribers.length = [] := by
            refine List.map_eq_nil_iff.2 (List.filter_eq_nil_iff.2 fun e he => ?_)
            have hlt := h.made e he
            simp only [beq_iff_eq]
            omega
          exact hnone.symm ▸ tells_new parse w.state.selfId baseUrl
      · have hlt := h.made e he
        rw [List.length_append]
        omega

theorem Kept.stops (h : Kept parse w) : Kept parse ⟨w.state.stopSignalKEmitter, w.record⟩ := by
  have hsound := h.sound.stopSignalKEmitter
  cases hstate : w.state.state with
  | none =>
      have hsame : w.state.stopSignalKEmitter = w.state := by
        unfold Streams.stopSignalKEmitter
        rw [hstate]
      rw [hsame]
      exact h
  | some i =>
      simp only [Streams.stopSignalKEmitter, hstate] at hsound ⊢
      refine ⟨hsound, fun j u hu => ?_, by simp [h.length], h.deltas, fun e he => ?_⟩
      · simp only [List.getElem?_modify, Option.map_eq_map, Option.map_eq_some_iff] at hu
        rcases hu with ⟨v, hv, rfl⟩
        rcases h.tells j v hv with ⟨x, hx, htells⟩
        refine ⟨x, hx, ?_⟩
        split
        · exact htells.stop
        · exact htells
      · rw [List.length_modify]
        exact h.made e he

end Steps

/-! ## Runs -/

/-- The Signal K server has just started. -/
def Unstarted (w : Followed) : Prop :=
  w.state.subscribers = [] ∧ w.state.state = none ∧ w.state.deltas = [] ∧ w.record = {}

/-- Any starts and stops, and any behaviour of the servers. -/
def Followed.Reachable (parse : List Char → Option Event) : Followed → Prop :=
  ((streams parse).watch fun account => account.next parse).Reachable Unstarted

section Runs

variable {parse : List Char → Option Event} {w : Followed}

theorem Unstarted.kept (h : Unstarted w) : Kept parse w := by
  rcases w with ⟨s, account⟩
  rcases h with ⟨hsubscribers, hstate, hdeltas, rfl⟩
  have hsubscribers : s.subscribers = [] := hsubscribers
  have hdeltas : s.deltas = [] := hdeltas
  refine ⟨⟨fun i u hu => ?_, fun i u hu => ?_⟩, fun i u hu => ?_, ?_, hdeltas.symm, fun e he => ?_⟩
  · simp [hsubscribers] at hu
  · simp [hsubscribers] at hu
  · simp [hsubscribers] at hu
  · simp [hsubscribers]
  · cases he

theorem kept_of_reachable (h : w.Reachable parse) : Kept parse w := by
  refine Machine.ReachableUnder.invariant h (fun _ hw => hw.kept) fun w a w' hw _ hstep => ?_
  rcases Machine.watch_step_eq_some.1 hstep with ⟨hs, hrecord⟩
  rcases w' with ⟨s', account'⟩
  have hrecord : account' = w.record.next parse w.state a s' := hrecord
  subst hrecord
  cases a with
  | starts baseUrl =>
      cases hs
      exact hw.starts baseUrl
  | stops =>
      cases hs
      exact hw.stops
  | goes a =>
      exact hw.step hs

/-- A subscriber that runs always has one thing under way: a connection that is made or read, or the
reconnect timer, armed for the delay that belongs to the failures since the last connection.  One
that has been stopped has no timer. -/
theorem reachable_connecting (h : w.Reachable parse) {i : ℕ} {u : Subscriber}
    (hu : w.state.subscribers[i]? = some u) :
    (u.emitter.stopped = true → u.emitter.reconnectTimer = none) ∧
      (u.emitter.stopped = false → w.state.state = some i ∧
        ((u.await ≠ .idle ∧ u.emitter.reconnectTimer = none) ∨
          ∃ x n, w.record.sessions[i]? = some x ∧ x.failures = n + 1 ∧ u.await = .idle ∧
            u.emitter.reconnectTimer = some (backoff n))) := by
  have hkept := kept_of_reachable h
  rcases hkept.tells i u hu with ⟨x, hx, htells⟩
  refine ⟨htells.quiet, fun hrunning => ⟨hkept.sound.running i u hu hrunning, ?_⟩⟩
  have hone := htells.one hrunning
  cases htimer : u.emitter.reconnectTimer with
  | none =>
      refine Or.inl ⟨fun hidle => ?_, rfl⟩
      have harmed := hone.1 hidle
      rw [htimer] at harmed
      cases harmed
  | some d =>
      rcases htells.timer d htimer with ⟨n, hfailures, rfl⟩
      exact Or.inr ⟨x, n, hx, hfailures, hone.2 (by rw [htimer]; rfl), rfl⟩

/-- Each subscriber has handled the events of the complete frames of its connections, one connection
behind another and each frame once, and what it has published are the deltas of just these events;
the deltas of all subscribers together are those that were published. -/
theorem reachable_published (h : w.Reachable parse) :
    w.record.published.map Prod.snd = w.state.deltas ∧
      ∀ (i : ℕ) (u : Subscriber), w.state.subscribers[i]? = some u → ∃ x, w.record.sessions[i]? = some x ∧
        x.handled.map Prod.fst = x.texts.flatMap (eventsIn parse) ∧
        (newWorld w.state.selfId u.emitter.baseUrl).handleEvents x.handled =
          { emitter := u.emitter.offline, deltas := w.record.ownOf i } := by
  have hkept := kept_of_reachable h
  refine ⟨hkept.deltas, fun i u hu => ?_⟩
  rcases hkept.tells i u hu with ⟨x, hx, htells⟩
  exact ⟨x, hx, htells.events, htells.world⟩

end Runs

/-! ## Two failures, and a connection -/

/-- Every frame with data is a run of the hourly tier that failed. -/
def failedParse (_ : List Char) : Option Event :=
  some (.backupCompleted (plainRun .hourly 0 .failure))

def unstarted : Followed where
  state := { selfId := "urn:boat" }
  record := {}

/-- The server cannot be reached twice; the connection then made ends inside the second frame. -/
def failing : List StreamAction :=
  [.starts "http://a", .goes (.fetched 0 false), .goes (.reconnects 0), .goes (.fetched 0 false)]

def reading : List StreamAction :=
  [.goes (.reconnects 0), .goes (.fetched 0 true), .goes (.delivered 0 "data: {}\n\nda".toList),
    .goes (.resumes 0 fun _ => 0), .goes (.ended 0)]

theorem unstarted_unstarted : Unstarted unstarted :=
  ⟨rfl, rfl, rfl, rfl⟩

theorem reachable_connecting_twice :
    ∃ (w : Followed) (u : Subscriber) (x : Session) (n : ℕ),
      ((streams failedParse).watch fun account => account.next failedParse).run unstarted failing = some w ∧
      w.state.subscribers[0]? = some u ∧ w.record.sessions[0]? = some x ∧ x.failures = n + 1 ∧
      u.emitter.reconnectTimer = some (backoff n) ∧ backoff n = 2000 := by
  have hrun : (((streams failedParse).watch fun account => account.next failedParse).run unstarted
      failing).any (fun w => w.state.subscribers[0]?.any fun u => !u.emitter.stopped &&
        u.emitter.reconnectTimer == some 2000) = true := by decide +kernel
  rcases (Option.any_eq_true _ _).1 hrun with ⟨w, hw, hsome⟩
  rcases (Option.any_eq_true _ _).1 hsome with ⟨u, hu, hstate⟩
  simp only [Bool.and_eq_true, Bool.not_eq_true', beq_iff_eq] at hstate
  have hconnecting := reachable_connecting (Machine.Reachable.run (.init unstarted_unstarted) hw) hu
  rcases (hconnecting.2 hstate.1).2 with ⟨_, hnone⟩ | ⟨x, n, hx, hfailures, _, harmed⟩
  · rw [hstate.2] at hnone
    cases hnone
  · refine ⟨w, u, x, n, hw, hu, hx, hfailures, harmed, ?_⟩
    rw [hstate.2] at harmed
    exact (Option.some.inj harmed).symm

theorem reachable_published_once :
    ∃ (w : Followed) (u : Subscriber) (x : Session),
      ((streams failedParse).watch fun account => account.next failedParse).run unstarted
        (failing ++ reading) = some w ∧
      w.state.subscribers[0]? = some u ∧ w.record.sessions[0]? = some x ∧
      x.handled.map Prod.fst = x.texts.flatMap (eventsIn failedParse) ∧ x.handled.length = 1 ∧
      (newWorld w.state.selfId u.emitter.baseUrl).handleEvents x.handled =
        { emitter := u.emitter.offline, deltas := w.record.ownOf 0 } := by
  have hrun : (((streams failedParse).watch fun account => account.next failedParse).run unstarted
      (failing ++ reading)).any (fun w => w.state.subscribers[0]?.isSome &&
        w.record.sessions[0]?.any fun x => x.handled.length == 1) = true := by decide +kernel
  rcases (Option.any_eq_true _ _).1 hrun with ⟨w, hw, hsome⟩
  simp only [Bool.and_eq_true, Option.isSome_iff_exists] at hsome
  rcases hsome with ⟨⟨u, hu⟩, hlength⟩
  rcases (reachable_published (Machine.Reachable.run (.init unstarted_unstarted) hw)).2 0 u hu with
    ⟨x, hx, hevents, hworld⟩
  refine ⟨w, u, x, hw, hu, hx, hevents, ?_, hworld⟩
  rw [hx] at hlength
  simpa using hlength

end Deltas
end SignalKBackup
