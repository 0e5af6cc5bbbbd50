import SignalKBackup.Lib.Machine
import SignalKBackup.Uplink.State

/-!
# Reporter — the uplink reporter as a machine

`UplinkReporter` runs on one thread, so its state changes only between two awaits.  A `Flight` is
a `report()` that has passed its `sending` check and stands at one of its awaits; the machine
keeps every such call in `flights`, in whatever number the code allows.  An action is an outside
call, a delta, a timer, or one awaited operation settling, so a run is any interleaving of them.

`World` adds to the fields of the class what the reporter talks to: the current `target()`, the
clock, and the state each target has stored.  A rejected request that the target has not applied
yet stays in `abandoned`, from where the target may still apply it.

The fields `lastPut`, `history`, `startedAt` and `nulledAt` record what happened and are never read.
-/

namespace SignalKBackup
namespace Uplink

open Lib

/-- What `currentState()` resolves to. -/
inductive CurrentState
  | state (st : UplinkState)
  | waiting
  deriving DecidableEq, Repr

/-- A `report()` in progress, by the await it stands at. -/
inductive Flight (T : Type)
  /-- `send` waits for `currentState`, which waits for `getPluginsList()`. -/
  | listing (target : T) (generation : Nat)
  /-- `publisherEnabled()` has its answer; `currentState` is about to go on. -/
  | asked (target : T) (generation : Nat) (enabled : Bool)
  /-- `currentState()` has its result; `send` is about to go on. -/
  | decided (target : T) (generation : Nat) (result : CurrentState)
  /-- `send` waits for `putUplinkState(state)`; `applied` once the target has stored it. -/
  | putting (target : T) (generation : Nat) (state : UplinkState) (applied : Bool)
  /-- `send` has returned; `report` is about to go on. -/
  | sent
  deriving DecidableEq, Repr

def Flight.isPutting {T : Type} : Flight T → Bool
  | .putting _ _ _ _ => true
  | _ => false

/-- The fields of `UplinkReporter`; a timer is the time it next fires. -/
structure Reporter (T : Type) where
  resendTimer : Option Nat := none
  waitTimer : Option Nat := none
  /-- Whether `unsubscribes` holds the subscription. -/
  subscribed : Bool := false
  value : Value := .undefined
  last : Option (T × UplinkState) := none
  sending : Bool := false
  queued : Bool := false
  generation : Nat := 0

structure World (T : Type) extends Reporter T where
  flights : List (Flight T) := []
  target : Option T
  now : Nat
  stored : T → Option UplinkState
  abandoned : List (T × UplinkState) := []
  lastPut : T → Option UplinkState := fun _ => none
  /-- The values published since the latest `start()`, the newest first. -/
  history : List Value := []
  startedAt : Option Nat := none
  nulledAt : Option Nat := none

inductive Action (T : Type)
  /-- `start()`; the subscription delivers `cached` before `subscribe` returns. -/
  | start (cached : List Delta)
  | stop
  | report
  /-- `target()` changes, and the caller goes on to `report()`, `start()` or `stop()`. -/
  | retarget (target : Option T)
  | retargetStart (target : Option T) (cached : List Delta)
  | retargetStop (target : Option T)
  | delta (d : Delta)
  | tick (ms : Nat)
  | waitFires
  | resendFires
  /-- `getPluginsList()` settles for the flight at this position. -/
  | pluginsList (i : Nat) (answer : PluginsAnswer)
  /-- The flight at this position goes on after a promise of the reporter's own. -/
  | resume (i : Nat)
  /-- The target applies the request of the flight at this position. -/
  | apply (i : Nat)
  /-- `putUplinkState` resolves or rejects for the flight at this position. -/
  | settle (i : Nat) (ok : Bool)
  /-- The target applies a request that was rejected before. -/
  | applyLate (i : Nat)

variable {T : Type}

/-! ## The methods, up to their first await -/

/-- `waiting()` -/
def waiting (s : World T) : Bool :=
  s.waitTimer.isSome

/-- `startWait()` -/
def startWait (s : World T) : World T :=
  { s with waitTimer := some (s.now + FIRST_STATE_WAIT_MS) }

/-- `stop()` -/
def stop (s : World T) : World T :=
  { s with
    subscribed := false
    resendTimer := none
    waitTimer := none
    value := .undefined
    last := none
    generation := s.generation + 1 }

/-- `send(target)` with `currentState()` and `publisherEnabled()`, up to the first await. -/
def sendHead (hasPluginsList : Bool) (s : World T) (target : T) : Flight T :=
  let state := toUplinkState s.value
  if state.isSome || !waiting s then
    .decided target s.generation (.state state)
  else if hasPluginsList then
    .listing target s.generation
  else
    .asked target s.generation false

/-- `report()` -/
def report (hasPluginsList : Bool) (s : World T) : World T :=
  if s.sending then
    { s with queued := true }
  else
    match s.target with
    | none => s
    | some target =>
        { s with sending := true, flights := s.flights ++ [sendHead hasPluginsList s target] }

/-- One published value, as the loop of `onDelta` takes it. -/
def publish (s : World T) (v : Value) : World T :=
  let s := { s with value := v, history := v :: s.history }
  if v = .null then
    { startWait s with nulledAt := some s.now }
  else
    s

/-- The values of a delta at `UPLINK_PATH`, in order. -/
def published : Delta → List Value
  | [] => []
  | .values vs :: rest =>
      (vs.filter fun pv => pv.path == UPLINK_PATH).map PathValue.value ++ published rest
  | .withoutValues :: rest => published rest

/-- `onDelta(delta)` -/
def onDelta (hasPluginsList : Bool) (s : World T) (d : Delta) : World T :=
  report hasPluginsList ((published d).foldl publish s)

/-- `start()` -/
def start (hasPluginsList : Bool) (cached : List Delta) (s : World T) : World T :=
  let s := { startWait (stop s) with
    resendTimer := some (s.now + UPLINK_RESEND_MS)
    subscribed := true
    history := []
    startedAt := some s.now }
  report hasPluginsList (cached.foldl (onDelta hasPluginsList) s)

/-! ## What happens when an await settles -/

/-- `currentState()` after the plugin list: the value is read again. -/
def decide' (s : World T) (enabled : Bool) : CurrentState :=
  let published := toUplinkState s.value
  if published.isSome || !enabled then
    .state published
  else if waiting s then
    .waiting
  else
    .state none

variable [DecidableEq T]

/-- `send` after `currentState()`: nothing to send, already delivered, or the call of `putUplinkState`. -/
def sendTail (s : World T) (i : Nat) (target : T) (generation : Nat) : CurrentState → World T
  | .waiting => { s with flights := s.flights.set i .sent }
  | .state st =>
      if s.last = some (target, st) then
        { s with flights := s.flights.set i .sent }
      else
        { s with
          flights := s.flights.set i (.putting target generation st false)
          lastPut := Function.update s.lastPut target (some st) }

/-- `send` after `putUplinkState`: a send that `stop()` overtook does not record what it sent. -/
def recordPut (s : World T) (target : T) (generation : Nat) (st : UplinkState) : World T :=
  if generation = s.generation then { s with last := some (target, st) } else s

/-- `report` after `send`: a call asked for meanwhile runs now. -/
def reportTail (hasPluginsList : Bool) (s : World T) (i : Nat) : World T :=
  let s := { s with sending := false, flights := s.flights.eraseIdx i }
  if s.queued then report hasPluginsList { s with queued := false } else s

/-- The transition function of a reporter whose options hold `getPluginsList` or not. -/
def step (hasPluginsList : Bool) (s : World T) : Action T → Option (World T)
  | .start cached => some (start hasPluginsList cached s)
  | .stop => some (stop s)
  | .report => some (report hasPluginsList s)
  | .retarget t => some (report hasPluginsList { s with target := t })
  | .retargetStart t cached => some (start hasPluginsList cached { s with target := t })
  | .retargetStop t => some (stop { s with target := t })
  | .delta d => if s.subscribed then some (onDelta hasPluginsList s d) else none
  | .tick ms => some { s with now := s.now + ms }
  | .waitFires =>
      match s.waitTimer with
      | some due =>
          if due ≤ s.now then some (report hasPluginsList { s with waitTimer := none }) else none
      | none => none
  | .resendFires =>
      match s.resendTimer with
      | some due =>
          if due ≤ s.now then
            some (report hasPluginsList
              { s with resendTimer := some (due + UPLINK_RESEND_MS), last := none })
          else
            none
      | none => none
  | .pluginsList i answer =>
      match s.flights[i]? with
      | some (.listing t g) =>
          some { s with flights := s.flights.set i (.asked t g (publisherEnabled answer)) }
      | _ => none
  | .resume i =>
      match s.flights[i]? with
      | some (.asked t g enabled) =>
          some { s with flights := s.flights.set i (.decided t g (decide' s enabled)) }
      | some (.decided t g r) => some (sendTail s i t g r)
      | some .sent => some (reportTail hasPluginsList s i)
      | _ => none
  | .apply i =>
      match s.flights[i]? with
      | some (.putting t g st false) =>
          some { s with
            flights := s.flights.set i (.putting t g st true)
            stored := Function.update s.stored t (some st) }
      | _ => none
  | .settle i ok =>
      match s.flights[i]? with
      | some (.putting t g st applied) =>
          if ok then
            if applied then
              some (recordPut { s with flights := s.flights.set i .sent } t g st)
            else
              none
          else
            some { s with
              flights := s.flights.set i .sent
              abandoned := if applied then s.abandoned else s.abandoned ++ [(t, st)] }
      | _ => none
  | .applyLate i =>
      match s.abandoned[i]? with
      | some (t, st) =>
          some { s with
            abandoned := s.abandoned.eraseIdx i
            stored := Function.update s.stored t (some st) }
      | none => none

/-! ## What one step can do -/

/-- The ways a step can go, with the guard of each. -/
inductive Step (b : Bool) (s : World T) : Action T → World T → Prop where
  | start (cached : List Delta) : Step b s (.start cached) (start b cached s)
  | stop : Step b s .stop (stop s)
  | report : Step b s .report (report b s)
  | retarget (t : Option T) : Step b s (.retarget t) (report b { s with target := t })
  | retargetStart (t : Option T) (cached : List Delta) :
      Step b s (.retargetStart t cached) (start b cached { s with target := t })
  | retargetStop (t : Option T) : Step b s (.retargetStop t) (Uplink.stop { s with target := t })
  | delta (d : Delta) : s.subscribed = true → Step b s (.delta d) (onDelta b s d)
  | tick (ms : Nat) : Step b s (.tick ms) { s with now := s.now + ms }
  | waitFires {due : Nat} : s.waitTimer = some due → due ≤ s.now →
      Step b s .waitFires (Uplink.report b { s with waitTimer := none })
  | resendFires {due : Nat} : s.resendTimer = some due → due ≤ s.now →
      Step b s .resendFires (Uplink.report b
        { s with resendTimer := some (due + UPLINK_RESEND_MS), last := none })
  | pluginsList {i g : Nat} {t : T} (answer : PluginsAnswer) : s.flights[i]? = some (.listing t g) →
      Step b s (.pluginsList i answer)
        { s with flights := s.flights.set i (.asked t g (publisherEnabled answer)) }
  | decide {i g : Nat} {t : T} {enabled : Bool} : s.flights[i]? = some (.asked t g enabled) →
      Step b s (.resume i) { s with flights := s.flights.set i (.decided t g (decide' s enabled)) }
  | sendTail {i g : Nat} {t : T} {r : CurrentState} : s.flights[i]? = some (.decided t g r) →
      Step b s (.resume i) (sendTail s i t g r)
  | reportTail {i : Nat} : s.flights[i]? = some .sent → Step b s (.resume i) (reportTail b s i)
  | apply {i g : Nat} {t : T} {st : UplinkState} : s.flights[i]? = some (.putting t g st false) →
      Step b s (.apply i)
        { s with
          flights := s.flights.set i (.putting t g st true)
          stored := Function.update s.stored t (some st) }
  | resolved {i g : Nat} {t : T} {st : UplinkState} : s.flights[i]? = some (.putting t g st true) →
      Step b s (.settle i true) (recordPut { s with flights := s.flights.set i .sent } t g st)
  | rejected {i g : Nat} {t : T} {st : UplinkState} {applied : Bool} :
      s.flights[i]? = some (.putting t g st applied) →
      Step b s (.settle i false)
        { s with
          flights := s.flights.set i .sent
          abandoned := if applied then s.abandoned else s.abandoned ++ [(t, st)] }
  | applyLate {i : Nat} {t : T} {st : UplinkState} : s.abandoned[i]? = some (t, st) →
      Step b s (.applyLate i)
        { s with
          abandoned := s.abandoned.eraseIdx i
          stored := Function.update s.stored t (some st) }

theorem Step.of_step {b : Bool} {s s' : World T} {a : Action T} (hs : step b s a = some s') :
    Step b s a s' := by
  cases a with
  | start cached =>
      cases hs
      exact .start cached
  | stop =>
      cases hs
      exact .stop
  | report =>
      cases hs
      exact .report
  | retarget t =>
      cases hs
      exact .retarget t
  | retargetStart t cached =>
      cases hs
      exact .retargetStart t cached
  | retargetStop t =>
      cases hs
      exact .retargetStop t
  | delta d =>
      by_cases hsub : s.subscribed = true
      · have hd : onDelta b s d = s' := by simpa [step, hsub] using hs
        exact hd ▸ .delta d hsub
      · simp [step, hsub] at hs
  | tick ms =>
      cases hs
      exact .tick ms
  | waitFires =>
      simp only [step] at hs
      split at hs
      · rename_i due hdue
        by_cases hle : due ≤ s.now
        · simp only [hle, if_true, Option.some.injEq] at hs
          exact hs ▸ .waitFires hdue hle
        · simp [hle] at hs
      · cases hs
  | resendFires =>
      simp only [step] at hs
      split at hs
      · rename_i due hdue
        by_cases hle : due ≤ s.now
        · simp only [hle, if_true, Option.some.injEq] at hs
          exact hs ▸ .resendFires hdue hle
        · simp [hle] at hs
      · cases hs
  | pluginsList i answer =>
      simp only [step] at hs
      split at hs
      · rename_i t g hf
        cases hs
        exact .pluginsList answer hf
      · cases hs
  | resume i =>
      simp only [step] at hs
      split at hs
      · rename_i t g enabled hf
        cases hs
        exact .decide hf
      · rename_i t g r hf
        cases hs
        exact .sendTail hf
      · rename_i hf
        cases hs
        exact .reportTail hf
      · cases hs
  | apply i =>
      simp only [step] at hs
      split at hs
      · rename_i t g st hf
        cases hs
        exact .apply hf
      · cases hs
  | settle i ok =>
      simp only [step] at hs
      split at hs
      · rename_i t g st applied hf
        cases ok with
        | true =>
            cases applied with
            | true =>
                cases hs
                exact .resolved hf
            | false =>
                simp at hs
        | false =>
            cases hs
            exact .rejected hf
      · cases hs
  | applyLate i =>
      simp only [step] at hs
      split at hs
      · rename_i t st hf
        cases hs
        exact .applyLate hf
      · cases hs

/-- The machine of one reporter. -/
def machine (hasPluginsList : Bool) : Machine (World T) (Action T) :=
  { step := step hasPluginsList }

/-- A reporter that has just been constructed, in front of any target and any stored states. -/
def Fresh (s : World T) : Prop :=
  ∃ target now stored, s = { target := target, now := now, stored := stored }

/-- The last value published since the latest `start()`. -/
def lastPublished (s : World T) : Value :=
  s.history.head?.getD .undefined

/-- Between a `start()` and the next `stop()`. -/
def Running (s : World T) : Prop :=
  s.resendTimer.isSome

/-- A reporter in front of one server, before its first `start()`. -/
def unstarted : World Nat :=
  { target := some 0, now := 0, stored := fun _ => none }

/-- A delta that publishes one known state. -/
def linkDelta (l : Link) : Delta :=
  [.values [{ path := UPLINK_PATH, value := .string l.name }]]

end Uplink
end SignalKBackup
