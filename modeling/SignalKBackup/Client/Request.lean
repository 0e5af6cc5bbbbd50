import Mathlib.Data.Nat.Basic
import Mathlib.Order.Basic
import SignalKBackup.Lib.Json
import SignalKBackup.Lib.Timed

/-!
# Request — one call of the backup-server's API, with its timeout

`BackupClient.request` await by await: the response, and behind it the text of an error or the
JSON.  The request holds a timer and, when the caller passed a signal, a listener; both call
`controller.abort()`, and the awaited promise then settles before time goes on.

* `Live` is what holds while a request is under way; `live_settle`, `live_expire` and
  `live_callerAborts` say that its steps keep it.
* `Live.inTime`: a request is over when its timeout has passed.
-/

namespace SignalKBackup
namespace Client

open Lib

/-- The delay of a timer, in Node's limits. -/
def timerMs (ms : ℕ) : ℕ :=
  if ms < 1 ∨ 2147483647 < ms then 1 else ms

theorem timerMs_pos (ms : ℕ) : 0 < timerMs ms := by
  unfold timerMs
  split
  case isTrue =>
      exact Nat.one_pos
  case isFalse h =>
      omega

/-! ## The answer -/

/-- `JSON.stringify` in a text; of `undefined` it is `undefined`. -/
def errorText : Option Json → String
  | none => "undefined"
  | some e => e.stringify

/-- From the JSON of a successful response to the result; `none` is `undefined`. -/
def unwrap (path : String) (raw : Json) : Except String (Option Json) :=
  match raw with
  | .object members =>
      -- `'success' in raw`
      match members.lookup "success" with
      | none => .ok (some raw)
      | some success =>
          if Json.truthy (some success) then .ok (members.lookup "data")
          else .error ("backup-server " ++ path ++ " not-ok: " ++ errorText (members.lookup "error"))
  | _ => .ok (some raw)

/-! ## The request -/

abbrev Result := Except String (Option Json)

inductive RequestAwait
  | fetch
  /-- `res.text()` of a response that is not ok. -/
  | text (status : ℕ)
  | json
  | ended (result : Result)

structure Request where
  path : String
  timeoutMs : ℕ
  /-- When the request was made. -/
  begun : ℕ
  await : RequestAwait
  /-- When the timer fires. -/
  timer : Option ℕ
  /-- `onCallerAbort` is registered. -/
  listening : Bool
  /-- Since when `controller.signal` is aborted. -/
  aborted : Option ℕ

/-- How the awaited promise settles. -/
inductive Answer
  | responds (ok : Bool) (status : ℕ)
  | body (text : String)
  | value (raw : Json)
  | rejects (message : String)

namespace Request

/-- `request`, up to its first await; `signal` is the caller's, if any, and whether it is aborted. -/
def make (now : ℕ) (path : String) (timeoutMs : ℕ) (signal : Option Bool) : Request :=
  { path, timeoutMs
    begun := now
    await := .fetch
    timer := some (now + timerMs timeoutMs)
    listening := signal.isSome
    aborted := if signal = some true then some now else none }

def isOver (r : Request) : Bool :=
  match r.await with
  | .ended _ => true
  | _ => false

/-- The `catch` block. -/
def caught (r : Request) (message : String) : Result :=
  if r.aborted.isSome then
    .error ("backup-server " ++ r.path ++ " timed out after " ++ toString r.timeoutMs ++ "ms")
  else .error message

/-- The `finally` block, and the end. -/
def finish (r : Request) (result : Result) : Request :=
  { r with await := .ended result, timer := none, listening := false }

/-- The awaited promise settles. -/
def settle (r : Request) (a : Answer) : Option Request :=
  match r.await, a with
  | .ended _, _ => none
  | .fetch, .responds true _ => some { r with await := .json }
  | .fetch, .responds false status => some { r with await := .text status }
  | .text status, .body text =>
      some (r.finish (r.caught ("backup-server " ++ r.path ++ " " ++ toString status ++ ": " ++
        String.ofList (text.toList.take 200))))
  | .json, .value raw =>
      match unwrap r.path raw with
      | .ok v => some (r.finish (.ok v))
      | .error message => some (r.finish (r.caught message))
  | _, .rejects message => some (r.finish (r.caught message))
  | _, _ => none

/-- `controller.abort()` -/
def abort (r : Request) (now : ℕ) : Request :=
  { r with aborted := r.aborted.or (some now) }

/-- The timer fires. -/
def expire (r : Request) (now : ℕ) : Option Request :=
  if r.timer.any (· ≤ now) then some ({ r with timer := none }.abort now) else none

/-- The caller's signal is aborted; the listener is registered `once`. -/
def callerAborts (r : Request) (now : ℕ) : Request :=
  if r.listening then { r with listening := false }.abort now else r

/-- The timer, and the promise that an abort rejects at once. -/
def due (r : Request) : List ℕ :=
  r.timer.toList ++ if r.isOver then [] else r.aborted.toList

/-! ## Under way -/

/-- What holds of a request under way. -/
structure Live (signal : Option Bool) (now : ℕ) (r : Request) : Prop where
  waits : r.isOver = false
  begun : r.begun ≤ now
  /-- The timer is armed, or it has fired. -/
  timer : ∀ t, r.timer = some t → t = r.begun + timerMs r.timeoutMs ∧ now ≤ t
  fired : r.timer = none → r.aborted.isSome = true
  /-- An abort is dealt with at its instant. -/
  aborted : ∀ t, r.aborted = some t → t = now ∧ now ≤ r.begun + timerMs r.timeoutMs
  signalled : signal = some true → r.aborted.isSome = true
  listens : r.listening = true → signal.isSome = true
  hears : signal = some false → r.listening = true

/-- What is left of a request that is over. -/
structure Over (r : Request) : Prop where
  done : r.isOver = true
  timer : r.timer = none
  listening : r.listening = false

theorem over_finish (r : Request) (result : Result) : (r.finish result).Over :=
  ⟨rfl, rfl, rfl⟩

theorem live_make (now : ℕ) (path : String) (timeoutMs : ℕ) (signal : Option Bool) :
    (make now path timeoutMs signal).Live signal now := by
  refine ⟨rfl, le_rfl, ?_, nofun, ?_, ?_, id, ?_⟩
  · rintro _ ⟨⟩
    exact ⟨rfl, Nat.le_add_right _ _⟩
  · intro t ht
    simp only [make] at ht
    split at ht
    case isTrue =>
        cases ht
        exact ⟨rfl, Nat.le_add_right _ _⟩
    case isFalse =>
        cases ht
  · rintro rfl
    rfl
  · rintro rfl
    rfl

section Steps

variable {signal : Option Bool} {now : ℕ} {r r' : Request}

/-- A request under way is over by its timeout. -/
theorem Live.inTime (h : r.Live signal now) : now ≤ r.begun + timerMs r.timeoutMs := by
  cases htimer : r.timer with
  | some t =>
      rcases h.timer t htimer with ⟨rfl, hnow⟩
      exact hnow
  | none =>
      rcases Option.isSome_iff_exists.1 (h.fired htimer) with ⟨t, ht⟩
      exact (h.aborted t ht).2

theorem Live.due (h : r.Live signal now) : ∀ t ∈ r.due, now ≤ t := by
  intro t ht
  simp only [Request.due, h.waits, Bool.false_eq_true, if_false, List.mem_append,
    Option.mem_toList] at ht
  rcases ht with htimer | haborted
  · exact (h.timer t htimer).2
  · exact le_of_eq (h.aborted t haborted).1.symm

theorem Over.due (h : r.Over) : r.due = [] := by
  simp [Request.due, h.done, h.timer]

/-- Time goes on, up to what is due. -/
theorem Live.passes (h : r.Live signal now) {ms : ℕ} (hdue : ∀ t ∈ r.due, now + ms ≤ t) :
    r.Live signal (now + ms) := by
  have htimer : ∀ t, r.timer = some t → now + ms ≤ t := fun t ht => hdue t (by simp [Request.due, ht])
  refine ⟨h.waits, h.begun.trans (Nat.le_add_right _ _), ?_, h.fired, ?_, h.signalled, h.listens,
    h.hears⟩
  · intro t ht
    exact ⟨(h.timer t ht).1, htimer t ht⟩
  · intro t ht
    rcases h.aborted t ht with ⟨rfl, hin⟩
    have hle : t + ms ≤ t := hdue t (by simp [Request.due, h.waits, ht])
    have hms : ms = 0 := by omega
    subst hms
    exact ⟨rfl, hin⟩

/-- While the call is aborted, no time passes. -/
theorem Live.stops (h : r.Live (some true) now) {ms : ℕ} (hpos : 0 < ms) :
    ¬∀ t ∈ r.due, now + ms ≤ t := by
  intro hdue
  rcases Option.isSome_iff_exists.1 (h.signalled rfl) with ⟨t, ht⟩
  have hle : now + ms ≤ t := hdue t (by simp [Request.due, h.waits, ht])
  have hnow := (h.aborted t ht).1
  omega

/-- What the awaited promise can do. -/
theorem settle_cases {a : Answer} (hs : r.settle a = some r') :
    (∃ w, r' = { r with await := w } ∧ r.await = .fetch ∧ (w = .json ∨ ∃ status, w = .text status)) ∨
      (∃ raw v, r.await = .json ∧ a = .value raw ∧ unwrap r.path raw = .ok v ∧ r' = r.finish (.ok v)) ∨
        ∃ message, r.isOver = false ∧ r' = r.finish (.error message) := by
  have hfails : ∀ message, ∃ m, r.finish (r.caught message) = r.finish (.error m) := by
    intro message
    unfold caught
    split <;> exact ⟨_, rfl⟩
  unfold settle at hs
  split at hs
  case h_1 =>
      cases hs
  case h_2 hawait =>
      cases hs
      exact Or.inl ⟨_, rfl, hawait, Or.inl rfl⟩
  case h_3 status hawait =>
      cases hs
      exact Or.inl ⟨_, rfl, hawait, Or.inr ⟨status, rfl⟩⟩
  case h_4 status text hawait =>
      cases hs
      rcases hfails ("backup-server " ++ r.path ++ " " ++ toString status ++ ": " ++
        String.ofList (text.toList.take 200)) with ⟨m, hm⟩
      exact Or.inr (Or.inr ⟨m, by simp [isOver, hawait], hm⟩)
  case h_5 raw hawait =>
      split at hs
      case h_1 v hv =>
          cases hs
          exact Or.inr (Or.inl ⟨raw, v, hawait, rfl, hv, rfl⟩)
      case h_2 message _ =>
          cases hs
          rcases hfails message with ⟨m, hm⟩
          exact Or.inr (Or.inr ⟨m, by simp [isOver, hawait], hm⟩)
  case h_6 _ _ message hnot =>
      cases hs
      rcases hfails message with ⟨m, hm⟩
      refine Or.inr (Or.inr ⟨m, ?_, hm⟩)
      unfold isOver
      split
      case h_1 result hover =>
          exact absurd hover (hnot result)
      case h_2 =>
          rfl
  case h_7 =>
      cases hs

/-- A request goes on with its body, or it is over and has cleared its timer and its listener. -/
theorem live_settle {a : Answer} (h : r.Live signal now) (hs : r.settle a = some r') :
    r'.Live signal now ∨ r'.Over := by
  rcases settle_cases hs with ⟨w, rfl, _, hw⟩ | ⟨_, v, _, _, _, rfl⟩ | ⟨message, _, rfl⟩
  · refine Or.inl ⟨?_, h.begun, h.timer, h.fired, h.aborted, h.signalled, h.listens, h.hears⟩
    rcases hw with rfl | ⟨status, rfl⟩ <;> rfl
  · exact Or.inr (over_finish _ _)
  · exact Or.inr (over_finish _ _)

theorem settle_begun {a : Answer} (hs : r.settle a = some r') :
    r'.begun = r.begun ∧ r'.path = r.path ∧ r'.timeoutMs = r.timeoutMs := by
  rcases settle_cases hs with ⟨w, rfl, _, _⟩ | ⟨_, v, _, _, _, rfl⟩ | ⟨message, _, rfl⟩
  · exact ⟨rfl, rfl, rfl⟩
  · exact ⟨rfl, rfl, rfl⟩
  · exact ⟨rfl, rfl, rfl⟩

/-- The awaited promise can always reject. -/
theorem settle_rejects (h : r.isOver = false) (message : String) :
    ∃ r', r.settle (.rejects message) = some r' := by
  unfold isOver at h
  cases hawait : r.await with
  | ended result =>
      rw [hawait] at h
      cases h
  | _ =>
      simp only [settle, hawait]
      exact ⟨_, rfl⟩

theorem abort_isSome (r : Request) (now : ℕ) : (r.abort now).aborted.isSome = true := by
  unfold abort
  cases r.aborted <;> rfl

theorem live_abort (h : r.Live signal now) {timer : Option ℕ} {listening : Bool}
    (htimer : timer = r.timer ∨ timer = none) (hlistens : listening = true → signal.isSome = true)
    (hhears : signal = some false → listening = true) :
    ({ r with timer, listening }.abort now).Live signal now := by
  refine ⟨h.waits, h.begun, ?_, fun _ => abort_isSome _ _, ?_, fun _ => abort_isSome _ _, hlistens,
    hhears⟩
  · intro t ht
    rcases htimer with rfl | rfl
    · exact h.timer t ht
    · cases ht
  · intro t ht
    simp only [abort] at ht
    cases haborted : r.aborted with
    | some t' =>
        rw [haborted] at ht
        exact h.aborted t (haborted.trans ht)
    | none =>
        rw [haborted] at ht
        cases ht
        exact ⟨rfl, h.inTime⟩

theorem live_expire (h : r.Live signal now) (hs : r.expire now = some r') :
    r'.Live signal now ∧ r.timer.isSome = true ∧ r'.timer = none ∧ r'.await = r.await ∧
      r'.begun = r.begun ∧ r'.timeoutMs = r.timeoutMs := by
  unfold expire at hs
  split at hs
  case isTrue hdue =>
      cases hs
      refine ⟨live_abort h (Or.inr rfl) h.listens h.hears, ?_, rfl, rfl, rfl, rfl⟩
      cases htimer : r.timer with
      | none =>
          rw [htimer] at hdue
          cases hdue
      | some t =>
          rfl
  case isFalse =>
      cases hs

/-- The caller's signal goes from not aborted to aborted. -/
theorem live_callerAborts (h : r.Live (some false) now) :
    (r.callerAborts now).Live (some true) now := by
  have hhears := h.hears rfl
  have hlive : ({ r with listening := true }.abort now).Live (some false) now :=
    live_abort h (Or.inl rfl) (fun _ => rfl) fun _ => rfl
  simp only [callerAborts, hhears, if_true]
  exact ⟨hlive.waits, hlive.begun, hlive.timer, hlive.fired, hlive.aborted,
    fun _ => abort_isSome _ _, nofun, nofun⟩

theorem callerAborts_begun (r : Request) (now : ℕ) :
    (r.callerAborts now).begun = r.begun ∧ (r.callerAborts now).timeoutMs = r.timeoutMs := by
  unfold callerAborts
  split <;> exact ⟨rfl, rfl⟩

theorem Over.callerAborts (h : r.Over) : r.callerAborts now = r := by
  simp [Request.callerAborts, h.listening]

theorem Over.settle (h : r.Over) (a : Answer) : r.settle a = none := by
  have hend := h.done
  unfold isOver at hend
  split at hend
  case h_1 result hresult =>
      simp [Request.settle, hresult]
  case h_2 =>
      cases hend

theorem Over.expire (h : r.Over) : r.expire now = none := by
  simp [Request.expire, h.timer]

/-! ## What is left to do -/

/-- The promises and the timer that a request still waits for. -/
def rank (r : Request) : ℕ :=
  (match r.await with
    | .fetch => 2
    | .text _ => 1
    | .json => 1
    | .ended _ => 0) + r.timer.toList.length

theorem rank_le (r : Request) : r.rank ≤ 3 := by
  unfold rank
  cases r.await <;> cases r.timer <;> simp

theorem rank_settle {a : Answer} (hs : r.settle a = some r') : r'.rank < r.rank := by
  rcases settle_cases hs with ⟨w, rfl, hawait, hw⟩ | ⟨_, v, hawait, _, _, rfl⟩ | ⟨message, hwaits, rfl⟩
  · rcases hw with rfl | ⟨status, rfl⟩ <;> simp [rank, hawait]
  · simp only [rank, finish, hawait, Option.toList_none, List.length_nil]
    omega
  · unfold isOver at hwaits
    cases hawait : r.await with
    | ended result =>
        rw [hawait] at hwaits
        cases hwaits
    | _ =>
        simp only [rank, finish, hawait, Option.toList_none, List.length_nil]
        omega

theorem rank_expire (hs : r.expire now = some r') : r'.rank < r.rank := by
  unfold expire at hs
  split at hs
  case isTrue hdue =>
      cases hs
      cases htimer : r.timer with
      | none =>
          rw [htimer] at hdue
          cases hdue
      | some t =>
          simp only [rank, abort, htimer, Option.toList_none, Option.toList_some, List.length_nil,
            List.length_singleton]
          omega
  case isFalse =>
      cases hs

theorem rank_callerAborts (r : Request) (now : ℕ) : (r.callerAborts now).rank = r.rank := by
  unfold callerAborts
  split <;> rfl

end Steps

end Request

end Client
end SignalKBackup
