import SignalKBackup.Client.Request

/-!
# Ready — `waitForReady`, probe after probe

The loop of `BackupClient.waitForReady`: a probe of `/api/health`, and behind each failed one a
sleep, until an answer comes, the caller's signal is aborted, or the deadline has passed.  Timers
fire when they are due; a probe may settle in any way, at any time up to its timeout.

* `Sound` is the invariant: which timer runs, what listens at the signal, and when the probe or the
  sleep began.
* `reachable_waiting`: the call is over soon after the deadline, its probes are an interval apart,
  an abort ends it at once, and it leaves no timer and no listener behind.
* `waiting_ends`: no run of the call goes on for ever.
-/

namespace SignalKBackup
namespace Client

open Lib
open Timed (Move)

/-! ## The loop -/

/-- `sleep`, with its timer and its listener. -/
structure Sleep where
  timer : Option ℕ
  listening : Bool

inductive ReadyAwait
  | probe
  | sleep
  | resolved
  | rejected (message : String) (cause : Option String)

structure Waiting where
  baseUrl : String
  maxMs : ℕ
  intervalMs : ℕ
  /-- The caller's signal, if there is one: whether it is aborted. -/
  signal : Option Bool
  deadline : ℕ
  lastErr : Option String := none
  /-- The last probe. -/
  request : Option Request := none
  /-- The last sleep. -/
  slept : Option Sleep := none
  /-- When its probes began, the last one first; nothing reads it. -/
  probes : List ℕ := []
  await : ReadyAwait

/-- How long a probe of the health route may take. -/
def PROBE_MS : ℕ := 2000

namespace Waiting

/-- The head of the loop, up to the next await. -/
def loop (now : ℕ) (s : Waiting) : Waiting :=
  if now < s.deadline then
    if s.signal = some true then { s with await := .rejected "waitForReady aborted" s.lastErr }
    else
      { s with
        request := some (.make now "/api/health" PROBE_MS s.signal)
        probes := now :: s.probes
        await := .probe }
  else
    { s with
      await := .rejected ("backup-server at " ++ s.baseUrl ++ " did not become ready within " ++
        toString s.maxMs ++ "ms") s.lastErr }

/-- The `catch` block, up to the next await. -/
def failed (now : ℕ) (s : Waiting) (err : String) : Waiting :=
  let s := { s with lastErr := some err }
  if s.signal = some true then { s with await := .rejected "waitForReady aborted" (some err) }
  else
    { s with
      slept := some { timer := some (now + timerMs s.intervalMs), listening := s.signal.isSome }
      await := .sleep }

/-- `finish`, and what follows the sleep. -/
def wake (now : ℕ) (s : Waiting) : Waiting :=
  { s with slept := some { timer := none, listening := false } }.loop now

/-- The probe goes on. -/
def probed (now : ℕ) (s : Waiting) (r : Request) : Waiting :=
  let s := { s with request := some r }
  match r.await with
  | .ended (.ok _) => { s with await := .resolved }
  | .ended (.error err) => s.failed now err
  | _ => s

end Waiting

inductive Event
  /-- The promise that the probe awaits settles. -/
  | answers (a : Answer)
  /-- The timer of the probe fires. -/
  | timeout
  /-- The timer of the sleep fires. -/
  | wakes
  /-- The caller's signal is aborted. -/
  | aborts

def Waiting.step (now : ℕ) (s : Waiting) : Event → Option Waiting
  | .answers a =>
      match s.await, s.request with
      | .probe, some r => (r.settle a).map (s.probed now)
      | _, _ => none
  | .timeout =>
      (s.request.bind fun r : Request => r.expire now).map fun r => { s with request := some r }
  | .wakes =>
      match s.await, s.slept with
      | .sleep, some z => if z.timer.any (· ≤ now) then some (s.wake now) else none
      | _, _ => none
  | .aborts =>
      if s.signal = some false then
        let s := { s with
          signal := some true
          request := s.request.map fun r : Request => r.callerAborts now }
        match s.slept with
        | some z => some (if z.listening then s.wake now else s)
        | none => some s
      else none

def Waiting.isProbing (s : Waiting) : Bool :=
  match s.await with
  | .probe => true
  | _ => false

def Waiting.isSleeping (s : Waiting) : Bool :=
  match s.await with
  | .sleep => true
  | _ => false

/-- The call has not been settled. -/
def Waiting.pending (s : Waiting) : Bool :=
  s.isProbing || s.isSleeping

/-- Every armed timer, and the promise of an aborted probe. -/
def Waiting.due (s : Waiting) : List ℕ :=
  (s.request.map Request.due).getD [] ++ (s.slept.bind Sleep.timer).toList

def waiting : Timed Waiting Event where
  step := Waiting.step
  due := Waiting.due

/-- `waitForReady(maxMs, intervalMs, signal)`, up to its first await. -/
def waitForReady (now : ℕ) (baseUrl : String) (maxMs intervalMs : ℕ) (signal : Option Bool) :
    Waiting :=
  { baseUrl, maxMs, intervalMs, signal
    deadline := now + maxMs
    await := .probe : Waiting }.loop now

/-- The call has just been made. -/
def Called (start maxMs intervalMs : ℕ) (c : Clocked Waiting) : Prop :=
  c.now = start ∧ ∃ baseUrl signal, c.state = waitForReady start baseUrl maxMs intervalMs signal

/-! ## Steps -/

/-- The signal is aborted, and the probe hears of it. -/
def Waiting.heard (now : ℕ) (s : Waiting) : Waiting :=
  { s with
    signal := some true
    request := s.request.map fun r : Request => r.callerAborts now }

/-- What an event does to the call. -/
inductive WaitingStep (now : ℕ) (s : Waiting) : Event → Waiting → Prop
  | answers {r r' : Request} {a : Answer} : s.await = .probe → s.request = some r →
      r.settle a = some r' → WaitingStep now s (.answers a) (s.probed now r')
  | timeout {r r' : Request} : s.request = some r → r.expire now = some r' →
      WaitingStep now s .timeout { s with request := some r' }
  | wakes {z : Sleep} : s.await = .sleep → s.slept = some z → z.timer.any (· ≤ now) = true →
      WaitingStep now s .wakes (s.wake now)
  /-- No sleep listens. -/
  | aborts : s.signal = some false → (∀ z, s.slept = some z → z.listening = false) →
      WaitingStep now s .aborts (s.heard now)
  /-- The sleep is over. -/
  | abortsSleep {z : Sleep} : s.signal = some false → s.slept = some z → z.listening = true →
      WaitingStep now s .aborts ((s.heard now).wake now)

theorem WaitingStep.of_step {now : ℕ} {s s' : Waiting} {e : Event} (hs : s.step now e = some s') :
    WaitingStep now s e s' := by
  cases e with
  | answers a =>
      simp only [Waiting.step] at hs
      split at hs
      case h_1 r hawait hrequest =>
          rcases Option.map_eq_some_iff.1 hs with ⟨r', hsettle, rfl⟩
          exact .answers hawait hrequest hsettle
      case h_2 =>
          cases hs
  | timeout =>
      rcases Option.map_eq_some_iff.1 hs with ⟨r', hexpire, rfl⟩
      rcases Option.bind_eq_some_iff.1 hexpire with ⟨r, hrequest, hr'⟩
      exact .timeout hrequest hr'
  | wakes =>
      simp only [Waiting.step] at hs
      split at hs
      case h_1 z hawait hslept =>
          split at hs
          case isTrue hfires =>
              cases hs
              exact .wakes hawait hslept hfires
          case isFalse =>
              cases hs
      case h_2 =>
          cases hs
  | aborts =>
      simp only [Waiting.step] at hs
      split at hs
      case isFalse =>
          cases hs
      case isTrue hsignal =>
          split at hs
          case h_1 z hslept =>
              cases hlistening : z.listening with
              | true =>
                  simp only [hlistening, if_true] at hs
                  cases hs
                  exact .abortsSleep hsignal hslept hlistening
              | false =>
                  simp only [hlistening, Bool.false_eq_true, if_false] at hs
                  cases hs
                  refine .aborts hsignal fun z' hz' => ?_
                  cases hslept.symm.trans hz'
                  exact hlistening
          case h_2 hslept =>
              cases hs
              exact .aborts hsignal fun z hz => by cases hslept.symm.trans hz

/-! ## The invariant -/

/-- The probes that have begun: an interval apart, and before the deadline. -/
structure Spaced (start maxMs intervalMs : ℕ) (probes : List ℕ) : Prop where
  apart : probes.Pairwise fun later earlier => earlier + timerMs intervalMs ≤ later
  inTime : ∀ p ∈ probes, start ≤ p ∧ p < start + maxMs

theorem Spaced.cons {start maxMs intervalMs p : ℕ} {probes : List ℕ}
    (h : Spaced start maxMs intervalMs probes) (hp : start ≤ p ∧ p < start + maxMs)
    (hsince : ∀ q ∈ probes, q + timerMs intervalMs ≤ p) : Spaced start maxMs intervalMs (p :: probes) where
  apart := List.pairwise_cons.2 ⟨hsince, h.apart⟩
  inTime := by
    intro q hq
    rcases List.mem_cons.1 hq with rfl | hq
    · exact hp
    · exact h.inTime q hq

/-- So there are only so many. -/
theorem Spaced.length {start maxMs intervalMs : ℕ} {probes : List ℕ}
    (h : Spaced start maxMs intervalMs probes) :
    probes.length * timerMs intervalMs < maxMs + timerMs intervalMs := by
  have hpos := timerMs_pos intervalMs
  -- each probe has all those before it, an interval each, behind the start
  have hall : ∀ rest : List ℕ, Spaced start maxMs intervalMs rest → ∀ p ∈ rest.head?,
      start + rest.length * timerMs intervalMs ≤ p + timerMs intervalMs := by
    intro rest hrest
    induction rest with
    | nil =>
        simp
    | cons q rest ih =>
        rintro _ ⟨⟩
        rcases List.pairwise_cons.1 hrest.apart with ⟨hfirst, hmore⟩
        have htail : Spaced start maxMs intervalMs rest :=
          ⟨hmore, fun x hx => hrest.inTime x (List.mem_cons_of_mem _ hx)⟩
        have hstart := (hrest.inTime q (by simp)).1
        rw [List.length_cons, Nat.add_mul, Nat.one_mul]
        cases rest with
        | nil =>
            simpa using hstart
        | cons x rest =>
            have hbefore := ih htail x rfl
            have hapart := hfirst x (by simp)
            omega
  cases probes with
  | nil =>
      simp only [List.length_nil, Nat.zero_mul]
      omega
  | cons p rest =>
      have hcount := hall _ h p rfl
      have hlast := (h.inTime p (by simp)).2
      omega

/-- A probe under way. -/
structure Probing (start maxMs intervalMs now : ℕ) (s : Waiting) (r : Request) : Prop where
  request : s.request = some r
  live : r.Live s.signal now
  timeoutMs : r.timeoutMs = PROBE_MS
  /-- It began before the deadline. -/
  inTime : r.begun < start + maxMs
  /-- It is the last one. -/
  last : ∀ p ∈ s.probes, p ≤ r.begun

/-- A sleep under way. -/
structure Sleeping (start maxMs intervalMs now : ℕ) (s : Waiting) (t : ℕ) : Prop where
  slept : s.slept = some { timer := some t, listening := s.signal.isSome }
  signal : s.signal ≠ some true
  later : now ≤ t
  inTime : t < start + maxMs + PROBE_MS + timerMs intervalMs
  /-- The last probe began an interval before it ends. -/
  since : ∀ p ∈ s.probes, p + timerMs intervalMs ≤ t

structure Sound (start maxMs intervalMs now : ℕ) (s : Waiting) : Prop where
  limit : s.maxMs = maxMs
  interval : s.intervalMs = intervalMs
  deadline : s.deadline = start + maxMs
  started : start ≤ now
  probing : s.isProbing = true → ∃ r, Probing start maxMs intervalMs now s r
  sleeping : s.isSleeping = true → ∃ t, Sleeping start maxMs intervalMs now s t
  /-- What is over has cleared its timer and its listener. -/
  probed : s.isProbing = false → ∀ r, s.request = some r → r.Over
  awake : s.isSleeping = false → ∀ z, s.slept = some z → z.timer = none ∧ z.listening = false
  spaced : Spaced start maxMs intervalMs s.probes

section Steps

variable {start maxMs intervalMs now : ℕ} {s s' : Waiting}

/-- The head of the loop, with nothing under way. -/
theorem sound_loop (hmax : s.maxMs = maxMs) (hinterval : s.intervalMs = intervalMs)
    (hdeadline : s.deadline = start + maxMs) (hstarted : start ≤ now)
    (hprobed : ∀ r, s.request = some r → r.Over)
    (hawake : ∀ z, s.slept = some z → z.timer = none ∧ z.listening = false)
    (hspaced : Spaced start maxMs intervalMs s.probes)
    (hsince : s.signal ≠ some true → ∀ p ∈ s.probes, p + timerMs intervalMs ≤ now) :
    Sound start maxMs intervalMs now (s.loop now) := by
  unfold Waiting.loop
  split
  case isTrue hbefore =>
      split
      case isTrue hsignal =>
          exact ⟨hmax, hinterval, hdeadline, hstarted, fun hno => (by cases hno),
            fun hno => (by cases hno), fun _ => hprobed, fun _ => hawake, hspaced⟩
      case isFalse hsignal =>
          have hnow := hsince hsignal
          rw [hdeadline] at hbefore
          refine ⟨hmax, hinterval, hdeadline, hstarted,
            fun _ => ⟨_, rfl, Request.live_make _ _ _ _, rfl, hbefore, ?_⟩,
            fun hno => (by cases hno), fun hno => (by cases hno), fun _ => hawake, ?_⟩
          · intro p hp
            rcases List.mem_cons.1 hp with rfl | hp
            · exact le_rfl
            · exact (Nat.le_add_right _ _).trans (hnow p hp)
          · -- one more probe, an interval behind the one before it
            exact hspaced.cons ⟨hstarted, hbefore⟩ hnow
  case isFalse =>
      exact ⟨hmax, hinterval, hdeadline, hstarted, fun hno => (by cases hno),
            fun hno => (by cases hno), fun _ => hprobed, fun _ => hawake, hspaced⟩

/-- A probe has failed. -/
theorem sound_failed (h : Sound start maxMs intervalMs now s) {r r' : Request}
    (hr : Probing start maxMs intervalMs now s r) (hprobing : s.isProbing = true) (hover : r'.Over)
    (err : String) :
    Sound start maxMs intervalMs now ({ s with request := some r' }.failed now err) := by
  have hsleeping : s.isSleeping = false := by
    unfold Waiting.isProbing at hprobing
    unfold Waiting.isSleeping
    split at hprobing
    case h_1 hawait =>
        rw [hawait]
    case h_2 =>
        cases hprobing
  have hquiet : ∀ u, some r' = some u → u.Over := by
    rintro _ ⟨⟩
    exact hover
  unfold Waiting.failed
  dsimp only
  split
  case isTrue =>
      exact ⟨h.limit, h.interval, h.deadline, h.started, nofun, nofun, fun _ => hquiet,
        fun _ => h.awake hsleeping, h.spaced⟩
  case isFalse hsignal =>
      refine ⟨h.limit, h.interval, h.deadline, h.started, nofun,
        fun _ => ⟨now + timerMs intervalMs, ?_, hsignal, ?_, ?_, ?_⟩, fun _ => hquiet, nofun, h.spaced⟩
      · rw [h.interval]
      · exact Nat.le_add_right _ _
      · have hlate := hr.live.inTime
        have htimeout : timerMs PROBE_MS = PROBE_MS := rfl
        have hbegun := hr.inTime
        rw [hr.timeoutMs, htimeout] at hlate
        omega
      · intro p hp
        exact Nat.add_le_add_right ((hr.last p hp).trans hr.live.begun) _

/-- The probe goes on, or it is over and the loop behind it. -/
theorem sound_answers (h : Sound start maxMs intervalMs now s) {r r' : Request} {a : Answer}
    (hawait : s.await = .probe) (hrequest : s.request = some r) (hsettle : r.settle a = some r') :
    Sound start maxMs intervalMs now (s.probed now r') := by
  have hprobing : s.isProbing = true := by simp [Waiting.isProbing, hawait]
  have hsleeping : s.isSleeping = false := by simp [Waiting.isSleeping, hawait]
  rcases h.probing hprobing with ⟨u, hu⟩
  cases hrequest.symm.trans hu.request
  rcases Request.settle_begun hsettle with ⟨hbegun, _, htimeout⟩
  unfold Waiting.probed
  dsimp only
  rcases Request.live_settle hu.live hsettle with hlive | hover
  · split
    case h_1 v hdone =>
        have hwaits := hlive.waits
        simp [Request.isOver, hdone] at hwaits
    case h_2 err hdone =>
        have hwaits := hlive.waits
        simp [Request.isOver, hdone] at hwaits
    case h_3 =>
        refine ⟨h.limit, h.interval, h.deadline, h.started,
          fun _ => ⟨r', rfl, hlive, htimeout.trans hu.timeoutMs, ?_, ?_⟩, ?_, ?_,
          fun _ => h.awake hsleeping, h.spaced⟩
        · rw [hbegun]
          exact hu.inTime
        · rw [hbegun]
          exact hu.last
        · intro hyes
          cases hyes.symm.trans hsleeping
        · intro hno
          cases hprobing.symm.trans hno
  · split
    case h_1 v hdone =>
        refine ⟨h.limit, h.interval, h.deadline, h.started, fun hno => (by cases hno),
          fun hno => (by cases hno), ?_, fun _ => h.awake hsleeping, h.spaced⟩
        rintro _ _ ⟨⟩
        exact hover
    case h_2 err hdone =>
        exact sound_failed h hu hprobing hover err
    case h_3 hnot hnot' =>
        have hend := hover.done
        unfold Request.isOver at hend
        split at hend
        case h_1 result hresult =>
            cases result with
            | ok v =>
                exact absurd hresult (hnot v)
            | error e =>
                exact absurd hresult (hnot' e)
        case h_2 =>
            cases hend

theorem sound_timeout (h : Sound start maxMs intervalMs now s) {r r' : Request}
    (hrequest : s.request = some r) (hr' : r.expire now = some r') :
    Sound start maxMs intervalMs now { s with request := some r' } := by
  cases hprobing : s.isProbing with
  | false =>
      -- a probe that is over has no timer
      rw [Request.Over.expire (h.probed hprobing r hrequest)] at hr'
      cases hr'
  | true =>
      rcases h.probing hprobing with ⟨u, hu⟩
      cases hrequest.symm.trans hu.request
      rcases Request.live_expire hu.live hr' with ⟨hlive, _, _, _, hbegun, htimeout⟩
      refine ⟨h.limit, h.interval, h.deadline, h.started,
        fun _ => ⟨r', rfl, hlive, htimeout.trans hu.timeoutMs, ?_, ?_⟩, fun hsleeping => ?_,
        fun hno => ?_, h.awake, h.spaced⟩
      · rw [hbegun]
        exact hu.inTime
      · rw [hbegun]
        exact hu.last
      · rcases h.sleeping hsleeping with ⟨t, ht⟩
        exact ⟨t, ht.slept, ht.signal, ht.later, ht.inTime, ht.since⟩
      · cases hprobing.symm.trans hno

theorem sound_wakes (h : Sound start maxMs intervalMs now s) {z : Sleep} (hawait : s.await = .sleep)
    (hslept : s.slept = some z) (hfires : z.timer.any (· ≤ now) = true) :
    Sound start maxMs intervalMs now (s.wake now) := by
  have hprobing : s.isProbing = false := by simp [Waiting.isProbing, hawait]
  have hsleeping : s.isSleeping = true := by simp [Waiting.isSleeping, hawait]
  rcases h.sleeping hsleeping with ⟨t, ht⟩
  cases hslept.symm.trans ht.slept
  have hdue : t ≤ now := by simpa using hfires
  refine sound_loop h.limit h.interval h.deadline h.started (h.probed hprobing) ?_ h.spaced
    fun _ p hp => ?_
  · rintro _ ⟨⟩
    exact ⟨rfl, rfl⟩
  · exact (ht.since p hp).trans hdue

/-- A probe that is over does not hear of the signal. -/
theorem Sound.heard_probed (h : Sound start maxMs intervalMs now s) (hprobing : s.isProbing = false) :
    ∀ r, (s.heard now).request = some r → r.Over := by
  intro r hr
  rcases Option.map_eq_some_iff.1 hr with ⟨u, hu, rfl⟩
  rw [(h.probed hprobing u hu).callerAborts]
  exact h.probed hprobing u hu

/-- A sleep under way listens, so there is none. -/
theorem sound_aborts (h : Sound start maxMs intervalMs now s) (hsignal : s.signal = some false)
    (hnot : ∀ z, s.slept = some z → z.listening = false) :
    Sound start maxMs intervalMs now (s.heard now) := by
  refine ⟨h.limit, h.interval, h.deadline, h.started, fun hprobing => ?_, fun hsleeping => ?_,
    h.heard_probed, h.awake, h.spaced⟩
  · rcases h.probing hprobing with ⟨u, hu⟩
    have hbegun := (Request.callerAborts_begun u now).1
    refine ⟨u.callerAborts now, ?_, ?_, ?_, ?_, ?_⟩
    · rw [Waiting.heard, hu.request]
      rfl
    · exact Request.live_callerAborts (hsignal ▸ hu.live)
    · exact (Request.callerAborts_begun u now).2 ▸ hu.timeoutMs
    · rw [hbegun]
      exact hu.inTime
    · rw [hbegun]
      exact hu.last
  · rcases h.sleeping hsleeping with ⟨t, ht⟩
    have hlistening := hnot _ ht.slept
    rw [hsignal] at hlistening
    cases hlistening

theorem sound_abortsSleep (h : Sound start maxMs intervalMs now s) {z : Sleep}
    (hslept : s.slept = some z) (hlistening : z.listening = true) :
    Sound start maxMs intervalMs now ((s.heard now).wake now) := by
  have hsleeping : s.isSleeping = true := by
    by_contra hno
    cases hlistening.symm.trans (h.awake (by simpa using hno) z hslept).2
  have hprobing : s.isProbing = false := by
    unfold Waiting.isSleeping at hsleeping
    unfold Waiting.isProbing
    split at hsleeping
    case h_1 hawait =>
        rw [hawait]
    case h_2 =>
        cases hsleeping
  refine sound_loop h.limit h.interval h.deadline h.started (h.heard_probed hprobing) ?_ h.spaced
    fun hne => absurd rfl hne
  rintro _ ⟨⟩
  exact ⟨rfl, rfl⟩

theorem sound_step (h : Sound start maxMs intervalMs now s) {e : Event}
    (hs : s.step now e = some s') : Sound start maxMs intervalMs now s' := by
  cases WaitingStep.of_step hs with
  | answers hawait hrequest hsettle =>
      exact sound_answers h hawait hrequest hsettle
  | timeout hrequest hr' =>
      exact sound_timeout h hrequest hr'
  | wakes hawait hslept hfires =>
      exact sound_wakes h hawait hslept hfires
  | aborts hsignal hnot =>
      exact sound_aborts h hsignal hnot
  | abortsSleep _ hslept hlistening =>
      exact sound_abortsSleep h hslept hlistening

theorem sound_passes (h : Sound start maxMs intervalMs now s) {ms : ℕ}
    (hdue : waiting.InTime (now + ms) s) : Sound start maxMs intervalMs (now + ms) s := by
  refine ⟨h.limit, h.interval, h.deadline, h.started.trans (Nat.le_add_right _ _), fun hprobing => ?_,
    fun hsleeping => ?_, h.probed, h.awake, h.spaced⟩
  · rcases h.probing hprobing with ⟨r, hr⟩
    refine ⟨r, hr.request, hr.live.passes fun t ht => hdue t ?_, hr.timeoutMs, hr.inTime, hr.last⟩
    simp [waiting, Waiting.due, hr.request, ht]
  · rcases h.sleeping hsleeping with ⟨t, ht⟩
    refine ⟨t, ht.slept, ht.signal, hdue t ?_, ht.inTime, ht.since⟩
    simp [waiting, Waiting.due, ht.slept]

end Steps

theorem sound_waitForReady (start maxMs intervalMs : ℕ) (baseUrl : String) (signal : Option Bool) :
    Sound start maxMs intervalMs start (waitForReady start baseUrl maxMs intervalMs signal) := by
  exact sound_loop rfl rfl rfl le_rfl nofun nofun ⟨List.Pairwise.nil, nofun⟩ fun _ => nofun

theorem reachable_sound {start maxMs intervalMs : ℕ} {c : Clocked Waiting}
    (h : waiting.machine.Reachable (Called start maxMs intervalMs) c) :
    Sound start maxMs intervalMs c.now c.state := by
  refine Timed.invariant h ?_ (fun now ms s hsound hdue => sound_passes hsound hdue)
    fun now s e s' hsound _ hs => sound_step hsound hs
  rintro ⟨now, s⟩ ⟨hnow, baseUrl, signal, hs⟩
  dsimp only at hnow hs ⊢
  rw [hnow, hs]
  exact sound_waitForReady _ _ _ _ _

/-! ## What is left to do -/

/-- What the call still waits for, apart from the passing of time: each probe that can begin before
the deadline counts eight. -/
def Waiting.rank (s : Waiting) : ℕ :=
  (if s.signal = some false then 1 else 0) +
    match s.await with
    | .probe => (s.request.map fun r : Request => 8 * (s.deadline - r.begun - 1) + r.rank + 2).getD 0
    | .sleep => ((s.slept.bind Sleep.timer).map fun t => 8 * (s.deadline - t) + 1).getD 0
    | _ => 0

section Rank

variable {start maxMs intervalMs now : ℕ} {s s' : Waiting}

theorem pending_cases (h : s.pending = true) : s.await = .probe ∨ s.await = .sleep := by
  unfold Waiting.pending Waiting.isProbing Waiting.isSleeping at h
  cases hawait : s.await with
  | probe =>
      exact Or.inl rfl
  | sleep =>
      exact Or.inr rfl
  | _ =>
      simp [hawait] at h

theorem rank_loop (now : ℕ) (s : Waiting) :
    (s.loop now).rank ≤ (if s.signal = some false then 1 else 0) +
      if now < s.deadline then 8 * (s.deadline - now - 1) + 5 else 0 := by
  unfold Waiting.loop
  split
  case isTrue hbefore =>
      split
      case isTrue =>
          simp [Waiting.rank]
      case isFalse =>
          have hrank := Request.rank_le (.make now "/api/health" PROBE_MS s.signal)
          have hbegun : (Request.make now "/api/health" PROBE_MS s.signal).begun = now := rfl
          simp only [Waiting.rank, Option.map_some, Option.getD_some, hbegun]
          omega
  case isFalse =>
      simp [Waiting.rank]

theorem rank_failed {r : Request} (hbegun : r.begun ≤ now) (s : Waiting) (err : String) :
    (s.failed now err).rank < (if s.signal = some false then 1 else 0) +
      (8 * (s.deadline - r.begun - 1) + r.rank + 2) := by
  unfold Waiting.failed
  dsimp only
  split
  case isTrue hsignal =>
      simp only [Waiting.rank, hsignal]
      omega
  case isFalse =>
      have hpos := timerMs_pos s.intervalMs
      simp only [Waiting.rank, Option.bind_some, Option.map_some, Option.getD_some]
      omega

theorem rank_probe {r : Request} (hawait : s.await = .probe) (hrequest : s.request = some r) :
    s.rank = (if s.signal = some false then 1 else 0) +
      (8 * (s.deadline - r.begun - 1) + r.rank + 2) := by
  simp [Waiting.rank, hawait, hrequest]

theorem rank_sleep {t : ℕ} {listening : Bool} (hawait : s.await = .sleep)
    (hslept : s.slept = some { timer := some t, listening }) :
    s.rank = (if s.signal = some false then 1 else 0) + (8 * (s.deadline - t) + 1) := by
  simp [Waiting.rank, hawait, hslept]

/-- An aborted call is settled by the next turn of its loop. -/
theorem rank_loop_aborted (hsignal : s.signal = some true) : (s.loop now).rank = 0 := by
  unfold Waiting.loop
  split <;> simp [Waiting.rank, hsignal]

/-- Every action of a pending call uses up a part of the rank. -/
theorem rank_step (h : Sound start maxMs intervalMs now s) {e : Event}
    (hs : s.step now e = some s') (hpending : s.pending = true) : s'.rank < s.rank := by
  cases WaitingStep.of_step hs with
  | @answers r r' a hawait hrequest hsettle =>
      rcases h.probing (by simp [Waiting.isProbing, hawait]) with ⟨u, hu⟩
      cases hrequest.symm.trans hu.request
      rw [rank_probe hawait hrequest]
      unfold Waiting.probed
      dsimp only
      split
      case h_1 v _ =>
          simp only [Waiting.rank]
          omega
      case h_2 err _ =>
          exact rank_failed hu.live.begun { s with request := some r' } err
      case h_3 =>
          have hless := Request.rank_settle hsettle
          have hbegun := (Request.settle_begun hsettle).1
          rw [rank_probe (s := { s with request := some r' }) hawait rfl, hbegun]
          dsimp only
          omega
  | @timeout r r' hrequest hr' =>
      cases hprobing : s.isProbing with
      | false =>
          rw [Request.Over.expire (h.probed hprobing r hrequest)] at hr'
          cases hr'
      | true =>
          rcases h.probing hprobing with ⟨u, hu⟩
          cases hrequest.symm.trans hu.request
          have hless := Request.rank_expire hr'
          have hbegun := (Request.live_expire hu.live hr').2.2.2.2.1
          rcases pending_cases hpending with hawait | hawait
          · rw [rank_probe hawait hrequest, rank_probe (s := { s with request := some r' }) hawait rfl,
              hbegun]
            dsimp only
            omega
          · simp [Waiting.isProbing, hawait] at hprobing
  | wakes hawait hslept hfires =>
      rcases h.sleeping (by simp [Waiting.isSleeping, hawait]) with ⟨t, ht⟩
      cases hslept.symm.trans ht.slept
      have hdue : t ≤ now := by simpa using hfires
      rw [rank_sleep hawait hslept]
      refine (rank_loop now { s with slept := some { timer := none, listening := false } }).trans_lt ?_
      dsimp only
      split <;> split <;> omega
  | aborts hsignal hnot =>
      rcases pending_cases hpending with hawait | hawait
      · -- the probe is still to be settled
        rcases h.probing (by simp [Waiting.isProbing, hawait]) with ⟨u, hu⟩
        simp [Waiting.heard, Waiting.rank, hawait, hsignal, hu.request, Request.rank_callerAborts,
          (Request.callerAborts_begun u now).1]
      · rcases h.sleeping (by simp [Waiting.isSleeping, hawait]) with ⟨t, ht⟩
        have hlistening := hnot _ ht.slept
        rw [hsignal] at hlistening
        cases hlistening
  | abortsSleep hsignal _ _ =>
      rw [Waiting.wake, rank_loop_aborted rfl]
      simp only [Waiting.rank, hsignal, if_true]
      omega

theorem rank_waitForReady (start : ℕ) (baseUrl : String) (maxMs intervalMs : ℕ)
    (signal : Option Bool) :
    (waitForReady start baseUrl maxMs intervalMs signal).rank ≤ 8 * maxMs + 6 := by
  refine (rank_loop _ _).trans ?_
  dsimp only
  split <;> split <;> omega

/-- A call that has been settled stays settled. -/
theorem settled_step (h : Sound start maxMs intervalMs now s) {e : Event}
    (hs : s.step now e = some s') (hover : s.pending = false) : s'.pending = false := by
  have hsleeping : s.isSleeping = false := (Bool.or_eq_false_iff.1 hover).2
  cases WaitingStep.of_step hs with
  | answers hawait _ _ =>
      simp [Waiting.pending, Waiting.isProbing, hawait] at hover
  | timeout _ _ =>
      exact hover
  | wakes hawait _ _ =>
      simp [Waiting.isSleeping, hawait] at hsleeping
  | aborts _ _ =>
      exact hover
  | abortsSleep _ hslept hlistening =>
      cases hlistening.symm.trans (h.awake hsleeping _ hslept).2

end Rank

/-! ## Runs -/

section Runs

variable {start maxMs intervalMs : ℕ} {c c' : Clocked Waiting}

theorem settled_run (h : waiting.machine.Reachable (Called start maxMs intervalMs) c)
    {ms : List (Move Event)} (hrun : waiting.machine.run c ms = some c')
    (hover : c.state.pending = false) : c'.state.pending = false := by
  induction ms generalizing c with
  | nil =>
      cases hrun
      exact hover
  | cons m ms ih =>
      rcases (Machine.run_cons_eq_some _).1 hrun with ⟨c₁, hs, hrest⟩
      refine ih (Machine.Reachable.step h hs) hrest ?_
      rcases Timed.machine_step hs with ⟨_, rfl, _, _, rfl⟩ | ⟨e, s, rfl, hact, rfl⟩
      · exact hover
      · exact settled_step (reachable_sound h) hact hover

/-- While the call is pending, the time is not far behind its deadline. -/
theorem Sound.inTime {now : ℕ} {s : Waiting} (h : Sound start maxMs intervalMs now s)
    (hpending : s.pending = true) : now < start + maxMs + PROBE_MS + timerMs intervalMs := by
  rcases pending_cases hpending with hawait | hawait
  · rcases h.probing (by simp [Waiting.isProbing, hawait]) with ⟨r, hr⟩
    have hlate := hr.live.inTime
    have htimeout : timerMs PROBE_MS = PROBE_MS := rfl
    have hbegun := hr.inTime
    rw [hr.timeoutMs, htimeout] at hlate
    omega
  · rcases h.sleeping (by simp [Waiting.isSleeping, hawait]) with ⟨t, ht⟩
    exact ht.later.trans_lt ht.inTime

/-- The call is settled by a bounded number of steps, whatever the server and the caller do. -/
theorem waiting_ends (hcalled : Called start maxMs intervalMs c) {ms : List (Move Event)}
    (hrun : waiting.machine.run c ms = some c')
    (hlong : 9 * maxMs + PROBE_MS + timerMs intervalMs + 6 < ms.length) :
    c'.state.pending = false := by
  have hreach : ∀ {before c₁}, waiting.machine.run c before = some c₁ →
      waiting.machine.Reachable (Called start maxMs intervalMs) c₁ :=
    fun hbefore => Machine.Reachable.run (.init hcalled) hbefore
  by_contra hnot
  have hpending : c'.state.pending = true := by simpa using hnot
  -- so it has been pending all along
  have hP : ∀ before c₁, before <+: ms → waiting.machine.run c before = some c₁ →
      Sound start maxMs intervalMs c₁.now c₁.state ∧ c₁.state.pending = true := by
    rintro before c₁ ⟨rest, rfl⟩ hbefore
    refine ⟨reachable_sound (hreach hbefore), ?_⟩
    by_contra hover
    rw [Machine.run_append, hbefore] at hrun
    have hsettled := settled_run (hreach hbefore) hrun (by simpa using hover)
    rw [hsettled] at hpending
    cases hpending
  have hlength := Timed.run_length
    (P := fun now s => Sound start maxMs intervalMs now s ∧ s.pending = true)
    (fun now s e s' hs hact => rank_step hs.1 hact hs.2)
    (fun now s hs => le_of_lt (hs.1.inTime hs.2)) hP hrun
  rcases c with ⟨now, s⟩
  rcases hcalled with ⟨hnow, baseUrl, signal, hs⟩
  have hrank := rank_waitForReady start baseUrl maxMs intervalMs signal
  dsimp only at hnow hs hlength
  rw [← hs] at hrank
  rw [hnow] at hlength
  omega

/-- What every state of a call promises. -/
structure Waits (start maxMs intervalMs : ℕ) (c : Clocked Waiting) : Prop where
  /-- The call is settled soon after its deadline. -/
  inTime : c.state.pending = true → c.now < start + maxMs + PROBE_MS + timerMs intervalMs
  /-- Its probes begin before the deadline, an interval apart, so that there are only so many. -/
  spaced : Spaced start maxMs intervalMs c.state.probes
  probes : c.state.probes.length * timerMs intervalMs < maxMs + timerMs intervalMs
  /-- An abort settles it before time goes on, and without another probe. -/
  aborted : c.state.signal = some true → c.state.pending = true →
    ∀ m c', waiting.machine.step c m = some c' →
      c'.now = c.now ∧ c'.state.probes = c.state.probes
  goesOn : c.state.pending = true → ∃ m c', waiting.machine.step c m = some c'
  /-- It resolves with the answer of a probe that began before the deadline and took no longer than
  its timeout. -/
  resolves : ∀ m c', waiting.machine.step c m = some c' → c.state.pending = true →
    c'.state.await = .resolved → ∃ r raw v, c.state.request = some r ∧
      m = .acts (.answers (.value raw)) ∧ unwrap r.path raw = .ok v ∧
      r.begun < start + maxMs ∧ c.now ≤ r.begun + PROBE_MS
  /-- Afterwards no timer is armed, and nothing listens at the caller's signal. -/
  quiet : c.state.pending = false → (∀ r, c.state.request = some r → r.timer = none ∧ r.listening = false) ∧
    ∀ z, c.state.slept = some z → z.timer = none ∧ z.listening = false

theorem loop_not_resolved (now : ℕ) (s : Waiting) : (s.loop now).await ≠ .resolved := by
  unfold Waiting.loop
  split
  · split <;> exact nofun
  · exact nofun

theorem failed_not_resolved (now : ℕ) (s : Waiting) (err : String) :
    (s.failed now err).await ≠ .resolved ∧ (s.failed now err).probes = s.probes := by
  unfold Waiting.failed
  dsimp only
  split <;> exact ⟨nofun, rfl⟩

theorem probed_probes (now : ℕ) (s : Waiting) (r : Request) : (s.probed now r).probes = s.probes := by
  unfold Waiting.probed
  dsimp only
  split
  case h_1 =>
      rfl
  case h_2 err _ =>
      exact (failed_not_resolved now { s with request := some r } err).2
  case h_3 =>
      rfl

/-- An aborted call waits for its probe, and the clock for both. -/
theorem Sound.aborted (h : Sound start maxMs intervalMs c.now c.state)
    (hsignal : c.state.signal = some true) (hpending : c.state.pending = true) {m : Move Event}
    (hs : waiting.machine.step c m = some c') :
    c'.now = c.now ∧ c'.state.probes = c.state.probes := by
  have hawait : c.state.await = .probe := by
    rcases pending_cases hpending with hawait | hawait
    · exact hawait
    · rcases h.sleeping (by simp [Waiting.isSleeping, hawait]) with ⟨t, ht⟩
      exact absurd hsignal ht.signal
  rcases h.probing (by simp [Waiting.isProbing, hawait]) with ⟨r, hr⟩
  rcases Timed.machine_step hs with ⟨ms, rfl, hpos, hdue, rfl⟩ | ⟨e, s, rfl, hact, rfl⟩
  · have hlive := hr.live
    rw [hsignal] at hlive
    refine absurd (fun t ht => hdue t ?_) (hlive.stops hpos)
    simp [waiting, Waiting.due, hr.request, ht]
  · refine ⟨rfl, ?_⟩
    cases WaitingStep.of_step hact with
    | answers _ _ _ =>
        exact probed_probes _ _ _
    | timeout _ _ =>
        rfl
    | wakes hsleeps _ _ =>
        cases hawait.symm.trans hsleeps
    | aborts hfalse _ =>
        cases hsignal.symm.trans hfalse
    | abortsSleep hfalse _ _ =>
        cases hsignal.symm.trans hfalse

/-- A pending call can go on. -/
theorem Sound.goesOn (h : Sound start maxMs intervalMs c.now c.state)
    (hpending : c.state.pending = true) : ∃ m c', waiting.machine.step c m = some c' := by
  rcases pending_cases hpending with hawait | hawait
  · rcases h.probing (by simp [Waiting.isProbing, hawait]) with ⟨r, hr⟩
    rcases Request.settle_rejects hr.live.waits "" with ⟨r', hr'⟩
    refine ⟨.acts (.answers (.rejects "")), { c with state := c.state.probed c.now r' }, ?_⟩
    simp [waiting, Timed.machine, Waiting.step, hawait, hr.request, hr']
  · rcases h.sleeping (by simp [Waiting.isSleeping, hawait]) with ⟨t, ht⟩
    by_cases hdue : t ≤ c.now
    · refine ⟨.acts .wakes, { c with state := c.state.wake c.now }, ?_⟩
      simp [waiting, Timed.machine, Waiting.step, hawait, ht.slept, hdue]
    · refine ⟨.passes 1, { c with now := c.now + 1 }, if_pos ⟨Nat.one_pos, fun t' ht' => ?_⟩⟩
      -- nothing is due but the sleep's own timer
      have hover : ∀ r, c.state.request = some r → r.due = [] := fun r hr =>
        (h.probed (by simp [Waiting.isProbing, hawait]) r hr).due
      have hsame : t' = t := by
        simp only [waiting, Waiting.due, ht.slept] at ht'
        cases hrequest : c.state.request with
        | none =>
            simpa [hrequest] using ht'
        | some r =>
            simpa [hrequest, hover r hrequest] using ht'
      omega

theorem Sound.resolves (h : Sound start maxMs intervalMs c.now c.state)
    (hpending : c.state.pending = true) {m : Move Event} (hs : waiting.machine.step c m = some c')
    (hresolved : c'.state.await = .resolved) : ∃ r raw v, c.state.request = some r ∧
      m = .acts (.answers (.value raw)) ∧ unwrap r.path raw = .ok v ∧
      r.begun < start + maxMs ∧ c.now ≤ r.begun + PROBE_MS := by
  have hnot : c.state.await ≠ .resolved := by
    intro hawait
    simp [Waiting.pending, Waiting.isProbing, Waiting.isSleeping, hawait] at hpending
  rcases Timed.machine_step hs with ⟨ms, rfl, _, _, rfl⟩ | ⟨e, s, rfl, hact, rfl⟩
  · exact absurd hresolved hnot
  · cases WaitingStep.of_step hact with
    | @answers r r' a hawait hrequest hsettle =>
        rcases h.probing (by simp [Waiting.isProbing, hawait]) with ⟨u, hu⟩
        cases hrequest.symm.trans hu.request
        rcases Request.settle_cases hsettle with
          ⟨w, rfl, _, hw⟩ | ⟨raw, v, _, rfl, hunwrap, _⟩ | ⟨message, _, rfl⟩
        · rcases hw with rfl | ⟨status, rfl⟩ <;> exact absurd hresolved hnot
        · have hlate := hu.live.inTime
          rw [hu.timeoutMs] at hlate
          exact ⟨r, raw, v, hrequest, rfl, hunwrap, hu.inTime, hlate⟩
        · exact absurd hresolved (failed_not_resolved _ _ _).1
    | timeout _ _ =>
        exact absurd hresolved hnot
    | wakes _ _ _ =>
        exact absurd hresolved (loop_not_resolved _ _)
    | aborts _ _ =>
        exact absurd hresolved hnot
    | abortsSleep _ _ _ =>
        exact absurd hresolved (loop_not_resolved _ _)

/-- Whatever the server answers, and whenever the caller gives up. -/
theorem reachable_waiting (h : waiting.machine.Reachable (Called start maxMs intervalMs) c) :
    Waits start maxMs intervalMs c := by
  have hsound := reachable_sound h
  refine ⟨hsound.inTime, hsound.spaced, hsound.spaced.length,
    fun hsignal hpending m c' hs => hsound.aborted hsignal hpending hs, hsound.goesOn,
    fun m c' hs hpending => hsound.resolves hpending hs, fun hover => ?_⟩
  have hparts := Bool.or_eq_false_iff.1 hover
  refine ⟨fun r hr => ?_, hsound.awake hparts.2⟩
  have hdone := hsound.probed hparts.1 r hr
  exact ⟨hdone.timer, hdone.listening⟩

end Runs

/-! ## A server that comes up -/

/-- A call with half a minute, at the instant 0. -/
def call : Clocked Waiting where
  now := 0
  state := waitForReady 0 "http://127.0.0.1:3010" 30000 1000 (some false)

theorem call_called : Called 0 30000 1000 call :=
  ⟨rfl, "http://127.0.0.1:3010", some false, rfl⟩

/-- The connection is refused, the second probe is not answered in time, and the third one is. -/
def comesUp : List (Move Event) :=
  [.acts (.answers (.rejects "fetch failed")), .passes 1000, .acts .wakes,
    .passes 2000, .acts .timeout, .acts (.answers (.rejects "aborted")), .passes 1000, .acts .wakes,
    .passes 40, .acts (.answers (.responds true 200)),
    .acts (.answers (.value (.object [("success", .bool true)])))]

theorem reachable_waiting_up :
    ∃ c, waiting.machine.run call comesUp = some c ∧ c.state.await = .resolved ∧ c.now = 4040 ∧
      Waits 0 30000 1000 c := by
  obtain ⟨c, hc, hawait, hnow⟩ : ∃ c, waiting.machine.run call comesUp = some c ∧
      c.state.await = .resolved ∧ c.now = 4040 := ⟨_, rfl, rfl, rfl⟩
  exact ⟨c, hc, hawait, hnow, reachable_waiting (Machine.Reachable.run (.init call_called) hc)⟩

/-- Where nothing is due, time passes. -/
theorem run_passes {c : Clocked Waiting} (hdue : c.state.due = []) (n : ℕ) :
    waiting.machine.run c (List.replicate n (.passes 1)) = some { c with now := c.now + n } := by
  induction n generalizing c with
  | zero =>
      rfl
  | succ n ih =>
      have hin : waiting.InTime (c.now + 1) c.state := by
        intro t ht
        rw [show waiting.due c.state = [] from hdue] at ht
        cases ht
      have hrest := ih (c := { c with now := c.now + 1 }) hdue
      refine (Machine.run_cons_eq_some _).2 ⟨_, if_pos ⟨Nat.one_pos, hin⟩, ?_⟩
      rwa [Nat.add_assoc, Nat.add_comm 1 n] at hrest

/-- A call with two milliseconds. -/
def shortCall : Clocked Waiting where
  now := 5
  state := waitForReady 5 "http://127.0.0.1:3010" 2 1 none

/-- The connection is refused, and refused again behind a sleep, and the next sleep ends at the
deadline. -/
def refused : List (Move Event) :=
  [.acts (.answers (.rejects "fetch failed")), .passes 1, .acts .wakes,
    .acts (.answers (.rejects "fetch failed")), .passes 1, .acts .wakes]

theorem waiting_ends_refused : ∃ c',
    waiting.machine.run shortCall (refused ++ List.replicate 2020 (.passes 1)) = some c' ∧
      c'.state.probes = [6, 5] ∧ c'.state.pending = false := by
  obtain ⟨c, hc, hprobes, hdue⟩ : ∃ c, waiting.machine.run shortCall refused = some c ∧
      c.state.probes = [6, 5] ∧ c.state.due = [] := ⟨_, rfl, rfl, rfl⟩
  have hrun : waiting.machine.run shortCall (refused ++ List.replicate 2020 (.passes 1)) =
      some { c with now := c.now + 2020 } := by
    rw [Machine.run_append, hc, Option.bind_some]
    exact run_passes hdue 2020
  have hcalled : Called 5 2 1 shortCall := ⟨rfl, "http://127.0.0.1:3010", none, rfl⟩
  refine ⟨_, hrun, hprobes, waiting_ends hcalled hrun ?_⟩
  have hmoves : refused.length = 6 := rfl
  have htimer : timerMs 1 = 1 := rfl
  have hprobe : PROBE_MS = 2000 := rfl
  rw [List.length_append, List.length_replicate, hmoves, htimer, hprobe]
  omega

end Client
end SignalKBackup
