import SignalKBackup.Uplink.SingleFlight

/-!
# Waiting — when a null may be put

`start()` and every published null begin a wait of `FIRST_STATE_WAIT_MS`, and `currentState()`
decides on a null only when no wait timer is set.  While the reporter runs, an unset timer means
that the wait is over (`Paced`).  A stopped reporter has no timer either, and a report that was
begun before the stop goes on: it takes the cleared timer for a wait that is over
(`reachable_early_null`).  `Steady` is the step condition under which no report does.
-/

namespace SignalKBackup
namespace Uplink

open Lib

variable {T : Type}

/-! ## The clock and the wait -/

/-- A full wait has passed since the latest `start()` and since the latest published null. -/
def Waited (s : World T) : Prop :=
  (∀ t, s.startedAt = some t → t + FIRST_STATE_WAIT_MS ≤ s.now) ∧
    ∀ t, s.nulledAt = some t → t + FIRST_STATE_WAIT_MS ≤ s.now

/-- The wait timer is never due before the wait is over, and runs out only while running. -/
structure Paced (s : World T) : Prop where
  started : ∀ t, s.startedAt = some t → t ≤ s.now
  nulled : ∀ t, s.nulledAt = some t → t ≤ s.now
  waiting : ∀ due, s.waitTimer = some due → Running s
  startDue : ∀ due t, s.waitTimer = some due → s.startedAt = some t →
    t + FIRST_STATE_WAIT_MS ≤ due
  nullDue : ∀ due t, s.waitTimer = some due → s.nulledAt = some t → t + FIRST_STATE_WAIT_MS ≤ due
  waited : Running s → s.waitTimer = none → Waited s
  subscribed : s.subscribed = true → Running s

/-- The fields `Paced` and `Waited` read. -/
structure SameClock (s s' : World T) : Prop where
  now : s'.now = s.now
  startedAt : s'.startedAt = s.startedAt
  nulledAt : s'.nulledAt = s.nulledAt
  waitTimer : s'.waitTimer = s.waitTimer
  running : Running s' ↔ Running s
  subscribed : s'.subscribed = s.subscribed

theorem SameClock.waited {s s' : World T} (h : SameClock s s') : Waited s' ↔ Waited s := by
  simp [Waited, h.now, h.startedAt, h.nulledAt]

theorem Paced.congr {s s' : World T} (h : Paced s) (hsame : SameClock s s') : Paced s' := by
  constructor
  · simpa [hsame.startedAt, hsame.now] using h.started
  · simpa [hsame.nulledAt, hsame.now] using h.nulled
  · simpa [hsame.waitTimer, hsame.running] using h.waiting
  · simpa [hsame.waitTimer, hsame.startedAt] using h.startDue
  · simpa [hsame.waitTimer, hsame.nulledAt] using h.nullDue
  · simpa [hsame.running, hsame.waitTimer, hsame.waited] using h.waited
  · simpa [hsame.running, hsame.subscribed] using h.subscribed

theorem report_sameClock (b : Bool) (s : World T) : SameClock s (report b s) := by
  unfold report
  split
  · exact ⟨rfl, rfl, rfl, rfl, Iff.rfl, rfl⟩
  · split
    · exact ⟨rfl, rfl, rfl, rfl, Iff.rfl, rfl⟩
    · exact ⟨rfl, rfl, rfl, rfl, Iff.rfl, rfl⟩

theorem Paced.report {s : World T} (h : Paced s) (b : Bool) : Paced (report b s) :=
  h.congr (report_sameClock b s)

theorem publish_sameClock (s : World T) {v : Value} (hv : v ≠ .null) :
    SameClock s (publish s v) := by
  have hpub : publish s v = { s with value := v, history := v :: s.history } := by
    simp [publish, hv]
  rw [hpub]
  exact ⟨rfl, rfl, rfl, rfl, Iff.rfl, rfl⟩

theorem publishAll_sameClock (vs : List Value) {s : World T} (hvs : .null ∉ vs) :
    SameClock s (vs.foldl publish s) := by
  induction vs generalizing s with
  | nil =>
      exact ⟨rfl, rfl, rfl, rfl, Iff.rfl, rfl⟩
  | cons v vs ih =>
      have hv : v ≠ .null := by
        intro heq
        exact hvs (by simp [heq])
      have hhead := publish_sameClock s hv
      have htail := ih (s := publish s v) (fun hmem => hvs (List.mem_cons_of_mem v hmem))
      exact ⟨htail.now.trans hhead.now, htail.startedAt.trans hhead.startedAt,
        htail.nulledAt.trans hhead.nulledAt, htail.waitTimer.trans hhead.waitTimer,
        htail.running.trans hhead.running, htail.subscribed.trans hhead.subscribed⟩

/-- A published null begins a new wait. -/
theorem Paced.publish {s : World T} (h : Paced s) (hrun : Running s) (v : Value) :
    Paced (publish s v) := by
  by_cases hv : v = .null
  · -- a null restarts the wait, which is then longer than the one since `start()`
    subst hv
    constructor
    · exact h.started
    · intro t ht
      cases ht
      exact Nat.le_refl _
    · intro due _
      exact hrun
    · intro due t hdue ht
      cases hdue
      exact Nat.add_le_add_right (h.started t ht) _
    · intro due t hdue ht
      cases hdue
      cases ht
      exact Nat.le_refl _
    · intro _ hnone
      cases hnone
    · intro _
      exact hrun
  · exact h.congr (publish_sameClock s hv)

theorem publish_running {s : World T} (v : Value) (h : Running s) : Running (publish s v) := by
  have hsame := publish_sameReports s v
  simpa [Running, hsame.resendTimer] using h

theorem keeps_paced_publish (s : World T) (v : Value) (h : Running s ∧ Paced s) :
    Running (publish s v) ∧ Paced (publish s v) :=
  ⟨publish_running v h.1, h.2.publish h.1 v⟩

theorem keeps_paced_report (b : Bool) (s : World T) (h : Running s ∧ Paced s) :
    Running (report b s) ∧ Paced (report b s) := by
  exact ⟨(report_sameClock b s).running.2 h.1, h.2.report b⟩

theorem Paced.opened {s : World T} (h : Paced s) : Running (opened s) ∧ Paced (opened s) := by
  refine ⟨rfl, ?_⟩
  constructor
  · intro t ht
    cases ht
    exact Nat.le_refl _
  · exact h.nulled
  · intro due _
    exact rfl
  · intro due t hdue ht
    cases hdue
    cases ht
    exact Nat.le_refl _
  · intro due t hdue ht
    cases hdue
    exact Nat.add_le_add_right (h.nulled t ht) _
  · intro _ hnone
    cases hnone
  · intro _
    exact rfl

theorem Paced.start {s : World T} (h : Paced s) (b : Bool) (cached : List Delta) :
    Paced (start b cached s) :=
  (keeps_start (P := fun s => Running s ∧ Paced s) keeps_paced_publish (keeps_paced_report b)
    cached h.opened).2

theorem Paced.stop {s : World T} (h : Paced s) : Paced (stop s) := by
  constructor
  · exact h.started
  · exact h.nulled
  · intro due hdue
    cases hdue
  · intro due t hdue
    cases hdue
  · intro due t hdue
    cases hdue
  · -- a stopped reporter has no timer and claims nothing about the wait
    intro hrun
    cases hrun
  · intro hsub
    cases hsub

theorem Paced.tick {s : World T} (h : Paced s) (ms : Nat) : Paced { s with now := s.now + ms } := by
  constructor
  · intro t ht
    exact Nat.le_add_right_of_le (h.started t ht)
  · intro t ht
    exact Nat.le_add_right_of_le (h.nulled t ht)
  · exact h.waiting
  · exact h.startDue
  · exact h.nullDue
  · intro hrun hnone
    have hwaited := h.waited hrun hnone
    exact ⟨fun t ht => Nat.le_add_right_of_le (hwaited.1 t ht),
      fun t ht => Nat.le_add_right_of_le (hwaited.2 t ht)⟩
  · exact h.subscribed

/-- The wait timer has fired: the wait is over. -/
theorem Paced.fired {s : World T} (h : Paced s) {due : Nat} (hdue : s.waitTimer = some due)
    (hle : due ≤ s.now) : Paced { s with waitTimer := none } := by
  constructor
  · exact h.started
  · exact h.nulled
  · intro due' hdue'
    cases hdue'
  · intro due' t hdue'
    cases hdue'
  · intro due' t hdue'
    cases hdue'
  · intro _ _
    exact ⟨fun t ht => Nat.le_trans (h.startDue due t hdue ht) hle,
      fun t ht => Nat.le_trans (h.nullDue due t hdue ht) hle⟩
  · exact h.subscribed

theorem Paced.resent {s : World T} (h : Paced s) {due next : Nat}
    (hdue : s.resendTimer = some due) :
    Paced { s with resendTimer := some next, last := none } := by
  have hrun : Running s := by simp [Running, hdue]
  exact h.congr ⟨rfl, rfl, rfl, rfl, by simp [Running, hdue], rfl⟩

theorem Paced.onDelta {s : World T} (h : Paced s) (b : Bool) (d : Delta)
    (hsub : s.subscribed = true) : Running (onDelta b s d) ∧ Paced (onDelta b s d) := by
  have hpub := keeps_publishAll (P := fun s => Running s ∧ Paced s) keeps_paced_publish
    (published d) ⟨h.subscribed hsub, h⟩
  exact keeps_paced_report b _ hpub

section Clocked

variable [DecidableEq T]

theorem paced_step {b : Bool} {s s' : World T} {a : Action T} (h : Paced s) (hs : Step b s a s') :
    Paced s' := by
  cases hs with
  | start cached =>
      exact h.start b cached
  | stop =>
      exact h.stop
  | report =>
      exact h.report b
  | retarget t =>
      refine Paced.report ?_ b
      exact h.congr ⟨rfl, rfl, rfl, rfl, Iff.rfl, rfl⟩
  | retargetStart t cached =>
      refine Paced.start ?_ b cached
      exact h.congr ⟨rfl, rfl, rfl, rfl, Iff.rfl, rfl⟩
  | retargetStop t =>
      refine Paced.stop ?_
      exact h.congr ⟨rfl, rfl, rfl, rfl, Iff.rfl, rfl⟩
  | delta d hsub =>
      exact (h.onDelta b d hsub).2
  | tick ms =>
      exact h.tick ms
  | waitFires hdue hle =>
      exact (h.fired hdue hle).report b
  | resendFires hdue _ =>
      exact (h.resent hdue).report b
  | pluginsList answer _ =>
      exact h.congr ⟨rfl, rfl, rfl, rfl, Iff.rfl, rfl⟩
  | decide _ =>
      exact h.congr ⟨rfl, rfl, rfl, rfl, Iff.rfl, rfl⟩
  | sendTail _ =>
      unfold sendTail
      split
      · exact h.congr ⟨rfl, rfl, rfl, rfl, Iff.rfl, rfl⟩
      · split
        · exact h.congr ⟨rfl, rfl, rfl, rfl, Iff.rfl, rfl⟩
        · exact h.congr ⟨rfl, rfl, rfl, rfl, Iff.rfl, rfl⟩
  | reportTail _ =>
      unfold reportTail
      dsimp only
      split
      · refine Paced.report ?_ b
        exact h.congr ⟨rfl, rfl, rfl, rfl, Iff.rfl, rfl⟩
      · exact h.congr ⟨rfl, rfl, rfl, rfl, Iff.rfl, rfl⟩
  | apply _ =>
      exact h.congr ⟨rfl, rfl, rfl, rfl, Iff.rfl, rfl⟩
  | resolved _ =>
      unfold recordPut
      split
      · exact h.congr ⟨rfl, rfl, rfl, rfl, Iff.rfl, rfl⟩
      · exact h.congr ⟨rfl, rfl, rfl, rfl, Iff.rfl, rfl⟩
  | rejected _ =>
      exact h.congr ⟨rfl, rfl, rfl, rfl, Iff.rfl, rfl⟩
  | applyLate _ =>
      exact h.congr ⟨rfl, rfl, rfl, rfl, Iff.rfl, rfl⟩

end Clocked

/-! ## The reports -/

/-- `report()` is called from outside only while running, and signalk-internet is enabled. -/
def Polite (s : World T) : Action T → Prop
  | .report => Running s
  | .retarget _ => Running s
  | .pluginsList _ answer => publisherEnabled answer = true
  | _ => True

/-- No report reads the plugin list, or waits in the queue, across a `stop()`, and nothing begins
a new wait between `currentState()` deciding on a null and `send` putting it. -/
def Steady (s : World T) : Action T → Prop
  | .start _ => ∀ t g, .decided t g (.state none) ∉ s.flights
  | .retargetStart _ _ => ∀ t g, .decided t g (.state none) ∉ s.flights
  | .stop => ∀ t g, .decided t g (.state none) ∈ s.flights → Waited s
  | .retargetStop _ => ∀ t g, .decided t g (.state none) ∈ s.flights → Waited s
  | .resendFires => ∀ t g, .decided t g (.state none) ∈ s.flights → Waited s
  | .delta d => .null ∈ published d →
      ∀ t g, .decided t g (.state none) ∈ s.flights → s.last = some (t, none)
  | .resume i =>
      (∀ t g enabled, s.flights[i]? = some (.asked t g enabled) → Running s ∨ Waited s) ∧
        (s.flights[i]? = some .sent → s.queued = true →
          Running s ∨ s.target = none ∨ Waited s)
  | _ => True

/-- The step calls `putUplinkState(null)`. -/
def PutsNull (s : World T) (a : Action T) : Prop :=
  ∃ i t g, a = .resume i ∧ s.flights[i]? = some (.decided t g (.state none)) ∧
    s.last ≠ some (t, none)

/-- A null that `currentState()` has decided on is due, or it will be skipped. -/
def Flight.InTime (s : World T) : Flight T → Prop
  | .asked _ _ enabled => enabled = true
  | .decided t _ (.state none) => Waited s ∨ s.last = some (t, none)
  | _ => True

def InTime (s : World T) : Prop :=
  ∀ f ∈ s.flights, f.InTime s

theorem Flight.InTime.congr {s s' : World T} {f : Flight T} (h : f.InTime s)
    (hnull : ∀ t g, f = .decided t g (.state none) →
      Waited s ∨ s.last = some (t, none) → Waited s' ∨ s'.last = some (t, none)) :
    f.InTime s' := by
  cases f with
  | listing t g =>
      trivial
  | asked t g enabled =>
      exact h
  | decided t g r =>
      cases r with
      | waiting =>
          trivial
      | state st =>
          cases st with
          | none =>
              exact hnull t g rfl h
          | some l =>
              trivial
  | putting t g st applied =>
      trivial
  | sent =>
      trivial

theorem InTime.congr {s s' : World T} (h : InTime s) (hf : s'.flights = s.flights)
    (hc : SameClock s s') (hl : s'.last = s.last) : InTime s' := by
  intro f hmem
  refine (h f (hf ▸ hmem)).congr ?_
  intro t g _ hdue
  rwa [hc.waited, hl]

/-- A report begun while running, or after the wait, decides on no early null. -/
theorem sendHead_inTime {s : World T} (hp : Paced s) (hok : Running s ∨ Waited s) (t : T) :
    (sendHead true s t).InTime s := by
  unfold sendHead
  dsimp only
  split
  · rename_i hknown
    cases hst : toUplinkState s.value with
    | some l =>
        trivial
    | none =>
        -- no state and no timer: `Paced` says that the wait is over
        have hover : s.waitTimer = none := by simpa [hst, waiting] using hknown
        exact Or.inl (hok.elim (fun hrun => hp.waited hrun hover) id)
  · trivial

theorem InTime.report {s : World T} (h : InTime s) (hp : Paced s)
    (hok : Running s ∨ s.target = none ∨ Waited s) : InTime (report true s) := by
  unfold Uplink.report
  split
  · exact h.congr rfl ⟨rfl, rfl, rfl, rfl, Iff.rfl, rfl⟩ rfl
  · split
    · exact h
    · rename_i t ht
      have hrun : Running s ∨ Waited s := by simpa [ht] using hok
      intro f hmem
      -- flights in progress stay as they are, the new one is in time
      rcases List.mem_append.1 hmem with hold | hnew
      · exact (h f hold).congr fun _ _ _ hdue => hdue
      · rw [List.mem_singleton.1 hnew]
        exact (sendHead_inTime hp hrun t).congr fun _ _ _ hdue => hdue

/-- A flight that a step moves is in time if its next await is. -/
theorem InTime.set {s s' : World T} (h : InTime s) {i : Nat} {f : Flight T}
    (hf : s'.flights = s.flights.set i f) (hc : SameClock s s') (hl : s'.last = s.last)
    (hnew : f.InTime s) : InTime s' := by
  have hkeep : ∀ k : Flight T, k.InTime s → k.InTime s' := by
    intro k hk
    refine hk.congr ?_
    intro t g _ hdue
    rwa [hc.waited, hl]
  intro k hmem
  rw [hf] at hmem
  rcases List.mem_or_eq_of_mem_set hmem with hold | rfl
  · exact hkeep k (h k hold)
  · exact hkeep k hnew

/-- Inside `start()` the wait is on, so no report decides on a null. -/
def Held (s : World T) : Prop :=
  s.waitTimer.isSome ∧ ∀ f ∈ s.flights, (∀ t g, f ≠ .decided t g (.state none)) ∧ f.InTime s

theorem keeps_held_publish (s : World T) (v : Value) (h : Held s) : Held (publish s v) := by
  have hsame := publish_sameReports s v
  refine ⟨?_, ?_⟩
  · by_cases hv : v = .null
    · simp [publish, hv, startWait]
    · simpa [publish, hv] using h.1
  · intro f hmem
    have hf := h.2 f (hsame.flights ▸ hmem)
    exact ⟨hf.1, hf.2.congr fun t g heq _ => absurd heq (hf.1 t g)⟩

theorem keeps_held_report (s : World T) (h : Held s) : Held (report true s) := by
  unfold report
  split
  · exact ⟨h.1, fun f hmem => ⟨(h.2 f hmem).1, (h.2 f hmem).2.congr fun _ _ _ hdue => hdue⟩⟩
  · split
    · exact h
    · rename_i t ht
      refine ⟨h.1, ?_⟩
      intro f hmem
      rcases List.mem_append.1 hmem with hold | hnew
      · have hf := h.2 f hold
        exact ⟨hf.1, hf.2.congr fun _ _ _ hdue => hdue⟩
      · rw [List.mem_singleton.1 hnew]
        have hwait : waiting s = true := h.1
        -- with the wait on, an unknown value leads to the plugin list
        cases hst : toUplinkState s.value with
        | none =>
            have hhead : sendHead true s t = .listing t s.generation := by
              simp [sendHead, hst, hwait]
            rw [hhead]
            exact ⟨by simp, trivial⟩
        | some l =>
            have hhead : sendHead true s t = .decided t s.generation (.state (some l)) := by
              simp [sendHead, hst]
            rw [hhead]
            exact ⟨by simp, trivial⟩

theorem InTime.start {s : World T} (h : InTime s) (cached : List Delta)
    (hnone : ∀ t g, .decided t g (.state none) ∉ s.flights) : InTime (start true cached s) := by
  have hopen : Held (opened s) := by
    refine ⟨rfl, ?_⟩
    intro f hmem
    have hne : ∀ t g, f ≠ .decided t g (.state none) := by
      rintro t g rfl
      exact hnone t g hmem
    exact ⟨hne, (h f hmem).congr fun t g heq _ => absurd heq (hne t g)⟩
  have hheld := keeps_start keeps_held_publish keeps_held_report cached hopen
  exact fun f hmem => (hheld.2 f hmem).2

theorem InTime.onDelta {s : World T} (h : InTime s) (hp : Paced s) (hsub : s.subscribed = true)
    (d : Delta) (hnull : .null ∈ published d →
      ∀ t g, .decided t g (.state none) ∈ s.flights → s.last = some (t, none)) :
    InTime (onDelta true s d) := by
  have hpub := keeps_publishAll (P := fun s => Running s ∧ Paced s) keeps_paced_publish
    (published d) ⟨hp.subscribed hsub, hp⟩
  have hsame : ((published d).foldl publish s).flights = s.flights ∧
      ((published d).foldl publish s).last = s.last :=
    keeps_publishAll (P := fun s' => s'.flights = s.flights ∧ s'.last = s.last)
      (fun s' v hs' => ⟨(publish_sameReports s' v).flights.trans hs'.1,
        (publish_sameReports s' v).last.trans hs'.2⟩) (published d) ⟨rfl, rfl⟩
  refine InTime.report ?_ hpub.2 (Or.inl hpub.1)
  -- a null begins a new wait, so those decided on must be skipped by `last`
  by_cases hmem : .null ∈ published d
  · intro f hf
    rw [hsame.1] at hf
    refine (h f hf).congr ?_
    intro t g heq _
    exact Or.inr (hsame.2.trans (hnull hmem t g (heq ▸ hf)))
  · exact h.congr hsame.1 (publishAll_sameClock (published d) hmem) hsame.2

/-- `last` is cleared: the nulls decided on have to be due. -/
theorem InTime.cleared {s s' : World T} (h : InTime s) (hf : s'.flights = s.flights)
    (hdue : ∀ t g, .decided t g (.state none) ∈ s.flights → Waited s') : InTime s' := by
  intro f hmem
  rw [hf] at hmem
  refine (h f hmem).congr ?_
  intro t g heq _
  exact Or.inl (hdue t g (heq ▸ hmem))

variable [DecidableEq T]

theorem inTime_step {s s' : World T} {a : Action T} (h : InTime s) (hone : OneFlight s)
    (hp : Paced s) (hpol : Polite s a) (hst : Steady s a) (hs : Step true s a s') : InTime s' := by
  cases hs with
  | start cached =>
      exact h.start cached hst
  | stop =>
      exact h.cleared rfl hst
  | report =>
      exact h.report hp (Or.inl hpol)
  | retarget t =>
      refine InTime.report ?_ ?_ (Or.inl hpol)
      · exact h.congr rfl ⟨rfl, rfl, rfl, rfl, Iff.rfl, rfl⟩ rfl
      · exact hp.congr ⟨rfl, rfl, rfl, rfl, Iff.rfl, rfl⟩
  | retargetStart t cached =>
      refine InTime.start ?_ cached hst
      exact h.congr rfl ⟨rfl, rfl, rfl, rfl, Iff.rfl, rfl⟩ rfl
  | retargetStop t =>
      exact h.cleared rfl hst
  | delta d hsub =>
      exact h.onDelta hp hsub d hst
  | tick ms =>
      intro f hmem
      refine (h f hmem).congr ?_
      intro t g _ hdue
      refine hdue.imp ?_ id
      intro hw
      exact ⟨fun t' ht => Nat.le_add_right_of_le (hw.1 t' ht),
        fun t' ht => Nat.le_add_right_of_le (hw.2 t' ht)⟩
  | waitFires hdue hle =>
      refine InTime.report ?_ (hp.fired hdue hle) (Or.inl (hp.waiting _ hdue))
      intro f hmem
      exact (h f hmem).congr fun _ _ _ hin => hin
  | resendFires hdue _ =>
      refine InTime.report ?_ (hp.resent hdue) (Or.inl rfl)
      exact h.cleared rfl hst
  | pluginsList answer hf =>
      exact h.set rfl ⟨rfl, rfl, rfl, rfl, Iff.rfl, rfl⟩ rfl hpol
  | @decide i g t enabled hf =>
      refine h.set rfl ⟨rfl, rfl, rfl, rfl, Iff.rfl, rfl⟩ rfl ?_
      -- a disabled publisher would decide on a null at once
      have henabled : enabled = true := h _ (List.mem_of_getElem? hf)
      have hok := hst.1 t g enabled hf
      unfold decide'
      dsimp only
      split
      · rename_i hknown
        cases hval : toUplinkState s.value with
        | some l =>
            trivial
        | none =>
            simp [hval, henabled] at hknown
      · split
        · trivial
        · rename_i hwait
          -- no timer: running or not, `Steady` has the wait over
          have hover : s.waitTimer = none := by simpa [waiting] using hwait
          exact Or.inl (hok.elim (fun hrun => hp.waited hrun hover) id)
  | sendTail hf =>
      unfold sendTail
      split
      · exact h.set rfl ⟨rfl, rfl, rfl, rfl, Iff.rfl, rfl⟩ rfl trivial
      · split
        · exact h.set rfl ⟨rfl, rfl, rfl, rfl, Iff.rfl, rfl⟩ rfl trivial
        · exact h.set rfl ⟨rfl, rfl, rfl, rfl, Iff.rfl, rfl⟩ rfl trivial
  | @reportTail i hf =>
      -- the queued call begins only where `Steady` allows it
      have hrest : ∀ f ∈ s.flights.eraseIdx i, f.InTime s :=
        fun f hmem => h f (List.mem_of_mem_eraseIdx hmem)
      unfold reportTail
      dsimp only
      split
      · rename_i hq
        refine InTime.report ?_ ?_ (hst.2 hf hq)
        · exact fun f hmem => (hrest f hmem).congr fun _ _ _ hdue => hdue
        · exact hp.congr ⟨rfl, rfl, rfl, rfl, Iff.rfl, rfl⟩
      · exact fun f hmem => (hrest f hmem).congr fun _ _ _ hdue => hdue
  | apply _ =>
      exact h.set rfl ⟨rfl, rfl, rfl, rfl, Iff.rfl, rfl⟩ rfl trivial
  | @resolved i g t st hf =>
      rcases hone.eq_of_get hf with ⟨rfl, hflights, _⟩
      have hsent : ∀ w : World T, w.flights = s.flights.set 0 .sent → InTime w := by
        intro w hw f hmem
        have heq : f = .sent := by simpa [hw, hflights] using hmem
        rw [heq]
        trivial
      unfold recordPut
      split
      · exact hsent _ rfl
      · exact hsent _ rfl
  | rejected _ =>
      exact h.set rfl ⟨rfl, rfl, rfl, rfl, Iff.rfl, rfl⟩ rfl trivial
  | applyLate _ =>
      exact h.congr rfl ⟨rfl, rfl, rfl, rfl, Iff.rfl, rfl⟩ rfl

/-! ## Runs -/

/-- In every run whose steps are all `Polite` and `Steady`, a null is put only when a full
`FIRST_STATE_WAIT_MS` has passed since the latest `start()` and the latest published null. -/
theorem reachable_null_waited (s : World T)
    (h : (machine true).ReachableUnder (fun s a => Polite s a ∧ Steady s a) Fresh s)
    (a : Action T) (hput : PutsNull s a) : Waited s := by
  have hinv : OneFlight s ∧ Paced s ∧ InTime s := by
    refine h.invariant (P := fun s => OneFlight s ∧ Paced s ∧ InTime s) ?_ ?_
    · intro s hfresh
      have hone := hfresh.oneFlight
      rcases hfresh with ⟨target, now, stored, rfl⟩
      refine ⟨hone, ?_, List.forall_mem_nil _⟩
      constructor <;> simp [Running]
    · rintro s a s' ⟨hone, hp, hin⟩ ⟨hpol, hst⟩ hs
      have hstep := Step.of_step hs
      exact ⟨oneFlight_step hone hstep, paced_step hp hstep,
        inTime_step hin hone hp hpol hst hstep⟩
  rcases hput with ⟨i, t, g, rfl, hf, hlast⟩
  exact (hinv.2.2 _ (List.mem_of_getElem? hf)).resolve_right hlast

/-- Without a server the wait runs out unheard. -/
def waitedOut : List (Action Nat) :=
  [.start [], .tick FIRST_STATE_WAIT_MS, .waitFires]

/-- The server connects after the wait: the report to it puts the null. -/
theorem reachable_null_waited_lateServer :
    ∃ s, (machine true).run { unstarted with target := none }
        (waitedOut ++ [.retarget (some 0)]) = some s ∧
      PutsNull s (.resume 0) ∧ Waited s := by
  obtain ⟨s, hs⟩ : ∃ s, (machine true).run { unstarted with target := none } waitedOut = some s :=
    ⟨_, rfl⟩
  have hmeets : (machine true).Meets (fun s a => Polite s a ∧ Steady s a)
      { unstarted with target := none } waitedOut :=
    ⟨⟨trivial, by simp [Steady, unstarted]⟩, fun _ _ =>
      ⟨⟨trivial, trivial⟩, fun _ _ => ⟨⟨trivial, trivial⟩, fun _ _ => trivial⟩⟩⟩
  have hout := Machine.ReachableUnder.run (I := Fresh) (.init ⟨_, _, _, rfl⟩) hmeets hs
  cases hs
  have hrun : ∀ s', (machine true).run { unstarted with target := none } waitedOut = some s' →
      Running s' := by
    rintro _ ⟨⟩
    unfold Running
    rfl
  have hput : ∀ s', (machine true).run { unstarted with target := none }
      (waitedOut ++ [.retarget (some 0)]) = some s' → PutsNull s' (.resume 0) := by
    rintro _ ⟨⟩
    exact ⟨0, 0, 1, rfl, rfl, nofun⟩
  have hpolite : Polite _ (.retarget (some 0)) := hrun _ rfl
  have hsteady : ∀ w : World Nat, Steady w (.retarget (some 0)) := fun _ => trivial
  have hreach := hout.step ⟨hpolite, hsteady _⟩ rfl
  have hwaited := reachable_null_waited _ hreach (.resume 0) (hput _ rfl)
  exact ⟨_, rfl, hput _ rfl, hwaited⟩

/-- The reporter is stopped while a report waits for the plugin list. -/
def stoppedWhileListing : List (Action Nat) :=
  [.start [], .stop, .pluginsList 0 (some [{ id := SIGNALK_INTERNET_PLUGIN_ID, enabled := true }]),
    .resume 0]

theorem reachable_early_null :
    ¬ ∀ (s : World Nat) (a : Action Nat), (machine true).ReachableUnder Polite Fresh s →
      PutsNull s a → Waited s := by
  intro hnever
  obtain ⟨s, hs⟩ : ∃ s, (machine true).run unstarted stoppedWhileListing = some s := ⟨_, rfl⟩
  have hpol : (machine true).Meets Polite unstarted stoppedWhileListing :=
    .of_forall (by simp [stoppedWhileListing, Polite, publisherEnabled]) _
  have hreach := Machine.ReachableUnder.run (I := Fresh) (.init ⟨_, _, _, rfl⟩) hpol hs
  have hwaited := hnever s (.resume 0) hreach
  cases hs
  have hput := hwaited ⟨0, 0, 1, rfl, rfl, nofun⟩
  exact absurd (hput.1 0 rfl) (by decide)

end Uplink
end SignalKBackup
