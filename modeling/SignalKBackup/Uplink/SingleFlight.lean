import SignalKBackup.Uplink.Reporter

/-!
# SingleFlight — one report runs at a time

`report()` spawns a flight only when `sending` is off, and every flight switches it off as its
last step.  So `sending` is on exactly while one flight exists, and `queued` only then.

The lemmas of the first section say what a method leaves alone; the invariants of this and the
following modules are carried through `onDelta` and `start` by them.  The last section adds that
a send which `stop()` overtook has nothing to record: `last` stays empty until it settles.
-/

namespace SignalKBackup
namespace Uplink

open Lib

variable {T : Type}

/-! ## What publishing leaves alone -/

/-- Publishing a value touches the value, the wait and the record of both, and nothing else. -/
structure SameReports (s s' : World T) : Prop where
  flights : s'.flights = s.flights
  sending : s'.sending = s.sending
  queued : s'.queued = s.queued
  last : s'.last = s.last
  generation : s'.generation = s.generation
  resendTimer : s'.resendTimer = s.resendTimer
  subscribed : s'.subscribed = s.subscribed
  target : s'.target = s.target
  now : s'.now = s.now
  stored : s'.stored = s.stored
  abandoned : s'.abandoned = s.abandoned
  lastPut : s'.lastPut = s.lastPut
  startedAt : s'.startedAt = s.startedAt

theorem publish_sameReports (s : World T) (v : Value) : SameReports s (publish s v) := by
  by_cases hv : v = .null
  · constructor <;> simp [publish, startWait, hv]
  · constructor <;> simp [publish, hv]

/-- `start()` as it stands when it subscribes. -/
def opened (s : World T) : World T :=
  { startWait (stop s) with
    resendTimer := some (s.now + UPLINK_RESEND_MS)
    subscribed := true
    history := []
    startedAt := some s.now }

section Keeps

variable {P : World T → Prop} {b : Bool}

theorem keeps_publishAll (hpublish : ∀ s v, P s → P (publish s v)) (vs : List Value)
    {s : World T} (h : P s) : P (vs.foldl publish s) := by
  induction vs generalizing s with
  | nil =>
      exact h
  | cons v vs ih =>
      exact ih (hpublish s v h)

/-- What publishing and reporting keep is kept by every delta of a new subscription. -/
theorem keeps_foldDeltas (hpublish : ∀ s v, P s → P (publish s v))
    (hreport : ∀ s, P s → P (report b s)) (ds : List Delta) {s : World T} (h : P s) :
    P (ds.foldl (onDelta b) s) := by
  induction ds generalizing s with
  | nil =>
      exact h
  | cons d ds ih =>
      exact ih (hreport _ (keeps_publishAll hpublish (published d) h))

theorem keeps_start (hpublish : ∀ s v, P s → P (publish s v))
    (hreport : ∀ s, P s → P (report b s)) (cached : List Delta) {s : World T}
    (h : P (opened s)) : P (start b cached s) :=
  hreport _ (keeps_foldDeltas hpublish hreport cached h)

end Keeps

/-! ## One flight -/

/-- `sending` is on exactly while one flight exists; `queued` needs one. -/
def OneFlight (s : World T) : Prop :=
  (s.flights = [] ∧ s.sending = false ∧ s.queued = false) ∨
    ∃ f, s.flights = [f] ∧ s.sending = true

theorem OneFlight.congr {s s' : World T} (h : OneFlight s) (hf : s'.flights = s.flights)
    (hs : s'.sending = s.sending) (hq : s'.queued = s.queued) : OneFlight s' := by
  simpa [OneFlight, hf, hs, hq] using h

/-- A flight that a step looks up is the only one. -/
theorem OneFlight.eq_of_get {s : World T} (h : OneFlight s) {i : Nat} {f : Flight T}
    (hf : s.flights[i]? = some f) : i = 0 ∧ s.flights = [f] ∧ s.sending = true := by
  rcases h with ⟨hnil, _, _⟩ | ⟨f', hone, hsend⟩
  · simp [hnil] at hf
  · -- a list of one flight has no other position
    have hi : i = 0 := by
      by_contra hne
      rcases Nat.exists_eq_succ_of_ne_zero hne with ⟨j, rfl⟩
      simp [hone] at hf
    subst hi
    have hff : f' = f := by simpa [hone] using hf
    exact ⟨rfl, hff ▸ hone, hsend⟩

/-- Replacing the flight a step looked up leaves one flight. -/
theorem OneFlight.set {s s' : World T} (h : OneFlight s) {i : Nat} {f k : Flight T}
    (hf : s.flights[i]? = some f) (hk : s'.flights = s.flights.set i k)
    (hs : s'.sending = s.sending) : OneFlight s' := by
  rcases h.eq_of_get hf with ⟨rfl, hone, hsend⟩
  exact Or.inr ⟨k, by simp [hk, hone], hs.trans hsend⟩

theorem OneFlight.report {s : World T} (h : OneFlight s) (b : Bool) : OneFlight (report b s) := by
  rcases h with ⟨hnil, hsend, hq⟩ | ⟨f, hone, hsend⟩
  · -- idle: with a target the call opens the only flight
    cases ht : s.target with
    | none =>
        have hsame : Uplink.report b s = s := by simp [Uplink.report, hsend, ht]
        exact hsame.symm ▸ Or.inl ⟨hnil, hsend, hq⟩
    | some t =>
        exact Or.inr ⟨sendHead b s t, by simp [Uplink.report, hsend, ht, hnil], by
          simp [Uplink.report, hsend, ht]⟩
  · -- busy: the call is queued
    exact Or.inr ⟨f, by simp [Uplink.report, hsend, hone], by simp [Uplink.report, hsend]⟩

theorem OneFlight.reportTail {s : World T} (h : OneFlight s) (b : Bool) {i : Nat}
    (hf : s.flights[i]? = some .sent) : OneFlight (reportTail b s i) := by
  rcases h.eq_of_get hf with ⟨rfl, hone, _⟩
  by_cases hq : s.queued
  · -- the queued call finds no flight left
    have hidle : OneFlight { s with sending := false, queued := false, flights := [] } :=
      Or.inl ⟨rfl, rfl, rfl⟩
    simpa [Uplink.reportTail, hone, hq] using hidle.report b
  · exact Or.inl (by simp [Uplink.reportTail, hone, hq])

theorem OneFlight.publish {s : World T} (h : OneFlight s) (v : Value) :
    OneFlight (publish s v) := by
  have hsame := publish_sameReports s v
  exact h.congr hsame.flights hsame.sending hsame.queued

theorem OneFlight.opened {s : World T} (h : OneFlight s) : OneFlight (opened s) :=
  h.congr rfl rfl rfl

theorem OneFlight.onDelta {s : World T} (h : OneFlight s) (b : Bool) (d : Delta) :
    OneFlight (onDelta b s d) :=
  (keeps_publishAll (fun _ v hs => hs.publish v) (published d) h).report b

theorem OneFlight.start {s : World T} (h : OneFlight s) (b : Bool) (cached : List Delta) :
    OneFlight (start b cached s) :=
  keeps_start (fun _ v hs => hs.publish v) (fun _ hs => hs.report b) cached h.opened

variable [DecidableEq T]

theorem oneFlight_sendTail {s : World T} (h : OneFlight s) {i : Nat} {f : Flight T}
    (hf : s.flights[i]? = some f) (t : T) (g : Nat) (r : CurrentState) :
    OneFlight (sendTail s i t g r) := by
  cases r with
  | waiting =>
      exact h.set hf rfl rfl
  | state st =>
      by_cases hl : s.last = some (t, st)
      · exact h.set hf (k := .sent) (by simp [sendTail, hl]) (by simp [sendTail, hl])
      · exact h.set hf (k := .putting t g st false) (by simp [sendTail, hl])
          (by simp [sendTail, hl])

/-- Every step keeps the number of flights at what `sending` says. -/
theorem oneFlight_step {b : Bool} {s s' : World T} {a : Action T} (h : OneFlight s)
    (hs : Step b s a s') : OneFlight s' := by
  cases hs with
  | start cached =>
      exact h.start b cached
  | stop =>
      exact h.congr rfl rfl rfl
  | report =>
      exact h.report b
  | retarget t =>
      refine OneFlight.report ?_ b
      exact h.congr rfl rfl rfl
  | retargetStart t cached =>
      refine OneFlight.start ?_ b cached
      exact h.congr rfl rfl rfl
  | retargetStop t =>
      exact h.congr rfl rfl rfl
  | delta d _ =>
      exact h.onDelta b d
  | tick ms =>
      exact h.congr rfl rfl rfl
  | waitFires _ _ =>
      refine OneFlight.report ?_ b
      exact h.congr rfl rfl rfl
  | resendFires _ _ =>
      refine OneFlight.report ?_ b
      exact h.congr rfl rfl rfl
  -- from here on a flight moves on, and stays the only one
  | pluginsList answer hf =>
      exact h.set hf rfl rfl
  | decide hf =>
      exact h.set hf rfl rfl
  | sendTail hf =>
      exact oneFlight_sendTail h hf _ _ _
  | reportTail hf =>
      exact h.reportTail b hf
  | apply hf =>
      exact h.set hf rfl rfl
  | resolved hf =>
      refine h.set hf (k := .sent) ?_ ?_
      · unfold recordPut
        split <;> rfl
      · unfold recordPut
        split <;> rfl
  | rejected hf =>
      exact h.set hf rfl rfl
  | applyLate _ =>
      exact h.congr rfl rfl rfl

omit [DecidableEq T] in
theorem Fresh.oneFlight {s : World T} (h : Fresh s) : OneFlight s := by
  rcases h with ⟨target, now, stored, rfl⟩
  exact Or.inl ⟨rfl, rfl, rfl⟩

omit [DecidableEq T] in
/-- At most one flight exists, so at most one `putUplinkState` is in flight. -/
theorem OneFlight.putting_le_one {s : World T} (h : OneFlight s) :
    (s.flights.filter Flight.isPutting).length ≤ 1 := by
  have hlen : s.flights.length ≤ 1 := by
    rcases h with ⟨hnil, _⟩ | ⟨f, hone, _⟩
    · simp [hnil]
    · simp [hone]
  exact Nat.le_trans (List.length_filter_le _ _) hlen

omit [DecidableEq T] in
/-- What `report()` does under `OneFlight`: nothing, queue the call, or open the only flight. -/
theorem report_cases {s : World T} (h : OneFlight s) (b : Bool) :
    (s.flights = [] ∧ s.target = none ∧ report b s = s) ∨
      (∃ f, s.flights = [f] ∧ report b s = { s with queued := true }) ∨
        ∃ t, s.flights = [] ∧ s.queued = false ∧ s.target = some t ∧
          report b s = { s with sending := true, flights := [sendHead b s t] } := by
  rcases h with ⟨hnil, hsend, hq⟩ | ⟨f, hone, hsend⟩
  · cases ht : s.target with
    | none =>
        exact Or.inl ⟨hnil, rfl, by simp [report, hsend, ht]⟩
    | some t =>
        exact Or.inr (Or.inr ⟨t, hnil, hq, rfl, by simp [report, hsend, ht, hnil]⟩)
  · exact Or.inr (Or.inl ⟨f, hone, by simp [report, hsend]⟩)

omit [DecidableEq T] in
/-- What `report()` does after its `send`: end the flight, and run the queued call if there is one. -/
theorem reportTail_cases {s : World T} (h : OneFlight s) (b : Bool) {i : Nat}
    (hf : s.flights[i]? = some .sent) :
    s.flights = [.sent] ∧
      ((s.queued = true ∧
          reportTail b s i = report b { s with sending := false, queued := false, flights := [] }) ∨
        (s.queued = false ∧
          reportTail b s i = { s with sending := false, queued := false, flights := [] })) := by
  rcases h.eq_of_get hf with ⟨rfl, hone, _⟩
  refine ⟨hone, ?_⟩
  cases hq : s.queued with
  | true =>
      exact Or.inl ⟨rfl, by simp [reportTail, hone, hq]⟩
  | false =>
      exact Or.inr ⟨rfl, by simp [reportTail, hone, hq]⟩

/-- What `send` does after `currentState()`: return, or put a state it has not just delivered. -/
theorem sendTail_cases {s : World T} (h : OneFlight s) {i g : Nat} {t : T} {r : CurrentState}
    (hf : s.flights[i]? = some (.decided t g r)) :
    s.flights = [.decided t g r] ∧
      ((r = .waiting ∧ sendTail s i t g r = { s with flights := [.sent] }) ∨
        (∃ st, r = .state st ∧ s.last = some (t, st) ∧
          sendTail s i t g r = { s with flights := [.sent] }) ∨
        ∃ st, r = .state st ∧ s.last ≠ some (t, st) ∧
          sendTail s i t g r =
            { s with
              flights := [.putting t g st false]
              lastPut := Function.update s.lastPut t (some st) }) := by
  rcases h.eq_of_get hf with ⟨rfl, hone, _⟩
  refine ⟨hone, ?_⟩
  cases r with
  | waiting =>
      exact Or.inl ⟨rfl, by simp [sendTail, hone]⟩
  | state st =>
      by_cases hl : s.last = some (t, st)
      · exact Or.inr (Or.inl ⟨st, rfl, hl, by simp [sendTail, hone, hl]⟩)
      · exact Or.inr (Or.inr ⟨st, rfl, hl, by simp [sendTail, hone, hl]⟩)

/-! ## A send that `stop()` overtook -/

def Flight.generation? : Flight T → Option Nat
  | .listing _ g => some g
  | .asked _ g _ => some g
  | .decided _ g _ => some g
  | .putting _ g _ _ => some g
  | .sent => none

omit [DecidableEq T] in
theorem sendHead_generation (b : Bool) (s : World T) (t : T) :
    (sendHead b s t).generation? = some s.generation := by
  unfold sendHead
  dsimp only
  split
  · rfl
  · split <;> rfl

/-- While a flight of an older generation is in progress, nothing is recorded. -/
def Overtaken (s : World T) : Prop :=
  ∀ f ∈ s.flights, ∀ g, f.generation? = some g → g ≠ s.generation → s.last = none

omit [DecidableEq T] in
theorem Overtaken.congr {s s' : World T} (h : Overtaken s) (hf : s'.flights = s.flights)
    (hl : s'.last = none ∨ s'.last = s.last ∧ s'.generation = s.generation) : Overtaken s' := by
  intro f hmem g hg hne
  rcases hl with hnone | ⟨hsame, hgen⟩
  · exact hnone
  · rw [hsame]
    exact h f (hf ▸ hmem) g hg (hgen ▸ hne)

omit [DecidableEq T] in
/-- A flight that moves on in its own generation, or ends, keeps `Overtaken`. -/
theorem Overtaken.move {s s' : World T} (h : Overtaken s) {f f' : Flight T}
    (hone : s.flights = [f]) (hf' : s'.flights = [f'])
    (hgen : f'.generation? = f.generation? ∨ f'.generation? = none) (hl : s'.last = s.last)
    (hg : s'.generation = s.generation) : Overtaken s' := by
  intro f'' hmem g hfg hne
  rw [hf', List.mem_singleton] at hmem
  subst hmem
  rcases hgen with hsame | hnone
  · rw [hl]
    exact h f (by simp [hone]) g (hsame ▸ hfg) (hg ▸ hne)
  · rw [hnone] at hfg
    cases hfg

omit [DecidableEq T] in
theorem Overtaken.set {s s' : World T} (h : Overtaken s) (hone : OneFlight s) {i : Nat}
    {f f' : Flight T} (hf : s.flights[i]? = some f) (hf' : s'.flights = s.flights.set i f')
    (hgen : f'.generation? = f.generation? ∨ f'.generation? = none) (hl : s'.last = s.last)
    (hg : s'.generation = s.generation) : Overtaken s' := by
  rcases hone.eq_of_get hf with ⟨rfl, hflights, _⟩
  exact h.move hflights (by simp [hf', hflights]) hgen hl hg

omit [DecidableEq T] in
theorem Overtaken.report {s : World T} (h : Overtaken s) (hone : OneFlight s) (b : Bool) :
    Overtaken (report b s) := by
  rcases report_cases hone b with ⟨_, _, hr⟩ | ⟨f, _, hr⟩ | ⟨t, _, _, _, hr⟩
  · exact hr.symm ▸ h
  · exact hr.symm ▸ h.congr rfl (Or.inr ⟨rfl, rfl⟩)
  · -- a new flight belongs to the current generation
    rw [hr]
    intro f hmem g hg hne
    simp only [List.mem_singleton] at hmem
    rw [hmem, sendHead_generation, Option.some.injEq] at hg
    exact absurd hg.symm hne

omit [DecidableEq T] in
theorem keeps_overtaken_publish (s : World T) (v : Value) (h : OneFlight s ∧ Overtaken s) :
    OneFlight (publish s v) ∧ Overtaken (publish s v) := by
  have hsame := publish_sameReports s v
  exact ⟨h.1.publish v, h.2.congr hsame.flights (Or.inr ⟨hsame.last, hsame.generation⟩)⟩

omit [DecidableEq T] in
theorem Overtaken.start {s : World T} (h : Overtaken s) (hone : OneFlight s) (b : Bool)
    (cached : List Delta) : Overtaken (start b cached s) := by
  have hopen : OneFlight (opened s) ∧ Overtaken (opened s) :=
    ⟨hone.opened, h.congr rfl (Or.inl rfl)⟩
  exact (keeps_start (P := fun s => OneFlight s ∧ Overtaken s) keeps_overtaken_publish
    (fun _ hs => ⟨hs.1.report b, hs.2.report hs.1 b⟩) cached hopen).2

theorem overtaken_step {b : Bool} {s s' : World T} {a : Action T} (h : Overtaken s)
    (hone : OneFlight s) (hs : Step b s a s') : Overtaken s' := by
  cases hs with
  | start cached =>
      exact h.start hone b cached
  -- `stop()` clears `last` as it moves the generation on
  | stop =>
      exact h.congr rfl (Or.inl rfl)
  | report =>
      exact h.report hone b
  | retarget t =>
      refine Overtaken.report ?_ ?_ b
      · exact h.congr rfl (Or.inr ⟨rfl, rfl⟩)
      · exact hone.congr rfl rfl rfl
  | retargetStart t cached =>
      refine Overtaken.start ?_ ?_ b cached
      · exact h.congr rfl (Or.inr ⟨rfl, rfl⟩)
      · exact hone.congr rfl rfl rfl
  | retargetStop t =>
      exact h.congr rfl (Or.inl rfl)
  | delta d _ =>
      have hpub := keeps_publishAll keeps_overtaken_publish (published d) ⟨hone, h⟩
      exact hpub.2.report hpub.1 b
  | tick ms =>
      exact h.congr rfl (Or.inr ⟨rfl, rfl⟩)
  | waitFires _ _ =>
      refine Overtaken.report ?_ ?_ b
      · exact h.congr rfl (Or.inr ⟨rfl, rfl⟩)
      · exact hone.congr rfl rfl rfl
  | resendFires _ _ =>
      refine Overtaken.report ?_ ?_ b
      · exact h.congr rfl (Or.inl rfl)
      · exact hone.congr rfl rfl rfl
  | pluginsList answer hf =>
      exact h.set hone hf rfl (Or.inl rfl) rfl rfl
  | decide hf =>
      exact h.set hone hf rfl (Or.inl rfl) rfl rfl
  | sendTail hf =>
      rcases sendTail_cases hone hf with ⟨hflights, ⟨_, ht⟩ | ⟨st, _, _, ht⟩ | ⟨st, _, _, ht⟩⟩
      · exact ht.symm ▸ h.move hflights rfl (Or.inr rfl) rfl rfl
      · exact ht.symm ▸ h.move hflights rfl (Or.inr rfl) rfl rfl
      · exact ht.symm ▸ h.move hflights rfl (Or.inl rfl) rfl rfl
  | reportTail hf =>
      -- no flight is left, so none is overtaken
      have hidle : ∀ s : World T, Overtaken { s with sending := false, queued := false, flights := [] } := by
        intro s f hmem
        cases hmem
      rcases reportTail_cases hone b hf with ⟨_, ⟨_, ht⟩ | ⟨_, ht⟩⟩
      · exact ht.symm ▸ (hidle s).report (Or.inl ⟨rfl, rfl, rfl⟩) b
      · exact ht.symm ▸ hidle s
  | apply hf =>
      exact h.set hone hf rfl (Or.inl rfl) rfl rfl
  | @resolved i g t st hf =>
      rcases hone.eq_of_get hf with ⟨rfl, hflights, _⟩
      intro f hmem g' hg' _
      -- the put has ended, and the flight has no generation any more
      have hsent : f = .sent := by
        have hrec : (recordPut { s with flights := s.flights.set 0 .sent } t g st).flights =
            [.sent] := by
          unfold recordPut
          split <;> simp [hflights]
        simpa [hrec] using hmem
      rw [hsent] at hg'
      cases hg'
  | rejected hf =>
      exact h.set hone hf rfl (Or.inr rfl) rfl rfl
  | applyLate _ =>
      exact h.congr rfl (Or.inr ⟨rfl, rfl⟩)

end Uplink
end SignalKBackup
