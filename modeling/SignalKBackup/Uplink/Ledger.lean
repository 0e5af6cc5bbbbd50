import SignalKBackup.Uplink.SingleFlight

/-!
# Ledger — what `last` promises about a record of the puts

The reporter skips a send when `last` already names the target and the state.  What that skip is
worth depends on what `last` says about the outside: about the state last put to the target, or
about the state the target has stored.  Both are the same invariant over a record `R` of one state
for each target and a choice of the puts in flight that have already entered the record.

`ledger_step` names the four kinds of step that can change a record (a put is sent, applied,
rejected, or applied late); every other step keeps the ledger of any record.
-/

namespace SignalKBackup
namespace Uplink

variable {T : Type}

/-- `R` agrees with the puts in flight that count, and with `last` about every other target. -/
structure Ledger (counts : Bool → Bool) (R : T → Option UplinkState) (s : World T) : Prop where
  put : ∀ t g st a, counts a = true → Flight.putting t g st a ∈ s.flights → R t = some st
  last : ∀ t st, s.last = some (t, st) →
    (∀ g st' a, counts a = true → Flight.putting t g st' a ∉ s.flights) → R t = some st

variable {counts : Bool → Bool} {R : T → Option UplinkState}

theorem Ledger.congr {s s' : World T} (h : Ledger counts R s) (hf : s'.flights = s.flights)
    (hl : s'.last = none ∨ s'.last = s.last) : Ledger counts R s' := by
  constructor
  · intro t g st a hc hmem
    exact h.put t g st a hc (hf ▸ hmem)
  · intro t st hlast hidle
    -- a cleared `last` promises nothing
    rcases hl with hnone | hsame
    · rw [hnone] at hlast
      cases hlast
    · exact h.last t st (hsame ▸ hlast) (hf ▸ hidle)

/-- No put before and none after: only `last` counts. -/
theorem Ledger.quiet {s s' : World T} (h : Ledger counts R s)
    (hf : ∀ f ∈ s.flights, f.isPutting = false) (hf' : ∀ f ∈ s'.flights, f.isPutting = false)
    (hl : s'.last = s.last) : Ledger counts R s' := by
  constructor
  · intro t g st a _ hmem
    cases hf' _ hmem
  · intro t st hlast _
    refine h.last t st (hl ▸ hlast) ?_
    intro g st' a _ hmem
    cases hf _ hmem

theorem sendHead_isPutting (b : Bool) (s : World T) (t : T) :
    (sendHead b s t).isPutting = false := by
  unfold sendHead
  dsimp only
  split
  · rfl
  · split <;> rfl

theorem Ledger.report {s : World T} (h : Ledger counts R s) (hone : OneFlight s) (b : Bool) :
    Ledger counts R (report b s) := by
  rcases report_cases hone b with ⟨_, _, hr⟩ | ⟨f, _, hr⟩ | ⟨t, hnil, _, _, hr⟩
  · exact hr.symm ▸ h
  · exact hr.symm ▸ h.congr rfl (Or.inr rfl)
  · have hhead := sendHead_isPutting b s t
    exact hr.symm ▸ h.quiet (by simp [hnil]) (by simpa using hhead) rfl

theorem keeps_ledger_publish (s : World T) (v : Value) (h : OneFlight s ∧ Ledger counts R s) :
    OneFlight (publish s v) ∧ Ledger counts R (publish s v) := by
  have hsame := publish_sameReports s v
  exact ⟨h.1.publish v, h.2.congr hsame.flights (Or.inr hsame.last)⟩

theorem Ledger.onDelta {s : World T} (h : Ledger counts R s) (hone : OneFlight s) (b : Bool)
    (d : Delta) : Ledger counts R (onDelta b s d) := by
  have hpub := keeps_publishAll keeps_ledger_publish (published d) ⟨hone, h⟩
  exact hpub.2.report hpub.1 b

theorem Ledger.start {s : World T} (h : Ledger counts R s) (hone : OneFlight s) (b : Bool)
    (cached : List Delta) : Ledger counts R (start b cached s) := by
  have hopen : OneFlight (opened s) ∧ Ledger counts R (opened s) :=
    ⟨hone.opened, h.congr rfl (Or.inl rfl)⟩
  exact (keeps_start (P := fun s => OneFlight s ∧ Ledger counts R s) keeps_ledger_publish
    (fun _ hs => ⟨hs.1.report b, hs.2.report hs.1 b⟩) cached hopen).2

theorem Ledger.set {s s' : World T} (h : Ledger counts R s) (hone : OneFlight s) {i : Nat}
    {f f' : Flight T} (hf : s.flights[i]? = some f) (hf' : s'.flights = s.flights.set i f')
    (hput : f.isPutting = false) (hput' : f'.isPutting = false) (hl : s'.last = s.last) :
    Ledger counts R s' := by
  rcases hone.eq_of_get hf with ⟨rfl, hflights, _⟩
  exact h.quiet (by simpa [hflights] using hput) (by simpa [hf', hflights] using hput') hl

theorem Ledger.reportTail {s : World T} (h : Ledger counts R s) (hone : OneFlight s) (b : Bool)
    {i : Nat} (hf : s.flights[i]? = some .sent) : Ledger counts R (reportTail b s i) := by
  rcases reportTail_cases hone b hf with ⟨hflights, htail⟩
  have hidle : Ledger counts R { s with sending := false, queued := false, flights := [] } :=
    h.quiet (by simp [hflights, Flight.isPutting]) (by simp) rfl
  rcases htail with ⟨_, ht⟩ | ⟨_, ht⟩
  · exact ht.symm ▸ hidle.report (Or.inl ⟨rfl, rfl, rfl⟩) b
  · exact ht.symm ▸ hidle

/-- A resolved put is recorded as it was sent, unless `stop()` overtook it; then `last` is empty. -/
theorem Ledger.resolved {s : World T} (h : Ledger counts R s) (hover : Overtaken s) {g : Nat}
    {t : T} {st : UplinkState} (hc : counts true = true)
    (hflights : s.flights = [.putting t g st true]) :
    Ledger counts R (recordPut { s with flights := [.sent] } t g st) := by
  -- the put counted while it was in flight
  have hR : R t = some st := h.put t g st true hc (by simp [hflights])
  by_cases hg : g = s.generation
  · have hrec : recordPut { s with flights := [.sent] } t g st =
        { s with flights := [.sent], last := some (t, st) } := by simp [recordPut, hg]
    rw [hrec]
    constructor
    · simp
    · intro t' st' hlast _
      simp only [Option.some.injEq, Prod.mk.injEq] at hlast
      rcases hlast with ⟨rfl, rfl⟩
      exact hR
  · -- `stop()` came in between, so the put leaves no record
    have hnone : s.last = none := hover (.putting t g st true) (by simp [hflights]) g rfl hg
    have hrec : recordPut { s with flights := [.sent] } t g st =
        { s with flights := [.sent] } := by simp [recordPut, hg]
    rw [hrec]
    constructor
    · simp
    · intro t' st' hlast _
      simp [hnone] at hlast

theorem report_lastPut (b : Bool) (s : World T) : (report b s).lastPut = s.lastPut := by
  unfold report
  split
  · rfl
  · split <;> rfl

theorem report_stored (b : Bool) (s : World T) : (report b s).stored = s.stored := by
  unfold report
  split
  · rfl
  · split <;> rfl

theorem reportTail_lastPut_stored (b : Bool) (s : World T) (i : Nat) :
    (reportTail b s i).lastPut = s.lastPut ∧ (reportTail b s i).stored = s.stored := by
  unfold reportTail
  dsimp only
  split
  · exact ⟨report_lastPut _ _, report_stored _ _⟩
  · exact ⟨rfl, rfl⟩

theorem onDelta_lastPut_stored (b : Bool) (s : World T) (d : Delta) :
    (onDelta b s d).lastPut = s.lastPut ∧ (onDelta b s d).stored = s.stored := by
  have hpub := keeps_publishAll (P := fun s' => s'.lastPut = s.lastPut ∧ s'.stored = s.stored)
    (fun s' v h => by
      have hsame := publish_sameReports s' v
      exact ⟨hsame.lastPut.trans h.1, hsame.stored.trans h.2⟩) (published d) ⟨rfl, rfl⟩
  exact ⟨(report_lastPut b _).trans hpub.1, (report_stored b _).trans hpub.2⟩

theorem start_lastPut_stored (b : Bool) (s : World T) (cached : List Delta) :
    (start b cached s).lastPut = s.lastPut ∧ (start b cached s).stored = s.stored := by
  refine keeps_start (P := fun s' => s'.lastPut = s.lastPut ∧ s'.stored = s.stored) ?_ ?_ cached
    ⟨rfl, rfl⟩
  · intro s' v h
    have hsame := publish_sameReports s' v
    exact ⟨hsame.lastPut.trans h.1, hsame.stored.trans h.2⟩
  · intro s' h
    exact ⟨(report_lastPut b s').trans h.1, (report_stored b s').trans h.2⟩

variable [DecidableEq T]

/-- A step keeps the ledger of every record and changes no record itself, or it sends a put,
applies one, rejects one, or applies a rejected one. -/
theorem ledger_step {b : Bool} {s s' : World T} {a : Action T} (hc : counts true = true)
    (h : Ledger counts R s) (hone : OneFlight s) (hover : Overtaken s) (hs : Step b s a s') :
    (Ledger counts R s' ∧ s'.lastPut = s.lastPut ∧ s'.stored = s.stored) ∨
      (∃ t g st, s.flights = [.decided t g (.state st)] ∧ s.last ≠ some (t, st) ∧
        s' = { s with
          flights := [.putting t g st false]
          lastPut := Function.update s.lastPut t (some st) }) ∨
      (∃ t g st, a = .apply 0 ∧ s.flights = [.putting t g st false] ∧
        s' = { s with
          flights := [.putting t g st true]
          stored := Function.update s.stored t (some st) }) ∨
      (∃ t g st applied, a = .settle 0 false ∧ s.flights = [.putting t g st applied] ∧
        s' = { s with
          flights := [.sent]
          abandoned := if applied then s.abandoned else s.abandoned ++ [(t, st)] }) ∨
      ∃ i t st, a = .applyLate i ∧ s.abandoned[i]? = some (t, st) ∧
        s' = { s with
          abandoned := s.abandoned.eraseIdx i
          stored := Function.update s.stored t (some st) } := by
  cases hs with
  | start cached =>
      exact Or.inl ⟨h.start hone b cached, start_lastPut_stored b s cached⟩
  | stop =>
      exact Or.inl ⟨h.congr rfl (Or.inl rfl), rfl, rfl⟩
  | report =>
      exact Or.inl ⟨h.report hone b, report_lastPut b s, report_stored b s⟩
  | retarget t =>
      refine Or.inl ⟨Ledger.report ?_ ?_ b, report_lastPut b _, report_stored b _⟩
      · exact h.congr rfl (Or.inr rfl)
      · exact hone.congr rfl rfl rfl
  | retargetStart t cached =>
      refine Or.inl ⟨Ledger.start ?_ ?_ b cached, start_lastPut_stored b _ cached⟩
      · exact h.congr rfl (Or.inr rfl)
      · exact hone.congr rfl rfl rfl
  | retargetStop t =>
      exact Or.inl ⟨h.congr rfl (Or.inl rfl), rfl, rfl⟩
  | delta d _ =>
      exact Or.inl ⟨h.onDelta hone b d, onDelta_lastPut_stored b s d⟩
  | tick ms =>
      exact Or.inl ⟨h.congr rfl (Or.inr rfl), rfl, rfl⟩
  | waitFires _ _ =>
      refine Or.inl ⟨Ledger.report ?_ ?_ b, report_lastPut b _, report_stored b _⟩
      · exact h.congr rfl (Or.inr rfl)
      · exact hone.congr rfl rfl rfl
  | resendFires _ _ =>
      refine Or.inl ⟨Ledger.report ?_ ?_ b, report_lastPut b _, report_stored b _⟩
      · exact h.congr rfl (Or.inl rfl)
      · exact hone.congr rfl rfl rfl
  | pluginsList answer hf =>
      exact Or.inl ⟨h.set hone hf rfl rfl rfl rfl, rfl, rfl⟩
  | decide hf =>
      exact Or.inl ⟨h.set hone hf rfl rfl rfl rfl, rfl, rfl⟩
  | @sendTail i g t r hf =>
      rcases sendTail_cases hone hf with ⟨hflights, ⟨_, ht⟩ | ⟨st, _, _, ht⟩ | ⟨st, rfl, hne, ht⟩⟩
      · rw [ht]
        exact Or.inl ⟨h.quiet (by simp [hflights, Flight.isPutting])
          (by simp [Flight.isPutting]) rfl, rfl, rfl⟩
      · rw [ht]
        exact Or.inl ⟨h.quiet (by simp [hflights, Flight.isPutting])
          (by simp [Flight.isPutting]) rfl, rfl, rfl⟩
      · -- the one branch of `send` that puts
        exact Or.inr (Or.inl ⟨t, g, st, hflights, hne, ht⟩)
  | reportTail hf =>
      exact Or.inl ⟨h.reportTail hone b hf, reportTail_lastPut_stored b s _⟩
  | @apply i g t st hf =>
      rcases hone.eq_of_get hf with ⟨rfl, hflights, _⟩
      exact Or.inr (Or.inr (Or.inl ⟨t, g, st, rfl, hflights, by simp [hflights]⟩))
  -- a resolved put enters `last` and was counted before
  | @resolved i g t st hf =>
      rcases hone.eq_of_get hf with ⟨rfl, hflights, _⟩
      have hres := h.resolved hover hc hflights
      refine Or.inl ⟨by simpa [hflights] using hres, ?_, ?_⟩
      · unfold recordPut
        split <;> rfl
      · unfold recordPut
        split <;> rfl
  | @rejected i g t st applied hf =>
      rcases hone.eq_of_get hf with ⟨rfl, hflights, _⟩
      exact Or.inr (Or.inr (Or.inr (Or.inl ⟨t, g, st, applied, rfl, hflights, by simp [hflights]⟩)))
  | @applyLate i t st hf =>
      exact Or.inr (Or.inr (Or.inr (Or.inr ⟨i, t, st, rfl, hf, rfl⟩)))

end Uplink
end SignalKBackup
