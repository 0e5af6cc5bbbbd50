import Mathlib.Data.List.Basic
import SignalKBackup.Lib.Letters
import SignalKBackup.Webapp.UseApi

/-!
# Retention — a form over a polled value

`RetentionCard` shows the retention policy of the server in four fields, which the user may edit
while the policy is polled.  A poll writes the fields only if they are as the poll before it left
them (`serverSnapshot`); the other fields of the card do the same work for all four at once.

* `sync` is the effect that runs on a new policy, and `onSave` what the submit button does;
* `Drafted` is the invariant, and `reachable_drafted` says that it holds in every run: what the user has
  typed stays, a form nobody has typed into shows the newest policy, and a save sends what the form
  shows.

The four fields are saved together.  One that the user has not touched is sent with the number that
the form last took over, also when the server has named another one since.
-/

namespace SignalKBackup
namespace Webapp

open Lib

/-! ## The form -/

inductive Tier
  | hourly
  | daily
  | weekly
  | startup
  deriving DecidableEq

def Tier.name : Tier → String
  | .hourly => "hourly"
  | .daily => "daily"
  | .weekly => "weekly"
  | .startup => "startup"

/-- The tiers, in the order in which `onSave` reads them. -/
def TIERS : List Tier :=
  [.hourly, .daily, .weekly, .startup]

theorem mem_tiers (k : Tier) : k ∈ TIERS := by
  cases k <;> decide

abbrev RetentionConfig :=
  Tier → ℕ

abbrev RetentionDraft :=
  Tier → List Char

def RetentionDraft.empty : RetentionDraft :=
  fun _ => []

/-- `String(n)` of each number. -/
def canonical (policy : RetentionConfig) : RetentionDraft :=
  fun k => Nat.toDigits 10 (policy k)

/-- All four fields are equal. -/
def sameDraft (a b : RetentionDraft) : Bool :=
  TIERS.all fun k => a k == b k

theorem sameDraft_iff {a b : RetentionDraft} : sameDraft a b = true ↔ a = b := by
  constructor
  · intro h
    funext k
    exact beq_iff_eq.1 (List.all_eq_true.1 h k (mem_tiers k))
  · rintro rfl
    exact List.all_eq_true.2 fun k _ => beq_self_eq_true (a k)

/-- The number in a field, or `none` when `onSave` rejects it. -/
def wholeNumber (text : List Char) : Option ℕ :=
  let raw := trim text
  if raw ≠ [] ∧ raw.all Char.isDigit then
    let v := Nat.ofDigitChars 10 raw 0
    if v < 1 ∨ v > 365 then none else some v
  else none

def parseField (draft : RetentionDraft) (k : Tier) : Except String (Tier × ℕ) :=
  match wholeNumber (draft k) with
  | some v => .ok (k, v)
  | none => .error (k.name ++ " must be a whole number between 1 and 365")

/-- The loop over the fields; it ends at the first one that is wrong. -/
def parse (draft : RetentionDraft) : Except String (List (Tier × ℕ)) :=
  TIERS.mapM (parseField draft)

/-! ## The card -/

/-- A call of `api.setRetention`, and the card when it was made. -/
structure Save where
  parsed : List (Tier × ℕ)
  typed : Tier → Option (List Char)
  followed : Option RetentionConfig
  latest : Option RetentionConfig

structure RetentionCard where
  api : UseApi RetentionConfig := { polls := true }
  busy : Bool := false
  error : Option String := none
  success : Option String := none
  draft : RetentionDraft := .empty
  serverSnapshot : RetentionDraft := .empty
  /-- How many calls of `api.setRetention` are awaited. -/
  saving : ℕ := 0
  /-- The policy that the form last took over; nothing reads it. -/
  followed : Option RetentionConfig := none
  /-- What the user has typed since; nothing reads it. -/
  typed : Tier → Option (List Char) := fun _ => none
  /-- Every call of `api.setRetention`; nothing reads it. -/
  sent : List Save := []
  /-- The run of the hook, and how much it had heard, when a save last succeeded; nothing reads
  it. -/
  lastSave : Option (ℕ × ℕ) := none

inductive CardEvent
  | api (e : ApiEvent RetentionConfig)
  | types (k : Tier) (text : List Char)
  | submits
  /-- A call that `onSave` awaits comes out. -/
  | saves (res : Except String Unit)

namespace RetentionCard

/-- The form is shown, and its fields are enabled. -/
def editable (s : RetentionCard) : Bool :=
  s.api.mounted && s.api.data.isSome && s.api.error.isNone && !s.busy

def dirty (s : RetentionCard) : Bool :=
  s.api.data.any fun policy => !sameDraft (canonical policy) s.draft

/-- The effect on `cfg.data`. -/
def sync (s : RetentionCard) (policy : RetentionConfig) : RetentionCard :=
  let draftIsClean := sameDraft s.draft s.serverSnapshot
  let s := { s with serverSnapshot := canonical policy }
  if draftIsClean then
    { s with draft := canonical policy, followed := some policy, typed := fun _ => none }
  else s

/-- `onSave`, up to its await. -/
def onSave (s : RetentionCard) : RetentionCard :=
  let s := { s with error := none, success := none }
  match parse s.draft with
  | .error message => { s with error := some message }
  | .ok parsed =>
      let save : Save :=
        { parsed, typed := s.typed, followed := s.followed, latest := s.api.data }
      { s with busy := true, saving := s.saving + 1, sent := s.sent ++ [save] }

/-- The rest of `onSave`. -/
def saved (s : RetentionCard) (res : Except String Unit) : RetentionCard :=
  let s := { s with busy := false, saving := s.saving - 1 }
  match res with
  | .ok _ =>
      { s with
        api := (s.api.step .refresh).getD s.api
        lastSave := some (s.api.effect, s.api.heard.length)
        success := some "Retention policy saved" }
  | .error message => { s with error := some message }

def step (s : RetentionCard) : CardEvent → Option RetentionCard
  | .api e =>
      (s.api.step e).map fun api =>
        match s.api.sets e with
        | some policy => { s with api }.sync policy
        | none => { s with api }
  | .types k text =>
      if s.editable then
        some
          { s with
            draft := Function.update s.draft k text
            typed := Function.update s.typed k (some text) }
      else none
  | .submits => if s.editable && s.dirty then some s.onSave else none
  | .saves res => if s.saving = 0 then none else some (s.saved res)

end RetentionCard

/-- The texts of the four fields. -/
def textOf (followed : Option RetentionConfig) (typed : Tier → Option (List Char)) : RetentionDraft :=
  fun k => (typed k).getD ((followed.map canonical).getD .empty k)

/-! ## What a save sends -/

/-- A save sends the form as the user has left it. -/
structure Save.Right (r : Save) : Prop where
  tiers : r.parsed.map Prod.fst = TIERS
  bounds : ∀ p ∈ r.parsed, 1 ≤ p.2 ∧ p.2 ≤ 365
  typed : ∀ p ∈ r.parsed, ∀ text, r.typed p.1 = some text →
    trim text ≠ [] ∧ (trim text).all Char.isDigit ∧ p.2 = Nat.ofDigitChars 10 (trim text) 0
  untouched : ∀ p ∈ r.parsed, r.typed p.1 = none → ∃ policy, r.followed = some policy ∧ p.2 = policy p.1
  changed : ∃ policy, r.latest = some policy ∧ textOf r.followed r.typed ≠ canonical policy

theorem wholeNumber_eq_some {text : List Char} {v : ℕ} (h : wholeNumber text = some v) :
    trim text ≠ [] ∧ (trim text).all Char.isDigit ∧ v = Nat.ofDigitChars 10 (trim text) 0 ∧
      1 ≤ v ∧ v ≤ 365 := by
  simp only [wholeNumber] at h
  split at h
  case isFalse =>
      cases h
  case isTrue hraw =>
      split at h
      case isTrue =>
          cases h
      case isFalse hbounds =>
          cases h
          exact ⟨hraw.1, hraw.2, rfl, by omega, by omega⟩

theorem wholeNumber_toDigits {n v : ℕ} (h : wholeNumber (Nat.toDigits 10 n) = some v) : v = n := by
  have hv := (wholeNumber_eq_some h).2.2.1
  rwa [trim_toDigits, Nat.ofDigitChars_ten_toDigits] at hv

theorem parseField_ok {draft : RetentionDraft} {k : Tier} {p : Tier × ℕ}
    (h : parseField draft k = .ok p) : p.1 = k ∧ wholeNumber (draft k) = some p.2 := by
  simp only [parseField] at h
  split at h
  case h_1 v hv =>
      cases h
      exact ⟨rfl, hv⟩
  case h_2 =>
      cases h

theorem mapM_parseField {draft : RetentionDraft} {tiers : List Tier} {parsed : List (Tier × ℕ)}
    (h : tiers.mapM (parseField draft) = .ok parsed) :
    parsed.map Prod.fst = tiers ∧ ∀ p ∈ parsed, wholeNumber (draft p.1) = some p.2 := by
  induction tiers generalizing parsed with
  | nil =>
      cases h
      exact ⟨rfl, nofun⟩
  | cons k tiers ih =>
      rw [List.mapM_cons] at h
      cases hk : parseField draft k with
      | error message =>
          rw [hk] at h
          cases h
      | ok p =>
          cases hrest : tiers.mapM (parseField draft) with
          | error message =>
              rw [hk, hrest] at h
              cases h
          | ok rest =>
              rw [hk, hrest] at h
              cases h
              rcases parseField_ok hk with ⟨rfl, hvalue⟩
              rcases ih hrest with ⟨hfst, hrest⟩
              refine ⟨by rw [List.map_cons, hfst], fun q hq => ?_⟩
              rcases List.mem_cons.1 hq with rfl | hq
              · exact hvalue
              · exact hrest q hq

/-! ## Every run -/

structure Drafted (s : RetentionCard) : Prop where
  shows : s.api.Shows
  snapshot : s.serverSnapshot = (s.api.data.map canonical).getD .empty
  draft : s.draft = textOf s.followed s.typed
  /-- Without an edit, the form shows the policy heard last. -/
  untouched : (∀ k, s.typed k = none) → s.followed = s.api.data
  followed : ∀ policy, s.followed = some policy → ∃ r ∈ s.api.heard, r.2 = .ok policy
  /-- At most one save is under way, and the form is disabled while it is. -/
  single : s.saving ≤ 1
  busy : s.busy = true ↔ s.saving = 1
  sent : ∀ r ∈ s.sent, r.Right
  /-- What has been heard since a save last succeeded are results of calls made since. -/
  since : ∀ run count, s.lastSave = some (run, count) → s.api.After run count

def retentionCard : Machine RetentionCard CardEvent where
  step := RetentionCard.step

theorem drafted_initial : Drafted {} :=
  ⟨UseApi.shows_initial true, rfl, rfl, fun _ => rfl, nofun, Nat.zero_le 1, by decide, nofun, nofun⟩

/-- The card after the hook has changed. -/
theorem drafted_api {s : RetentionCard} {e : ApiEvent RetentionConfig} {api : UseApi RetentionConfig}
    (h : Drafted s) (hapi : s.api.step e = some api) (hsame : api.data = s.api.data) :
    Drafted { s with api } :=
  { h with
    shows := UseApi.shows_step h.shows hapi
    snapshot := by rw [h.snapshot, hsame]
    untouched := fun htyped => by rw [h.untouched htyped, hsame]
    followed := fun policy hpolicy =>
      let ⟨r, hr, hok⟩ := h.followed policy hpolicy
      ⟨r, UseApi.step_heard hapi hr, hok⟩
    since := fun run count hlast => UseApi.after_step (h.since run count hlast) hapi }

theorem drafted_sync {s : RetentionCard} {e : ApiEvent RetentionConfig} {api : UseApi RetentionConfig}
    {policy : RetentionConfig} (h : Drafted s) (hapi : s.api.step e = some api)
    (hdata : api.data = some policy) : Drafted (RetentionCard.sync { s with api } policy) := by
  have hshows := UseApi.shows_step h.shows hapi
  have hsnapshot : canonical policy = (api.data.map canonical).getD .empty := by
    rw [hdata]
    rfl
  have hsince : ∀ run count, s.lastSave = some (run, count) → api.After run count :=
    fun run count hlast => UseApi.after_step (h.since run count hlast) hapi
  simp only [RetentionCard.sync]
  split
  case isTrue =>
      refine ⟨hshows, hsnapshot, rfl, fun _ => hdata.symm, ?_, h.single, h.busy, h.sent, hsince⟩
      intro policy' hpolicy
      cases hpolicy
      exact hshows.data_heard hdata
  case isFalse hedited =>
      refine ⟨hshows, hsnapshot, h.draft, fun htyped => ?_, ?_, h.single, h.busy, h.sent, hsince⟩
      · -- An untouched form is clean.
        have hclean : s.draft = s.serverSnapshot := by
          rw [h.draft, h.snapshot, ← h.untouched htyped]
          funext k
          rw [textOf, htyped k]
          rfl
        exact absurd (sameDraft_iff.2 hclean) hedited
      · intro policy' hpolicy
        rcases h.followed policy' hpolicy with ⟨r, hr, hok⟩
        exact ⟨r, UseApi.step_heard hapi hr, hok⟩

theorem textOf_update (followed : Option RetentionConfig) (typed : Tier → Option (List Char))
    (k : Tier) (text : List Char) :
    Function.update (textOf followed typed) k text =
      textOf followed (Function.update typed k (some text)) := by
  funext j
  by_cases hj : j = k
  · subst hj
    simp [textOf]
  · simp [textOf, hj]

theorem drafted_types {s : RetentionCard} (h : Drafted s) (k : Tier) (text : List Char) :
    Drafted
      { s with
        draft := Function.update s.draft k text
        typed := Function.update s.typed k (some text) } :=
  { h with
    draft := by rw [h.draft, textOf_update]
    untouched := fun htyped => by
      have hk : Function.update s.typed k (some text) k = none := htyped k
      rw [Function.update_self] at hk
      cases hk }

/-- What a save sends, when the form has been read. -/
theorem right_save {s : RetentionCard} {parsed : List (Tier × ℕ)} (h : Drafted s)
    (hdirty : s.dirty = true) (hparse : parse s.draft = .ok parsed) :
    Save.Right { parsed, typed := s.typed, followed := s.followed, latest := s.api.data } := by
  rcases mapM_parseField hparse with ⟨htiers, hvalues⟩
  have hread : ∀ p ∈ parsed, wholeNumber (textOf s.followed s.typed p.1) = some p.2 := fun p hp =>
    h.draft ▸ hvalues p hp
  refine ⟨htiers, fun p hp => ?_, fun p hp text (htext : s.typed p.1 = _) => ?_,
    fun p hp (htyped : s.typed p.1 = _) => ?_, ?_⟩
  · exact (wholeNumber_eq_some (hread p hp)).2.2.2
  · have hnumber := hread p hp
    rw [textOf, htext] at hnumber
    rcases wholeNumber_eq_some hnumber with ⟨hne, hdigits, hvalue, _⟩
    exact ⟨hne, hdigits, hvalue⟩
  · have hnumber := hread p hp
    rw [textOf, htyped] at hnumber
    cases hfollowed : s.followed with
    | none =>
        rw [hfollowed] at hnumber
        cases hnumber
    | some policy =>
        rw [hfollowed] at hnumber
        exact ⟨policy, rfl, wholeNumber_toDigits hnumber⟩
  · rcases (Option.any_eq_true _ _).1 hdirty with ⟨policy, hdata, hdiffers⟩
    refine ⟨policy, hdata, fun heq => ?_⟩
    rw [h.draft, heq, sameDraft_iff.2 rfl] at hdiffers
    cases hdiffers

/-- No call is awaited while the form can be submitted. -/
theorem Drafted.idle {s : RetentionCard} (h : Drafted s) (heditable : s.editable = true) :
    s.saving = 0 := by
  have hbusy : s.busy ≠ true := by
    intro hyes
    simp [RetentionCard.editable, hyes] at heditable
  have hne : s.saving ≠ 1 := fun hone => hbusy (h.busy.2 hone)
  have hsingle := h.single
  omega

theorem drafted_onSave {s : RetentionCard} (h : Drafted s) (heditable : s.editable = true)
    (hdirty : s.dirty = true) : Drafted s.onSave := by
  have hidle := h.idle heditable
  simp only [RetentionCard.onSave]
  split
  case h_1 =>
      exact { h with }
  case h_2 parsed hparse =>
      refine { h with single := ?_, busy := ?_, sent := fun r hr => ?_ }
      · simp [hidle]
      · simp [hidle]
      · rcases List.mem_append.1 hr with hold | hnew
        · exact h.sent r hold
        · cases List.mem_singleton.1 hnew
          exact right_save h hdirty hparse

theorem drafted_saved {s : RetentionCard} (h : Drafted s) (res : Except String Unit) :
    Drafted (s.saved res) := by
  have hsingle : s.saving - 1 ≤ 1 := Nat.le_trans (Nat.sub_le _ _) h.single
  have hbusy : false = true ↔ s.saving - 1 = 1 := by
    have hone := h.single
    exact ⟨nofun, fun htwo => by omega⟩
  cases res with
  | error message =>
      exact { h with single := hsingle, busy := hbusy }
  | ok _ =>
      have hafter := UseApi.after_refresh s.api
      cases hrefresh : s.api.step .refresh with
      | none =>
          rw [hrefresh] at hafter
          simp only [RetentionCard.saved, hrefresh, Option.getD_none]
          refine { h with single := hsingle, busy := hbusy, since := fun run count hlast => ?_ }
          cases hlast
          exact hafter
      | some api =>
          rw [hrefresh] at hafter
          have hsame : api.data = s.api.data := UseApi.step_data hrefresh
          simp only [RetentionCard.saved, hrefresh, Option.getD_some]
          refine { drafted_api h hrefresh hsame with
            single := hsingle, busy := hbusy, since := fun run count hlast => ?_ }
          cases hlast
          exact hafter

theorem drafted_step {s s' : RetentionCard} {e : CardEvent} (h : Drafted s)
    (hs : retentionCard.step s e = some s') : Drafted s' := by
  cases e with
  | api e =>
      rcases Option.map_eq_some_iff.1 hs with ⟨api, hapi, rfl⟩
      have hdata := UseApi.step_data hapi
      cases hsets : s.api.sets e with
      | none =>
          rw [hsets] at hdata
          exact drafted_api h hapi hdata
      | some policy =>
          rw [hsets] at hdata
          exact drafted_sync h hapi hdata
  | types k text =>
      rcases Option.ite_some_none_eq_some.1 hs with ⟨_, rfl⟩
      exact drafted_types h k text
  | submits =>
      rcases Option.ite_some_none_eq_some.1 hs with ⟨hcond, rfl⟩
      rcases Bool.and_eq_true_iff.1 hcond with ⟨heditable, hdirty⟩
      exact drafted_onSave h heditable hdirty
  | saves res =>
      rcases Option.ite_none_left_eq_some.1 hs with ⟨_, hs⟩
      cases hs
      exact drafted_saved h res

theorem reachable_drafted {s : RetentionCard} (h : retentionCard.Reachable (fun s => s = {}) s) :
    Drafted s := by
  refine h.invariant ?_ fun _ _ _ hdrafted _ hstep => drafted_step hdrafted hstep
  rintro _ rfl
  exact drafted_initial

/-! ## Two tabs -/

def policyOf (hourly daily weekly startup : ℕ) : RetentionConfig
  | .hourly => hourly
  | .daily => daily
  | .weekly => weekly
  | .startup => startup

/-- While the user edits one field, another is changed from elsewhere; a poll is under way when the
save comes out. -/
def edits : List CardEvent :=
  [.api (.settles 0 (.ok (policyOf 24 7 4 2))), .types .hourly ['4', '8'], .api .fires,
    .api (.settles 0 (.ok (policyOf 24 30 4 2))), .submits, .api .fires, .saves (.ok ()),
    .api (.settles 0 (.ok (policyOf 24 30 4 2)))]

theorem reachable_drafted_elsewhere : ∃ s,
    retentionCard.run {} edits = some s ∧
      s.sent.map Save.parsed = [[(.hourly, 48), (.daily, 7), (.weekly, 4), (.startup, 2)]] ∧
        s.lastSave = some (0, 2) ∧ s.api.heard.length = 2 ∧ Drafted s := by
  obtain ⟨s, hs, hsent, hlast, hheard⟩ : ∃ s, retentionCard.run {} edits = some s ∧
      s.sent.map Save.parsed = [[(.hourly, 48), (.daily, 7), (.weekly, 4), (.startup, 2)]] ∧
        s.lastSave = some (0, 2) ∧ s.api.heard.length = 2 :=
    ⟨_, rfl, by decide, by decide, by decide⟩
  exact ⟨s, hs, hsent, hlast, hheard, reachable_drafted (Machine.Reachable.run (.init rfl) hs)⟩

end Webapp
end SignalKBackup
