import SignalKBackup.Lib.Json
import SignalKBackup.Restore.SingleFlight
import SignalKBackup.Webapp.HostPath

/-!
# RestoreModal — the dialog that starts a partial restore

`PartialRestoreModal` with the calls it makes: `api.restorePartial` for the original location and
`api.restorePartialHost` for a custom path.  A 409 `TARGET_EXISTS` becomes the conflict that the
dialog shows, beside the button that submits once more with `confirmOverwrite`.

* a `Dialog` is the state of the dialog, changed by the `Control`s that are not disabled and by the
  outcome of the call it awaits;
* `alert` is what it says of a conflict, whose target it passes through `toHostPath`;
* `use_cases` says what a control does, and `settled_call` that no outcome changes what the dialog
  would submit next.
-/

namespace SignalKBackup
namespace Webapp

open Lib
open Restore (HostRestoreRequest Answer)

/-! ## Answers of the API -/

/-- A response, its body as JSON and as text. -/
structure Response where
  status : ℕ
  /-- What `res.json()` gives, or the message it rejects with. -/
  json : Except String Json
  text : String := ""

/-- How `api.restorePartial` and `api.restorePartialHost` come out. -/
inductive Outcome
  | started
  /-- `PartialRestoreConflictError` -/
  | conflict (message : String) (conflict : Json)
  | failed (message : String)

/-- What both do with the response, under the name they put into their messages. -/
def outcome (name : String) (res : Response) : Outcome :=
  if res.status = 409 then
    let body := res.json.toOption
    let conflict := Json.get "conflict" (Json.get "data" body)
    let code := Json.get "code" (Json.get "error" body)
    let message := Json.get "message" (Json.get "error" body)
    match code, conflict with
    | some (.string "TARGET_EXISTS"), some conflict =>
        if Json.truthy (some conflict) then
          .conflict (Json.textOr "Target already exists" message) conflict
        else .failed (name ++ " → 409 [TARGET_EXISTS]: " ++ Json.textOr "conflict" message)
    | _, _ =>
        let shown := if Json.truthy code then " [" ++ Json.textOr "" code ++ "]" else ""
        .failed (name ++ " → 409" ++ shown ++ ": " ++ Json.textOr "conflict" message)
  else if res.status < 200 ∨ 299 < res.status then
    .failed (name ++ " → " ++ toString res.status ++ ": " ++ String.ofList (res.text.toList.take 200))
  else
    match res.json with
    | .error message => .failed message
    | .ok .null => .failed "Cannot read properties of null (reading 'success')"
    | .ok body =>
        match Json.get "success" (some body) with
        | some (.bool false) =>
            .failed (name ++ ": " ++
              Json.textOr "unknown error" (Json.get "message" (Json.get "error" (some body))))
        | _ => .started

/-! ## The dialog -/

inductive TargetMode
  | original
  | custom
  deriving DecidableEq

/-- What the dialog is opened for. -/
structure RestoreProps where
  backupId : String
  sourcePath : List Char
  isDir : Bool

structure PartialRestoreInput where
  sourcePath : List Char
  targetMode : TargetMode
  customPath : Option (List Char)
  confirmOverwrite : Bool

inductive Call
  | restorePartial (id : String) (input : PartialRestoreInput)
  | restorePartialHost (input : HostRestoreRequest)

def Call.name : Call → String
  | .restorePartial _ _ => "restore-partial"
  | .restorePartialHost _ => "restore-partial-host"

structure Dialog where
  mode : TargetMode := .original
  customPath : List Char := []
  submitting : Bool := false
  error : Option String := none
  conflict : Option Json := none
  /-- The call that `submit` awaits. -/
  awaits : Option Call := none
  isOpen : Bool := true

/-- What the alert beside "Overwrite" says of the entry; no size or mtime reads "unknown". -/
structure Alert where
  target : Option (List Char)
  size : Option Json
  mtime : Option Json

/-- The alert of a conflict; a target that is no string shows no path. -/
def alert (conflict : Json) (pathMapping : Option PathMapping) : Alert where
  target :=
    match Json.get "targetPath" (some conflict) with
    | some (.string path) => toHostPath (some path.toList) pathMapping
    | _ => none
  size :=
    match Json.get "size" (some conflict) with
    | some .null => none
    | size => size
  mtime :=
    let mtime := Json.get "mtime" (some conflict)
    if Json.truthy mtime then mtime else none

inductive Control
  /-- The radio button of a mode that is not chosen. -/
  | choose (mode : TargetMode)
  | type (customPath : List Char)
  /-- "Restore" -/
  | restore
  /-- "Overwrite", beside the conflict. -/
  | overwrite
  /-- "Cancel", beside the conflict. -/
  | dismiss
  /-- "Cancel" of the dialog. -/
  | cancel

namespace Dialog

variable (props : RestoreProps)

def buildInput (d : Dialog) (confirmOverwrite : Bool) : PartialRestoreInput where
  sourcePath := props.sourcePath
  targetMode := d.mode
  customPath := if d.mode = .custom then some (trim d.customPath) else none
  confirmOverwrite := confirmOverwrite

/-- The call of `submit(confirmOverwrite)`. -/
def call (d : Dialog) (confirmOverwrite : Bool) : Call :=
  if d.mode = .custom then
    .restorePartialHost
      { backupId := props.backupId
        sourcePath := props.sourcePath
        customPath := trim d.customPath
        isDir := props.isDir
        confirmOverwrite := confirmOverwrite }
  else .restorePartial props.backupId (d.buildInput props confirmOverwrite)

/-- `submit`, up to its await. -/
def submit (d : Dialog) (confirmOverwrite : Bool) : Dialog :=
  { d with submitting := true, error := none, awaits := some (d.call props confirmOverwrite) }

def disableSubmit (d : Dialog) : Bool :=
  d.submitting || (d.mode == .custom && (trim d.customPath).isEmpty)

/-- A control is used; `none` when it is disabled or not there. -/
def use (d : Dialog) (control : Control) : Option Dialog :=
  if !d.isOpen then none
  else
    match control with
    | .choose mode =>
        if d.submitting || mode = d.mode then none else some { d with mode, conflict := none }
    | .type customPath =>
        if d.submitting || d.mode ≠ .custom then none else some { d with customPath, conflict := none }
    | .restore =>
        if d.disableSubmit || d.conflict.isSome then none else some (d.submit props false)
    | .overwrite =>
        if d.submitting || d.conflict.isNone then none else some (d.submit props true)
    | .dismiss =>
        if d.submitting || d.conflict.isNone then none else some { d with conflict := none }
    | .cancel => if d.submitting then none else some { d with isOpen := false }

/-- The awaited call comes out. -/
def settled (d : Dialog) (result : Outcome) : Dialog :=
  let d := { d with awaits := none, submitting := false }
  match result with
  -- the parent takes the dialog away
  | .started => { d with isOpen := false }
  | .conflict _ conflict => { d with conflict := some conflict }
  | .failed message => { d with error := some message }

variable {props} {d d' : Dialog}

/-- What a control does: edits drop the conflict, and only "Overwrite" submits in spite of one. -/
theorem use_cases {control : Control} (h : d.use props control = some d') :
    d.submitting = false ∧
      ((d'.conflict = none ∧ d'.awaits = d.awaits ∧ d'.submitting = false) ∨
        (control = .restore ∧ d.conflict = none ∧ d' = d.submit props false) ∨
          (control = .overwrite ∧ (∃ c, d.conflict = some c) ∧ d' = d.submit props true) ∨
            d' = { d with isOpen := false }) := by
  unfold use at h
  split at h
  case isTrue =>
      cases h
  case isFalse =>
      cases control with
      | choose mode =>
          simp only [Option.ite_none_left_eq_some, Bool.or_eq_true, decide_eq_true_eq, not_or,
            Bool.not_eq_true] at h
          rcases h with ⟨⟨hsubmitting, _⟩, hd⟩
          cases hd
          exact ⟨hsubmitting, Or.inl ⟨rfl, rfl, hsubmitting⟩⟩
      | type customPath =>
          simp only [Option.ite_none_left_eq_some, Bool.or_eq_true, decide_eq_true_eq, not_or,
            Bool.not_eq_true] at h
          rcases h with ⟨⟨hsubmitting, _⟩, hd⟩
          cases hd
          exact ⟨hsubmitting, Or.inl ⟨rfl, rfl, hsubmitting⟩⟩
      | restore =>
          simp only [Option.ite_none_left_eq_some, disableSubmit, Bool.or_eq_true, not_or,
            Bool.not_eq_true, Option.isSome_eq_false_iff, Option.isNone_iff_eq_none] at h
          rcases h with ⟨⟨⟨hsubmitting, _⟩, hconflict⟩, hd⟩
          cases hd
          exact ⟨hsubmitting, Or.inr (Or.inl ⟨rfl, hconflict, rfl⟩)⟩
      | overwrite =>
          simp only [Option.ite_none_left_eq_some, Bool.or_eq_true, not_or, Bool.not_eq_true,
            Option.isNone_eq_false_iff, Option.isSome_iff_exists] at h
          rcases h with ⟨⟨hsubmitting, hconflict⟩, hd⟩
          cases hd
          exact ⟨hsubmitting, Or.inr (Or.inr (Or.inl ⟨rfl, hconflict, rfl⟩))⟩
      | dismiss =>
          simp only [Option.ite_none_left_eq_some, Bool.or_eq_true, not_or, Bool.not_eq_true] at h
          rcases h with ⟨⟨hsubmitting, _⟩, hd⟩
          cases hd
          exact ⟨hsubmitting, Or.inl ⟨rfl, rfl, hsubmitting⟩⟩
      | cancel =>
          simp only [Option.ite_none_left_eq_some, Bool.not_eq_true] at h
          rcases h with ⟨hsubmitting, hd⟩
          cases hd
          exact ⟨hsubmitting, Or.inr (Or.inr (Or.inr rfl))⟩

/-- No outcome changes what the dialog would submit next. -/
theorem settled_call (result : Outcome) (confirmOverwrite : Bool) :
    (d.settled result).call props confirmOverwrite = d.call props confirmOverwrite := by
  cases result <;> rfl

theorem settled_awaits (result : Outcome) :
    (d.settled result).awaits = none ∧ (d.settled result).submitting = false := by
  cases result <;> exact ⟨rfl, rfl⟩

theorem settled_conflict {result : Outcome} {c : Json} (h : (d.settled result).conflict = some c) :
    (∃ message, result = .conflict message c) ∨ d.conflict = some c := by
  cases result with
  | conflict message c' =>
      cases h
      exact Or.inl ⟨message, rfl⟩
  | _ =>
      exact Or.inr h

end Dialog

end Webapp
end SignalKBackup
