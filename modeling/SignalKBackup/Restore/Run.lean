import SignalKBackup.Restore.Target

/-!
# Run — `runRestore`, one await after the other

A `Run` stands at an await; a `Settle` says how the awaited operation came out, and the step
applies its effect on the files and goes on to the next await.  An operation that fails may have
got part of the way: a removal keeps some entries, `mkdir` makes some of the directories, a write
leaves any bytes.  The entries of the archive arrive one by one, in any number.

The field `start` keeps the files as they were when the run began, and `scrubbed` whether the
clean-up removal succeeded; nothing reads them.
-/

namespace SignalKBackup
namespace Restore

open Lib
open Posix

/-- `HostRestoreStatus['state']` -/
inductive RunState
  | idle
  | preparing
  | streaming
  | extracting
  | completed
  | failed
  | rollingBack
  | rolledBack
  deriving DecidableEq, Repr

/-- The states that hold the single-flight slot. -/
def RunState.isRunning : RunState → Bool
  | .preparing => true
  | .streaming => true
  | .extracting => true
  | .rollingBack => true
  | _ => false

structure HostRestoreStatus where
  state : RunState
  progress : Nat
  statusMessage : String
  error : Option String := none
  backupId : Option String := none
  sourcePath : Option (List Char) := none
  targetPath : Option (List Char) := none
  deriving DecidableEq

structure HostRestoreRequest where
  backupId : String
  sourcePath : List Char
  customPath : List Char
  isDir : Bool
  confirmOverwrite : Bool
  deriving DecidableEq

/-- What a run is given: its request, and the clock and the directory its paths were resolved at. -/
structure RestoreContext where
  request : HostRestoreRequest
  stamp : Stamp
  cwd : List Char

namespace RestoreContext

def target (ctx : RestoreContext) : ResolvedHostTarget :=
  resolveHostTarget ctx.cwd ctx.stamp ctx.request.customPath ctx.request.isDir ctx.request.sourcePath

/-- Where the target is on disk. -/
def targetAt (ctx : RestoreContext) : List Seg :=
  locate ctx.target.absoluteTarget

/-- Where the stash is on disk. -/
def safetyAt (ctx : RestoreContext) : List Seg :=
  locate ctx.target.safetyPath

end RestoreContext

/-- The await a run stands at. -/
inductive Await
  | stat
  | stash
  | fetch
  | errorText (status : Nat)
  | mkdirTarget
  | nextEntry
  | mkdirEntry (dest : List Char)
  | mkdirParent (dest : List Char)
  | writeEntry (dest : List Char)
  | mkdirDirname
  | writeTarget
  | dropStash
  | scrub (message : String)
  | rollback (message : String)
  | ended (final : RunState)
  deriving DecidableEq

/-- How an awaited operation comes out; `β` is the content of a file. -/
inductive Settle (β : Type)
  | ok
  | fails (message : String)
  | response (ok : Bool) (status : Nat) (hasBody : Bool)
  | text (body : String)
  | entry (path : List Char) (isDirectory : Bool)
  | zipEnd
  | wrote (bytes : β)
  | wroteSome (bytes : β) (message : String)
  | madeSome (levels : Nat) (message : String)
  | removedSome (keep : List Seg → Bool)

structure Run (β : Type) where
  fs : FileTree Seg β
  status : HostRestoreStatus
  await : Await
  safetyStashed : Bool := false
  start : FileTree Seg β
  scrubbed : Bool := false

/-- The number of links the system follows in one name. -/
def MAX_LINKS : Nat := 40

variable {β : Type}

/-! ## Between two awaits -/

/-- The `catch` block: the message is kept, and the clean-up removal begins. -/
def toCatch (s : Run β) (message : String) : Run β :=
  { s with await := .scrub message }

def toFetch (s : Run β) : Run β :=
  { s with
    status := { s.status with
      state := .streaming, progress := 25, statusMessage := "Downloading from backup-server…" }
    await := .fetch }

def toTarget (isDir : Bool) (s : Run β) : Run β :=
  if isDir then
    { s with
      status := { s.status with
        state := .extracting, progress := 60, statusMessage := "Extracting ZIP…" }
      await := .mkdirTarget }
  else
    { s with
      status := { s.status with
        state := .streaming, progress := 60, statusMessage := "Writing file…" }
      await := .mkdirDirname }

def toCompleted (s : Run β) : Run β :=
  { s with
    status := { s.status with
      state := .completed, progress := 100, statusMessage := "Host-restore complete" }
    await := if s.safetyStashed then .dropStash else .ended .completed }

def toFailed (s : Run β) (message : String) : Run β :=
  { s with
    status := { s.status with
      state := .failed, error := some message, statusMessage := "Host-restore failed" }
    await := .ended .failed }

/-- After the clean-up removal. -/
def toRollback (s : Run β) (message : String) : Run β :=
  if s.safetyStashed then
    { s with
      status := { s.status with state := .rollingBack, statusMessage := "Rolling back…" }
      await := .rollback message }
  else
    toFailed s message

def toRolledBack (s : Run β) (message : String) : Run β :=
  { s with
    status := { s.status with
      state := .rolledBack, error := some message
      statusMessage := "Rolled back to previous target" }
    await := .ended .rolledBack }

/-! ## When an operation can succeed -/

/-- A rename needs its source, and cannot put an entry below itself. -/
def renames (fs : FileTree Seg β) (src dst : List Seg) : Bool :=
  (fs src).isSome && !decide (src <+: dst)

/-- `mkdir` with `recursive` finds nothing but directories on the way. -/
def makes (fs : FileTree Seg β) (p : List Seg) : Bool :=
  (List.range (p.length + 1)).all fun k =>
    -- what is on the way has to be a directory, or a link to one
    match fs (p.take k) with
    | none => true
    | some .dir => true
    | some (.file _) => false
    | some (.link dest) => fs.stat MAX_LINKS dest

/-- Where a write stream on `p` writes: not to a directory. -/
def opens (fs : FileTree Seg β) (p : List Seg) : Option (List Seg) :=
  match fs.follow MAX_LINKS p with
  | some q =>
      match fs q with
      | some .dir => none
      | _ => some q
  | none => none

theorem follow_of_opens {fs : FileTree Seg β} {p q : List Seg} (h : opens fs p = some q) :
    fs.follow MAX_LINKS p = some q := by
  unfold opens at h
  split at h
  case h_1 q' hfollow =>
      split at h
      case h_1 =>
          cases h
      case h_2 =>
          rw [hfollow, h]
  case h_2 =>
      cases h

/-! ## The transition function -/

/-- `mkdir(p, { recursive: true })`, then the next await. -/
def stepMkdir (s : Run β) (p : List Seg) (next : Await) : Settle β → Option (Run β)
  | .ok => if makes s.fs p then some { s with fs := s.fs.mkdirs p, await := next } else none
  | .madeSome levels message =>
      some (toCatch { s with fs := s.fs.mkdirs (p.take levels) } message)
  | .fails message => some (toCatch s message)
  | _ => none

/-- `pipeline(stream, createWriteStream(p))`, then what follows it. -/
def stepWrite (s : Run β) (p : List Seg) (next : Run β → Run β) : Settle β → Option (Run β)
  | .wrote bytes =>
      match opens s.fs p with
      | some q => some (next { s with fs := s.fs.put q (.file bytes) })
      | none => none
  | .wroteSome bytes message =>
      match opens s.fs p with
      | some q => some (toCatch { s with fs := s.fs.put q (.file bytes) } message)
      | none => none
  | .fails message => some (toCatch s message)
  | _ => none

/-- The next entry of the archive: a path that is refused ends the extraction. -/
def stepEntry (ctx : RestoreContext) (s : Run β) : Settle β → Option (Run β)
  | .entry path isDirectory =>
      match resolveZipEntryPath ctx.cwd path (resolve ctx.cwd [ctx.target.absoluteTarget]) with
      | none =>
          some (toCatch s ("ZIP entry \"" ++ String.ofList path ++ "\" escapes the target directory"))
      | some dest =>
          some { s with await := if isDirectory then .mkdirEntry dest else .mkdirParent dest }
  -- the archive is over
  | .zipEnd => some (toCompleted s)
  | .fails message => some (toCatch s message)
  | _ => none

def step (ctx : RestoreContext) (s : Run β) (a : Settle β) : Option (Run β) :=
  match s.await with
  | .stat =>
      match a with
      | .ok => if s.fs.stat MAX_LINKS ctx.targetAt then some { s with await := .stash } else none
      | .fails _ => some (toFetch s)
      | _ => none
  -- `safeStat` has found an entry
  | .stash =>
      match a with
      | .ok =>
          if renames s.fs ctx.targetAt ctx.safetyAt then
            some (toFetch { s with
              fs := s.fs.move ctx.targetAt ctx.safetyAt
              safetyStashed := true })
          else
            none
      | .fails message => some (toCatch s message)
      | _ => none
  | .fetch =>
      match a with
      | .response ok status hasBody =>
          -- `!res.ok || !res.body`
          if ok && hasBody then some (toTarget ctx.request.isDir s)
          else some { s with await := .errorText status }
      | .fails message => some (toCatch s message)
      | _ => none
  | .errorText status =>
      match a with
      | .text body =>
          some (toCatch s ("upstream " ++ toString status ++ ": " ++ String.ofList (body.toList.take 200)))
      | .fails _ => some (toCatch s ("upstream " ++ toString status ++ ": "))
      | _ => none
  | .mkdirTarget => stepMkdir s ctx.targetAt .nextEntry a
  | .nextEntry => stepEntry ctx s a
  | .mkdirEntry dest => stepMkdir s (locate dest) .nextEntry a
  | .mkdirParent dest => stepMkdir s (locate (dirname dest)) (.writeEntry dest) a
  | .writeEntry dest => stepWrite s (locate dest) (fun s => { s with await := .nextEntry }) a
  | .mkdirDirname => stepMkdir s (locate (dirname ctx.target.absoluteTarget)) .writeTarget a
  | .writeTarget => stepWrite s ctx.targetAt toCompleted a
  -- the run has completed; `.catch(() => {})` drops an error here
  | .dropStash =>
      match a with
      | .ok => some { s with fs := s.fs.remove ctx.safetyAt, await := .ended .completed }
      | .removedSome keep =>
          some { s with fs := s.fs.removeSome keep ctx.safetyAt, await := .ended .completed }
      | _ => none
  | .scrub message =>
      match a with
      | .ok => some (toRollback { s with fs := s.fs.remove ctx.targetAt, scrubbed := true } message)
      | .removedSome keep =>
          some (toRollback
            { s with fs := s.fs.removeSome keep ctx.targetAt, scrubbed := false } message)
      | _ => none
  | .rollback message =>
      match a with
      | .ok =>
          if renames s.fs ctx.safetyAt ctx.targetAt then
            some (toRolledBack { s with fs := s.fs.move ctx.safetyAt ctx.targetAt } message)
          else
            none
      | .fails _ => some (toFailed s message)
      | _ => none
  | .ended _ => none

/-! ## What one step can do -/

/-- The awaits whose errors go to the `catch` block. -/
def Await.throws : Await → Bool
  | .stat => false
  | .dropStash => false
  | .scrub _ => false
  | .rollback _ => false
  | .ended _ => false
  | _ => true

/-- The directory that is made at an await, and the await behind it. -/
def Await.making (ctx : RestoreContext) : Await → Option (List Seg × Await)
  | .mkdirTarget => some (ctx.targetAt, .nextEntry)
  | .mkdirEntry dest => some (locate dest, .nextEntry)
  | .mkdirParent dest => some (locate (dirname dest), .writeEntry dest)
  | .mkdirDirname => some (locate (dirname ctx.target.absoluteTarget), .writeTarget)
  | _ => none

/-- The file that is written at an await. -/
def Await.writing (ctx : RestoreContext) : Await → Option (List Seg)
  | .writeEntry dest => some (locate dest)
  | .writeTarget => some ctx.targetAt
  | _ => none

/-- The ways a run goes on, with the guard of each. -/
inductive RunStep (ctx : RestoreContext) (s : Run β) : Settle β → Run β → Prop where
  | found : s.await = .stat → s.fs.stat MAX_LINKS ctx.targetAt = true →
      RunStep ctx s .ok { s with await := .stash }
  | notFound (message : String) : s.await = .stat → RunStep ctx s (.fails message) (toFetch s)
  | stashed : s.await = .stash → renames s.fs ctx.targetAt ctx.safetyAt = true →
      RunStep ctx s .ok
        (toFetch { s with fs := s.fs.move ctx.targetAt ctx.safetyAt, safetyStashed := true })
  | throws {a : Settle β} (message : String) : s.await.throws = true →
      RunStep ctx s a (toCatch s message)
  | downloads {a : Settle β} : s.await = .fetch → RunStep ctx s a (toTarget ctx.request.isDir s)
  | refused {a : Settle β} (status : Nat) : s.await = .fetch →
      RunStep ctx s a { s with await := .errorText status }
  | makes {p : List Seg} {next : Await} : s.await.making ctx = some (p, next) →
      Restore.makes s.fs p = true → RunStep ctx s .ok { s with fs := s.fs.mkdirs p, await := next }
  | makesSome {p : List Seg} {next : Await} (levels : Nat) (message : String) :
      s.await.making ctx = some (p, next) →
      RunStep ctx s (.madeSome levels message)
        (toCatch { s with fs := s.fs.mkdirs (p.take levels) } message)
  | entry {path dest : List Char} (isDirectory : Bool) : s.await = .nextEntry →
      resolveZipEntryPath ctx.cwd path (resolve ctx.cwd [ctx.target.absoluteTarget]) = some dest →
      RunStep ctx s (.entry path isDirectory)
        { s with await := if isDirectory then .mkdirEntry dest else .mkdirParent dest }
  | extracted : s.await = .nextEntry → RunStep ctx s .zipEnd (toCompleted s)
  | wroteEntry {dest : List Char} {q : List Seg} (bytes : β) : s.await = .writeEntry dest →
      opens s.fs (locate dest) = some q →
      RunStep ctx s (.wrote bytes) { s with fs := s.fs.put q (.file bytes), await := .nextEntry }
  | wroteTarget {q : List Seg} (bytes : β) : s.await = .writeTarget →
      opens s.fs ctx.targetAt = some q →
      RunStep ctx s (.wrote bytes) (toCompleted { s with fs := s.fs.put q (.file bytes) })
  | wroteSome {p q : List Seg} (bytes : β) (message : String) : s.await.writing ctx = some p →
      opens s.fs p = some q →
      RunStep ctx s (.wroteSome bytes message)
        (toCatch { s with fs := s.fs.put q (.file bytes) } message)
  | dropped : s.await = .dropStash →
      RunStep ctx s .ok { s with fs := s.fs.remove ctx.safetyAt, await := .ended .completed }
  | droppedSome (keep : List Seg → Bool) : s.await = .dropStash →
      RunStep ctx s (.removedSome keep)
        { s with fs := s.fs.removeSome keep ctx.safetyAt, await := .ended .completed }
  | scrubbed {message : String} : s.await = .scrub message →
      RunStep ctx s .ok
        (toRollback { s with fs := s.fs.remove ctx.targetAt, scrubbed := true } message)
  | scrubbedSome {message : String} (keep : List Seg → Bool) : s.await = .scrub message →
      RunStep ctx s (.removedSome keep)
        (toRollback { s with fs := s.fs.removeSome keep ctx.targetAt, scrubbed := false } message)
  | rolledBack {message : String} : s.await = .rollback message →
      renames s.fs ctx.safetyAt ctx.targetAt = true →
      RunStep ctx s .ok
        (toRolledBack { s with fs := s.fs.move ctx.safetyAt ctx.targetAt } message)
  | notRolledBack {message : String} (error : String) : s.await = .rollback message →
      RunStep ctx s (.fails error) (toFailed s message)

theorem RunStep.of_mkdir {ctx : RestoreContext} {s s' : Run β} {p : List Seg} {next : Await}
    {a : Settle β} (hmaking : s.await.making ctx = some (p, next)) (hthrows : s.await.throws = true)
    (hs : stepMkdir s p next a = some s') : RunStep ctx s a s' := by
  unfold stepMkdir at hs
  split at hs
  · split at hs
    · rename_i hmakes
      cases hs
      exact .makes hmaking hmakes
    · cases hs
  · cases hs
    exact .makesSome _ _ hmaking
  · cases hs
    exact .throws _ hthrows
  · cases hs

theorem RunStep.of_write {ctx : RestoreContext} {s s' : Run β} {p : List Seg} {next : Run β → Run β}
    {a : Settle β} (hwriting : s.await.writing ctx = some p) (hthrows : s.await.throws = true)
    (hnext : ∀ q bytes, opens s.fs p = some q →
      RunStep ctx s (.wrote bytes) (next { s with fs := s.fs.put q (.file bytes) }))
    (hs : stepWrite s p next a = some s') : RunStep ctx s a s' := by
  unfold stepWrite at hs
  split at hs
  · split at hs
    · rename_i q hq
      cases hs
      exact hnext q _ hq
    · cases hs
  · split at hs
    · rename_i q hq
      cases hs
      exact .wroteSome _ _ hwriting hq
    · cases hs
  · cases hs
    exact .throws _ hthrows
  · cases hs

theorem RunStep.of_step {ctx : RestoreContext} {s s' : Run β} {a : Settle β}
    (hs : step ctx s a = some s') : RunStep ctx s a s' := by
  unfold step at hs
  split at hs
  · rename_i hawait
    split at hs
    · split at hs
      · rename_i hstat
        cases hs
        exact .found hawait hstat
      · cases hs
    · cases hs
      exact .notFound _ hawait
    · cases hs
  · rename_i hawait
    split at hs
    · split at hs
      · rename_i hrenames
        cases hs
        exact .stashed hawait hrenames
      · cases hs
    · cases hs
      exact .throws _ (by rw [hawait]; rfl)
    · cases hs
  · rename_i hawait
    split at hs
    · split at hs
      · cases hs
        exact .downloads hawait
      · cases hs
        exact .refused _ hawait
    · cases hs
      exact .throws _ (by rw [hawait]; rfl)
    · cases hs
  · rename_i status hawait
    split at hs <;> cases hs <;> exact .throws _ (by rw [hawait]; rfl)
  · rename_i hawait
    exact .of_mkdir (by rw [hawait]; rfl) (by rw [hawait]; rfl) hs
  · rename_i hawait
    unfold stepEntry at hs
    split at hs
    · split at hs
      · cases hs
        exact .throws _ (by rw [hawait]; rfl)
      · rename_i dest hdest
        cases hs
        exact .entry _ hawait hdest
    · cases hs
      exact .extracted hawait
    · cases hs
      exact .throws _ (by rw [hawait]; rfl)
    · cases hs
  · rename_i dest hawait
    exact .of_mkdir (by rw [hawait]; rfl) (by rw [hawait]; rfl) hs
  · rename_i dest hawait
    exact .of_mkdir (by rw [hawait]; rfl) (by rw [hawait]; rfl) hs
  · rename_i dest hawait
    exact .of_write (by rw [hawait]; rfl) (by rw [hawait]; rfl)
      (fun q bytes hq => .wroteEntry bytes hawait hq) hs
  · rename_i hawait
    exact .of_mkdir (by rw [hawait]; rfl) (by rw [hawait]; rfl) hs
  · rename_i hawait
    exact .of_write (by rw [hawait]; rfl) (by rw [hawait]; rfl)
      (fun q bytes hq => .wroteTarget bytes hawait hq) hs
  · rename_i hawait
    split at hs
    · cases hs
      exact .dropped hawait
    · cases hs
      exact .droppedSome _ hawait
    · cases hs
  · rename_i message hawait
    split at hs
    · cases hs
      exact .scrubbed hawait
    · cases hs
      exact .scrubbedSome _ hawait
    · cases hs
  · rename_i message hawait
    split at hs
    · split at hs
      · rename_i hrenames
        cases hs
        exact .rolledBack hawait hrenames
      · cases hs
    · cases hs
      exact .notRolledBack _ hawait
    · cases hs
  · cases hs

end Restore
end SignalKBackup
