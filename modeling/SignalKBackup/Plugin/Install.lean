import SignalKBackup.Plugin.State

/-!
# Install — `installServerRelease`, await by await

An install moves "auto" to a target release and puts the previous version back when the target does
not come up.  `installStep` is one step of it: how the awaited operation settles, and what runs from
there to the next await.

`container.applyUpdate(t)` recreates the container on what the `resolveTag` hook makes of `t` at the
time of the call.
-/

namespace SignalKBackup
namespace Plugin

open Config

/-- Which of the two swaps of `installServerVersion`. -/
inductive Swap
  | target
  | previous
  deriving DecidableEq

structure Install where
  target : String
  previous : String
  gen : ℕ
  deriving DecidableEq

/-- What an install waits for. -/
inductive InstallAwait
  /-- `container.applyUpdate('auto')`, which recreates the container on `image`. -/
  | recreate (swap : Swap) (image : String)
  /-- `container.resolveAddress`. -/
  | address (swap : Swap)
  /-- `waitForReady` of the recreated server. -/
  | health (swap : Swap) (addr : String)
  /-- The promise of `waitReady`, which has adopted the address. -/
  | adopted (swap : Swap)
  /-- `savePluginOptions`. -/
  | save (options : Settings)
  deriving DecidableEq

/-- `checkForUpdate()`'s answer. -/
structure UpdateCheck where
  updateAvailable : Bool
  latestVersion : Option String
  reason : String
  deriving DecidableEq

/-- How an awaited operation settles. -/
inductive Settle
  /-- It resolves, with nothing that is looked at. -/
  | ok
  | fails
  /-- A failed recreate, and what the container runs afterwards. -/
  | recreateFails (container : Option String)
  | address (addr : Option String)
  /-- The update check, and whether there is a container manager to pull with. -/
  | update (check : Option UpdateCheck) (manager : Bool)
  | link (link : Option Uplink.UplinkState) (manager : Bool)
  | idle (idle : Bool)
  | lookup (lookup : Lookup)
  deriving DecidableEq

/-- How `installServerRelease` ends: it resolves, or it rejects with one of three errors. -/
inductive InstallResult
  | installed
  /-- `backup server <target> did not start, back on <previous>` -/
  | backOnPrevious
  /-- `backup server <target> did not start, and <previous> did not come back either` -/
  | notBack
  /-- The error of `persistAppliedTag`. -/
  | notSaved
  deriving DecidableEq

/-- Where the code behind an await ends: at the next await, or with the result. -/
inductive Next
  | await (await : InstallAwait)
  | done (result : InstallResult)
  deriving DecidableEq

namespace State

variable (s : State)

/-- The `resolveTag` hook. -/
def resolveTag (tag : String) : String :=
  resolveImageTag tag s.resolvedAutoTag s.floor

/-- `swap(tag)` up to its await; `none` when it throws. -/
def swap (tag : String) (gen : ℕ) : Option State :=
  if gen ≠ s.lifecycleGeneration then none else some { s with resolvedAutoTag := some tag }

/-- The `catch` of `installServerRelease`. -/
def installFailed (i : Install) (result : InstallResult) : State × Next :=
  ({ s with failedServerVersions := s.failedServerVersions.insert i.target }, .done result)

/-- The `catch` of `installServerVersion`. -/
def rollback (i : Install) : State × Next :=
  match s.swap i.previous i.gen with
  | none => s.installFailed i .notBack
  | some s' => (s', .await (.recreate .previous (s'.resolveTag "auto")))

/-- A swap that did not come up: the target is rolled back, the previous version is given up. -/
def swapFailed (i : Install) : Swap → State × Next
  | .target => s.rollback i
  | .previous => s.installFailed i .notBack

/-- `installServerRelease` up to its first await. -/
def installServerRelease (target : String) (gen : ℕ) : Install × State × Next :=
  let i : Install := { target, previous := s.resolvedAutoTag.getD s.floor, gen }
  match s.swap target gen with
  -- the first swap throws inside the `try`, so the rollback follows
  | none => (i, s.rollback i)
  | some s' => (i, s', .await (.recreate .target (s'.resolveTag "auto")))

/-- The rest of `installServerRelease` once the target answers. -/
def installed (i : Install) : State × Next :=
  match s.persistAppliedTag "auto" i.target with
  -- no settings are loaded: nothing is saved, and the update counts as done
  | none => (s.uplinkStart, .done .installed)
  | some (s', options) => (s', .await (.save options))

end State

def httpAddress (addr : String) : String :=
  "http://" ++ addr

def installStep (s : State) (i : Install) (w : InstallAwait) (a : Settle) :
    Option (State × Next) :=
  match w, a with
  | .recreate swap image, .ok => some ({ s with container := some image }, .await (.address swap))
  | .recreate swap _, .recreateFails container => some (State.swapFailed { s with container } i swap)
  | .address swap, .address (some addr) => some (s, .await (.health swap addr))
  | .address swap, .address none => some (s.swapFailed i swap)
  | .address swap, .fails => some (s.swapFailed i swap)
  | .health swap addr, .ok => some (s.adoptServerAddress (httpAddress addr), .await (.adopted swap))
  | .health swap _, .fails => some (s.swapFailed i swap)
  | .adopted .target, .ok => some (s.installed i)
  | .adopted .previous, .ok => some (s.installFailed i .backOnPrevious)
  | .save options, .ok => some ({ s with stored := some options }.uplinkStart, .done .installed)
  | .save _, .fails => some (s, .done .notSaved)
  | _, _ => none

/-! ## What one step can do -/

/-- The ways an install goes on. -/
inductive InstallStep (s : State) (i : Install) :
    InstallAwait → Settle → State × Next → Prop where
  | recreated (swap : Swap) (image : String) :
      InstallStep s i (.recreate swap image) .ok
        ({ s with container := some image }, .await (.address swap))
  | recreateFailed (swap : Swap) (image : String) (container : Option String) :
      InstallStep s i (.recreate swap image) (.recreateFails container)
        (State.swapFailed { s with container } i swap)
  | located (swap : Swap) (addr : String) :
      InstallStep s i (.address swap) (.address (some addr)) (s, .await (.health swap addr))
  | notLocated (swap : Swap) {a : Settle} : a = .address none ∨ a = .fails →
      InstallStep s i (.address swap) a (s.swapFailed i swap)
  | answered (swap : Swap) (addr : String) :
      InstallStep s i (.health swap addr) .ok
        (s.adoptServerAddress (httpAddress addr), .await (.adopted swap))
  | noAnswer (swap : Swap) (addr : String) :
      InstallStep s i (.health swap addr) .fails (s.swapFailed i swap)
  | up : InstallStep s i (.adopted .target) .ok (s.installed i)
  | back : InstallStep s i (.adopted .previous) .ok (s.installFailed i .backOnPrevious)
  | saved (options : Settings) :
      InstallStep s i (.save options) .ok ({ s with stored := some options }.uplinkStart, .done .installed)
  | saveFailed (options : Settings) : InstallStep s i (.save options) .fails (s, .done .notSaved)

theorem InstallStep.of_step {s : State} {i : Install} {w : InstallAwait} {a : Settle}
    {r : State × Next} (h : installStep s i w a = some r) : InstallStep s i w a r := by
  unfold installStep at h
  split at h
  case h_1 swap image =>
      cases h
      exact .recreated swap image
  case h_2 swap image container =>
      cases h
      exact .recreateFailed swap image container
  case h_3 swap addr =>
      cases h
      exact .located swap addr
  case h_4 swap =>
      cases h
      exact .notLocated swap (Or.inl rfl)
  case h_5 swap =>
      cases h
      exact .notLocated swap (Or.inr rfl)
  case h_6 swap addr =>
      cases h
      exact .answered swap addr
  case h_7 swap addr =>
      cases h
      exact .noAnswer swap addr
  case h_8 =>
      cases h
      exact .up
  case h_9 =>
      cases h
      exact .back
  case h_10 options =>
      cases h
      exact .saved options
  case h_11 options =>
      cases h
      exact .saveFailed options
  case h_12 =>
      cases h

namespace State

variable {s : State}

theorem swap_eq_some {tag : String} {gen : ℕ} {s' : State} (h : s.swap tag gen = some s') :
    gen = s.lifecycleGeneration ∧ s' = { s with resolvedAutoTag := some tag } := by
  unfold swap at h
  split at h
  case isTrue =>
      cases h
  case isFalse hgen =>
      cases h
      exact ⟨not_not.1 hgen, rfl⟩

/-- A swap that does not come up ends the install, or, for the target of an install that is not
superseded, starts the swap back. -/
theorem swapFailed_cases (s : State) (i : Install) (swap : Swap) :
    s.swapFailed i swap = s.installFailed i .notBack ∨
      swap = .target ∧ i.gen = s.lifecycleGeneration ∧
        s.swapFailed i swap =
          ({ s with resolvedAutoTag := some i.previous },
            .await (.recreate .previous (resolveImageTag "auto" (some i.previous) s.floor))) := by
  cases swap with
  | target =>
      unfold swapFailed rollback
      cases hswap : s.swap i.previous i.gen with
      | none =>
          exact Or.inl rfl
      | some s' =>
          rcases swap_eq_some hswap with ⟨hgen, rfl⟩
          exact Or.inr ⟨rfl, hgen, rfl⟩
  | previous =>
      exact Or.inl rfl

theorem installServerRelease_current (s : State) (target : String) :
    s.installServerRelease target s.lifecycleGeneration =
      ({ target, previous := s.resolvedAutoTag.getD s.floor
         gen := s.lifecycleGeneration },
        { s with resolvedAutoTag := some target },
        .await (.recreate .target (resolveImageTag "auto" (some target) s.floor))) := by
  simp only [installServerRelease, swap, ne_eq, not_true_eq_false, if_false]
  rfl

theorem installed_cases (s : State) (i : Install) :
    s.settings = none ∧ s.installed i = (s.uplinkStart, .done .installed) ∨
      ∃ s' options, s.persistAppliedTag "auto" i.target = some (s', options) ∧
        s.installed i = (s', .await (.save options)) := by
  unfold installed
  cases hsave : s.persistAppliedTag "auto" i.target with
  | none =>
      exact Or.inl ⟨persistAppliedTag_eq_none.1 hsave, rfl⟩
  | some r =>
      exact Or.inr ⟨r.1, r.2, rfl, rfl⟩

end State

/-! ## What an install leaves alone -/

/-- Neither the control variables nor the update timer change. -/
def Frame (s s' : State) : Prop :=
  s'.control = s.control ∧ s'.serverUpdateTimer = s.serverUpdateTimer

theorem Frame.refl (s : State) : Frame s s :=
  ⟨rfl, rfl⟩

theorem State.swapFailed_frame (s : State) (i : Install) (swap : Swap) :
    Frame s (s.swapFailed i swap).1 := by
  rcases s.swapFailed_cases i swap with hfailed | ⟨_, _, hback⟩
  · rw [hfailed]
    exact ⟨rfl, rfl⟩
  · rw [hback]
    exact ⟨rfl, rfl⟩

theorem InstallStep.frame {s : State} {i : Install} {w : InstallAwait} {a : Settle}
    {r : State × Next} (h : InstallStep s i w a r) : Frame s r.1 := by
  cases h with
  | recreated swap image =>
      exact ⟨rfl, rfl⟩
  | recreateFailed swap image container =>
      exact State.swapFailed_frame { s with container } i swap
  | located swap addr =>
      exact .refl s
  | notLocated swap _ =>
      exact s.swapFailed_frame i swap
  | answered swap addr =>
      exact ⟨s.adoptServerAddress_control _, s.adoptServerAddress_timer _⟩
  | noAnswer swap addr =>
      exact s.swapFailed_frame i swap
  | up =>
      rcases s.installed_cases i with ⟨_, heq⟩ | ⟨s', options, hsave, heq⟩
      · rw [heq]
        exact ⟨rfl, rfl⟩
      · rw [heq]
        exact State.persistAppliedTag_control hsave
  | back =>
      exact ⟨rfl, rfl⟩
  | saved options =>
      exact ⟨rfl, rfl⟩
  | saveFailed options =>
      exact .refl s

/-! ## Awaits without a guard -/

/-- An await after which an install changes the plugin without a look at the generation. -/
def InstallAwait.unguarded : InstallAwait → Settle → Bool
  | .recreate _ _, .recreateFails _ => true
  | .address _, .address none => true
  | .address _, .fails => true
  | .health _ _, _ => true
  | .adopted _, _ => true
  | .save _, .ok => true
  | _, _ => false

theorem InstallStep.view {s : State} {i : Install} {w : InstallAwait} {a : Settle}
    {r : State × Next} (h : InstallStep s i w a r) (hguarded : w.unguarded a = false) :
    r.1.view = s.view := by
  cases h with
  | recreated swap image =>
      rfl
  | located swap addr =>
      rfl
  | saveFailed options =>
      rfl
  -- the swap back begins, or the target is marked as failed
  | notLocated swap ha =>
      rcases ha with rfl | rfl <;> cases hguarded
  | recreateFailed swap image container => cases hguarded
  | answered swap addr => cases hguarded
  | noAnswer swap addr => cases hguarded
  | up => cases hguarded
  | back => cases hguarded
  | saved options => cases hguarded

end Plugin
end SignalKBackup
