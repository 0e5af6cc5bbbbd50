import SignalKBackup.Restore.Consent

/-!
# SingleFlight — who holds the restore slot, and for how long

The slot is a status that many places overwrite.  This file says whose it is at any time:

* `Server.Holds s i`: the request at position `i` holds the slot, from the reservation on until it
  is answered without a run or its run has come to an end;
* `holds_step`: how one step takes, keeps and gives up the slot;
* `rank`: an upper bound on the steps a holder has left, apart from the entries of its archive.
-/

namespace SignalKBackup
namespace Restore

open Lib
open Posix

variable {β : Type} {cwd : List Char}

/-! ## What the routes answer -/

inductive Answer
  /-- 400 `INVALID_INPUT` -/
  | invalidInput
  /-- 409 `RESTORE_IN_PROGRESS` -/
  | restoreInProgress
  /-- 409 `TARGET_EXISTS` -/
  | targetExists
  /-- 503 `UPSTREAM_NOT_READY` -/
  | upstreamNotReady
  /-- 202 -/
  | started
  /-- 200, of a reset -/
  | wasReset
  | data (status : HostRestoreStatus)
  deriving DecidableEq

/-- The answer behind the probe. -/
def beginAnswer (s : Server β) : Answer :=
  if s.upstream then .started else .upstreamNotReady

/-- What a step answers, where it answers a request. -/
def answer (s : Server β) : Action β → Option Answer
  | .post request _ =>
      if !accepts request then some .invalidInput
      else if s.status.state.isRunning then some .restoreInProgress
      else if request.confirmOverwrite then some (beginAnswer s)
      else none
  | .reset => some (if s.status.state.isRunning then .restoreInProgress else .wasReset)
  | .status => some (.data s.status)
  | .resume i =>
      match s.tasks[i]? with
      | some t =>
          match t.phase with
          | .probed true => some .targetExists
          | .probed false => some (beginAnswer s)
          | _ => none
      | none => none
  | _ => none

/-! ## A taken slot has a holder -/

/-- The request at this position holds the slot. -/
def Server.Holds (s : Server β) (i : ℕ) : Prop :=
  ∃ t, s.tasks[i]? = some t ∧ t.holds = true

/-- Without a stash there is nothing to roll back to. -/
theorem toRollback_failed {s : Run β} {message : String}
    (h : (toRollback s message).await.holds = false) : (toRollback s message).status.state = .failed := by
  by_cases hst : s.safetyStashed = true
  · simp [toRollback, hst, Await.holds] at h
  · simp [toRollback, hst, toFailed]

/-- A run that ends its time in the slot leaves a status that is not running. -/
theorem step_ends {ctx : RestoreContext} {s s' : Run β} {a : Settle β}
    (hs : step ctx s a = some s') (hbefore : s.await.holds = true) (hafter : s'.await.holds = false) :
    s'.status.state = .completed ∨ s'.status.state = .failed ∨ s'.status.state = .rolledBack := by
  cases RunStep.of_step hs with
  | downloads _ =>
      unfold toTarget at hafter
      split at hafter <;> cases hafter
  | makes hmaking _ =>
      -- behind a directory there is always an entry or a write
      unfold Await.making at hmaking
      split at hmaking <;> cases hmaking <;> cases hafter
  | entry isDirectory _ _ =>
      cases isDirectory <;> cases hafter
  | extracted _ =>
      exact Or.inl rfl
  | wroteTarget bytes _ _ =>
      exact Or.inl rfl
  | dropped hawait =>
      rw [hawait] at hbefore
      cases hbefore
  | droppedSome keep hawait =>
      rw [hawait] at hbefore
      cases hbefore
  | scrubbed _ =>
      exact Or.inr (Or.inl (toRollback_failed hafter))
  | scrubbedSome keep _ =>
      exact Or.inr (Or.inl (toRollback_failed hafter))
  | rolledBack _ _ =>
      exact Or.inr (Or.inr rfl)
  | notRolledBack error _ =>
      exact Or.inr (Or.inl rfl)
  | _ =>
      cases hafter

theorem isRunning_of_ended {final : RunState}
    (h : final = .completed ∨ final = .failed ∨ final = .rolledBack) : final.isRunning = false := by
  rcases h with rfl | rfl | rfl <;> rfl

/-- The slot is never leaked: while the status is running, some request holds it. -/
def NotLeaked (s : Server β) : Prop :=
  Occupied Task.holds s.status.state.isRunning s.tasks

theorem notLeaked_step {s s' : Server β} {a : Action β} (h : NotLeaked s)
    (hs : ServerStep cwd s a s') : NotLeaked s' := by
  cases hs with
  | refused request stamp =>
      exact h
  | probes _ _ =>
      exact Occupied.append rfl
  | begins _ _ =>
      exact Occupied.append rfl
  | unready _ =>
      exact Occupied.of_free rfl
  | reset _ =>
      exact Occupied.of_free rfl
  | resetRefused _ =>
      exact h
  | status =>
      exact h
  | probe existing ht _ _ =>
      exact Occupied.set h ht fun _ => Or.inl rfl
  | @run i t a await r ht hphase hr =>
      refine Occupied.set h ht fun hrunning => ?_
      cases hbefore : await.holds with
      | false =>
          -- only the stash is dropped: the status is another one's
          have hstatus := (step_released hr hbefore).2.1
          have hsame := congrArg (fun status => status.state.isRunning) hstatus
          exact Or.inr ⟨by simp [Task.holds, hphase, hbefore], hsame.symm.trans hrunning⟩
      | true =>
          cases hafter : r.await.holds with
          | true =>
              exact Or.inl hafter
          | false =>
              have hended := isRunning_of_ended (step_ends hr hbefore hafter)
              have hflag : r.status.state.isRunning = true := hrunning
              rw [hended] at hflag
              cases hflag
  | conflict _ _ =>
      exact Occupied.of_free rfl
  | goesOn ht _ _ =>
      exact Occupied.set h ht fun _ => Or.inl rfl
  | goesOnUnready _ _ _ =>
      exact Occupied.of_free rfl
  | others fs =>
      exact h
  | upstream ready =>
      exact h

/-- The slot has one holder while it is taken, and none while it is free. -/
structure SlotKept (s : Server β) : Prop where
  exclusive : SingleFlight s
  occupied : NotLeaked s

theorem reachable_slotKept {s : Server β} (h : (serverMachine cwd).Reachable Registered s) :
    SlotKept s := by
  refine h.invariant ?_ ?_
  · intro s hregistered
    refine ⟨hregistered.singleFlight, ?_⟩
    rcases hregistered with ⟨fs, upstream, rfl⟩
    exact Occupied.of_free rfl
  · intro s a s' hkept _ hs
    have hstep := ServerStep.of_step hs
    exact ⟨singleFlight_step hkept.exclusive hstep, notLeaked_step hkept.occupied hstep⟩

namespace SlotKept

variable {s : Server β} {i j : ℕ}

theorem running (h : SlotKept s) (hi : s.Holds i) : s.status.state.isRunning = true := by
  rcases hi with ⟨t, ht, hholds⟩
  exact (h.exclusive i t ht hholds).1

theorem one (h : SlotKept s) (hi : s.Holds i) (hj : s.Holds j) : i = j := by
  rcases hi with ⟨t, ht, hholds⟩
  rcases hj with ⟨u, hu, huholds⟩
  exact ((h.exclusive i t ht hholds).2 j u hu huholds).symm

theorem running_iff (h : SlotKept s) : s.status.state.isRunning = true ↔ ∃ i, s.Holds i := by
  constructor
  · intro hrunning
    rcases h.occupied hrunning with ⟨i, t, ht, hholds⟩
    exact ⟨i, t, ht, hholds⟩
  · rintro ⟨i, hi⟩
    exact h.running hi

end SlotKept

/-! ## One step, seen from the holder -/

/-- An awaited call of the request at position `i` settles, or its handler goes on. -/
def Action.own (i : ℕ) : Action β → Bool
  | .settle j _ => j = i
  | .resume j => j = i
  | _ => false

/-- A step of something else leaves the request where it is. -/
theorem other_step {s s' : Server β} {a : Action β} {i : ℕ} {t : Task β}
    (hs : ServerStep cwd s a s') (hother : a.own i = false) (ht : s.tasks[i]? = some t) :
    s'.tasks[i]? = some t := by
  rcases List.getElem?_eq_some_iff.1 ht with ⟨hlt, _⟩
  -- a new request is appended, and each step writes its own request only
  have happend : ∀ u : Task β, (s.tasks ++ [u])[i]? = some t := by
    intro u
    rw [List.getElem?_append_left hlt]
    exact ht
  have hset : ∀ (j : ℕ) (u : Task β), decide (j = i) = false → (s.tasks.set j u)[i]? = some t := by
    intro j u hj
    rw [List.getElem?_set_ne (of_decide_eq_false hj)]
    exact ht
  cases hs with
  | refused request stamp =>
      exact ht
  | probes _ _ =>
      exact happend _
  | begins _ _ =>
      exact happend _
  | unready _ =>
      exact happend _
  | reset _ =>
      exact ht
  | resetRefused _ =>
      exact ht
  | status =>
      exact ht
  | probe existing _ _ _ =>
      exact hset _ _ hother
  | run _ _ _ =>
      exact hset _ _ hother
  | conflict _ _ =>
      exact hset _ _ hother
  | goesOn _ _ _ =>
      exact hset _ _ hother
  | goesOnUnready _ _ _ =>
      exact hset _ _ hother
  | others fs =>
      exact ht
  | upstream ready =>
      exact ht

/-- While a request holds the slot, no step of something else writes the status. -/
theorem other_status {s s' : Server β} {a : Action β} {i : ℕ} (hkept : SlotKept s)
    (hs : ServerStep cwd s a s') (hholds : s.Holds i) (hother : a.own i = false) :
    s'.status = s.status := by
  have hrunning := hkept.running hholds
  -- another request in the middle of its handler would hold the slot as well
  have hsingle : ∀ {j : ℕ} {t : Task β}, s.tasks[j]? = some t → decide (j = i) = false →
      t.holds = false := by
    intro j t ht hj
    cases hb : t.holds with
    | false =>
        rfl
    | true =>
        exact absurd (hkept.one ⟨t, ht, hb⟩ hholds) (of_decide_eq_false hj)
  cases hs with
  | probes hreserves _ =>
      rw [reserves_free hreserves] at hrunning
      cases hrunning
  | begins hreserves _ =>
      rw [reserves_free hreserves] at hrunning
      cases hrunning
  | unready hfree =>
      rw [hfree] at hrunning
      cases hrunning
  | reset hfree =>
      rw [hfree] at hrunning
      cases hrunning
  | @run j t a await r ht hphase hr =>
      have hno : await.holds = false := by simpa [Task.holds, hphase] using hsingle ht hother
      exact (step_released hr hno).2.1
  | conflict ht hphase =>
      have hno := hsingle ht hother
      simp [Task.holds, hphase] at hno
  | goesOnUnready ht hphase _ =>
      have hno := hsingle ht hother
      simp [Task.holds, hphase] at hno
  | _ =>
      rfl

/-- How one step changes who holds the slot. -/
structure HoldsStep (s : Server β) (a : Action β) (s' : Server β) : Prop where
  /-- The slot is taken by the reservation of a request, and only while it is free. -/
  takes : ∀ i, ¬s.Holds i → s'.Holds i →
    s.status.state.isRunning = false ∧ i = s.tasks.length ∧
      ∃ request stamp, a = .post request stamp ∧ accepts request = true
  /-- Nothing else takes the slot from its holder, or writes the status. -/
  keeps : ∀ i, s.Holds i → a.own i = false → s'.Holds i ∧ s'.status = s.status
  /-- The holder gives it up with an answer, or with the end of its run. -/
  gives : ∀ i, s.Holds i → ¬s'.Holds i →
    s'.status.state.isRunning = false ∧
      (answer s a = some .targetExists ∨ answer s a = some .upstreamNotReady ∨
        s'.status.state = .completed ∨ s'.status.state = .failed ∨ s'.status.state = .rolledBack)

theorem holds_set {s s' : Server β} {i : ℕ} {t t' : Task β} (ht : s.tasks[i]? = some t)
    (htasks : s'.tasks = s.tasks.set i t') : s'.Holds i ↔ t'.holds = true := by
  rcases List.getElem?_eq_some_iff.1 ht with ⟨hlt, _⟩
  simp [Server.Holds, htasks, List.getElem?_set_self hlt]

theorem holds_of_getElem? {s : Server β} {i : ℕ} {t : Task β} (ht : s.tasks[i]? = some t) :
    s.Holds i ↔ t.holds = true := by
  simp [Server.Holds, ht]

theorem holds_append {s s' : Server β} {i : ℕ} {t : Task β} (htasks : s'.tasks = s.tasks ++ [t])
    (h : s'.Holds i) : s.Holds i ∨ (i = s.tasks.length ∧ t.holds = true) := by
  rcases h with ⟨u, hu, hholds⟩
  rw [htasks] at hu
  rcases getElem?_concat_cases hu with hold | ⟨hi, rfl⟩
  · exact Or.inl ⟨u, hold, hholds⟩
  · exact Or.inr ⟨hi, hholds⟩

/-- A task that goes on holds the slot only if it did before. -/
theorem holds_of_set {s s' : Server β} {i j : ℕ} {t t' : Task β} (ht : s.tasks[j]? = some t)
    (htasks : s'.tasks = s.tasks.set j t') (hback : t'.holds = true → t.holds = true)
    (h : s'.Holds i) : s.Holds i := by
  rcases h with ⟨u, hu, hholds⟩
  rw [htasks] at hu
  rcases getElem?_set_cases hu with ⟨rfl, rfl⟩ | ⟨_, hold⟩
  · exact ⟨t, ht, hback hholds⟩
  · exact ⟨u, hold, hholds⟩

theorem accepts_of_reserves {s : Server β} {request : HostRestoreRequest}
    (h : reserves s request = true) : accepts request = true := by
  simp only [reserves, Bool.and_eq_true] at h
  exact h.1.1

theorem holds_taken {s s' : Server β} {a : Action β} {i : ℕ} (hs : ServerStep cwd s a s')
    (hbefore : ¬s.Holds i) (hafter : s'.Holds i) :
    s.status.state.isRunning = false ∧ i = s.tasks.length ∧
      ∃ request stamp, a = .post request stamp ∧ accepts request = true := by
  cases hs with
  | @probes request stamp hreserves _ =>
      rcases holds_append rfl hafter with hold | ⟨hi, _⟩
      · exact absurd hold hbefore
      · exact ⟨reserves_free hreserves, hi, request, stamp, rfl, accepts_of_reserves hreserves⟩
  | @begins request stamp hreserves _ =>
      rcases holds_append rfl hafter with hold | ⟨hi, _⟩
      · exact absurd hold hbefore
      · exact ⟨reserves_free hreserves, hi, request, stamp, rfl, accepts_of_reserves hreserves⟩
  | unready _ =>
      rcases holds_append rfl hafter with hold | ⟨_, hholds⟩
      · exact absurd hold hbefore
      · cases hholds
  | probe existing ht hphase _ =>
      exact absurd (holds_of_set ht rfl (fun _ => by simp [Task.holds, hphase]) hafter) hbefore
  | @run j t a await r ht hphase hr =>
      refine absurd (holds_of_set ht rfl (fun hholds => ?_) hafter) hbefore
      -- a run that has let go of the slot does not take it again
      cases hawait : await.holds with
      | true =>
          simp [Task.holds, hphase, hawait]
      | false =>
          have hno := (step_released hr hawait).1
          have hholds' : r.await.holds = true := hholds
          rw [hno] at hholds'
          cases hholds'
  | conflict ht _ =>
      exact absurd (holds_of_set ht rfl (by simp [Task.holds]) hafter) hbefore
  | goesOn ht hphase _ =>
      exact absurd (holds_of_set ht rfl (fun _ => by simp [Task.holds, hphase]) hafter) hbefore
  | goesOnUnready ht _ _ =>
      exact absurd (holds_of_set ht rfl (by simp [Task.holds]) hafter) hbefore
  | _ =>
      exact absurd hafter hbefore

theorem holds_given {s s' : Server β} {a : Action β} {i : ℕ} (hs : ServerStep cwd s a s')
    (hbefore : s.Holds i) (hafter : ¬s'.Holds i) :
    s'.status.state.isRunning = false ∧
      (answer s a = some .targetExists ∨ answer s a = some .upstreamNotReady ∨
        s'.status.state = .completed ∨ s'.status.state = .failed ∨ s'.status.state = .rolledBack) := by
  -- it is the holder's own step
  have hown : a.own i = true := by
    cases hb : a.own i with
    | true =>
        rfl
    | false =>
        rcases hbefore with ⟨t, ht, hholds⟩
        exact absurd ⟨t, other_step hs hb ht, hholds⟩ hafter
  cases hs with
  | probe existing ht hphase _ =>
      cases of_decide_eq_true hown
      exact absurd ((holds_set ht rfl).2 rfl) hafter
  | @run j t a await r ht hphase hr =>
      cases of_decide_eq_true hown
      have hawait : await.holds = true := by
        have hheld := (holds_of_getElem? ht).1 hbefore
        simpa [Task.holds, hphase] using hheld
      have hno : r.await.holds = false := by
        cases hb : r.await.holds with
        | false =>
            rfl
        | true =>
            have hheld : (t.putRun r).holds = true := hb
            exact absurd ((holds_set ht rfl).2 hheld) hafter
      have hended := step_ends hr hawait hno
      exact ⟨isRunning_of_ended hended, Or.inr (Or.inr hended)⟩
  | conflict ht hphase =>
      exact ⟨rfl, Or.inl (by simp [answer, ht, hphase])⟩
  | goesOn ht hphase _ =>
      cases of_decide_eq_true hown
      exact absurd ((holds_set ht rfl).2 rfl) hafter
  | goesOnUnready ht hphase hunready =>
      exact ⟨rfl, Or.inr (Or.inl (by simp [answer, ht, hphase, beginAnswer, hunready]))⟩
  | _ =>
      cases hown

theorem holds_step {s s' : Server β} {a : Action β} (hkept : SlotKept s)
    (hs : serverStep cwd s a = some s') : HoldsStep s a s' := by
  have hstep := ServerStep.of_step hs
  refine ⟨fun i hbefore hafter => holds_taken hstep hbefore hafter, ?_,
    fun i hbefore hafter => holds_given hstep hbefore hafter⟩
  intro i hholds hother
  refine ⟨?_, other_status hkept hstep hholds hother⟩
  rcases hholds with ⟨t, ht, hb⟩
  exact ⟨t, other_step hstep hother ht, hb⟩

/-- While a request holds the slot, the others are turned away and nothing changes. -/
theorem turned_away {s s' : Server β} {a : Action β} {i : ℕ} (hkept : SlotKept s)
    (hholds : s.Holds i) (hs : serverStep cwd s a = some s')
    (hrequest : a = .reset ∨ ∃ request stamp, a = .post request stamp ∧ accepts request = true) :
    answer s a = some .restoreInProgress ∧ s' = s := by
  have hrunning := hkept.running hholds
  rcases hrequest with rfl | ⟨request, stamp, rfl, haccepts⟩
  · simp only [serverStep, hrunning, if_true, Option.some.injEq] at hs
    exact ⟨by simp [answer, hrunning], hs.symm⟩
  · simp only [serverStep, post, hrunning, Bool.or_true, if_true, Option.some.injEq] at hs
    exact ⟨by simp [answer, haccepts, hrunning], hs.symm⟩

/-! ## A holder comes to an end -/

/-- An upper bound on the steps that are left, entries of the archive apart. -/
def Await.rank : Await → ℕ
  | .stat => 7
  | .stash => 6
  | .fetch => 5
  | .errorText _ => 3
  | .mkdirTarget => 4
  | .nextEntry => 3
  | .mkdirEntry _ => 4
  | .mkdirParent _ => 5
  | .writeEntry _ => 4
  | .mkdirDirname => 4
  | .writeTarget => 3
  | .scrub _ => 2
  | .rollback _ => 1
  | .dropStash => 0
  | .ended _ => 0

def Phase.rank : Phase → ℕ
  | .probing => 9
  | .probed _ => 8
  | .running await => await.rank
  | .answered _ => 0

def Server.rank (s : Server β) (i : ℕ) : ℕ :=
  match s.tasks[i]? with
  | some t => t.phase.rank
  | none => 0

/-- What an entry of the archive gives back: the way to its write. -/
def Settle.credit : Settle β → ℕ
  | .entry _ _ => 3
  | _ => 0

def Action.credit (i : ℕ) : Action β → ℕ
  | .settle j a => if j = i then a.credit else 0
  | _ => 0

theorem throws_rank {w : Await} (h : w.throws = true) : 3 ≤ w.rank := by
  cases w with
  | stat =>
      cases h
  | dropStash =>
      cases h
  | scrub message =>
      cases h
  | rollback message =>
      cases h
  | ended final =>
      cases h
  | _ =>
      simp [Await.rank]

theorem making_rank {ctx : RestoreContext} {w next : Await} {p : List Seg}
    (h : w.making ctx = some (p, next)) : 4 ≤ w.rank ∧ next.rank + 1 ≤ w.rank := by
  unfold Await.making at h
  split at h <;> cases h <;> simp [Await.rank]

theorem toCompleted_rank (s : Run β) : (toCompleted s).await.rank = 0 := by
  by_cases hst : s.safetyStashed = true
  · simp [toCompleted, hst, Await.rank]
  · simp [toCompleted, hst, Await.rank]

theorem toRollback_rank (s : Run β) (message : String) : (toRollback s message).await.rank ≤ 1 := by
  by_cases hst : s.safetyStashed = true
  · simp [toRollback, hst, Await.rank]
  · simp [toRollback, hst, toFailed, Await.rank]

theorem writing_throws {ctx : RestoreContext} {w : Await} {p : List Seg}
    (h : w.writing ctx = some p) : w.throws = true := by
  cases w with
  | writeEntry dest =>
      rfl
  | writeTarget =>
      rfl
  | _ =>
      cases h

/-- Each step of a run in the slot uses up a part of the rank, unless it brings an entry. -/
theorem step_rank {ctx : RestoreContext} {s s' : Run β} {a : Settle β}
    (hs : step ctx s a = some s') (hholds : s.await.holds = true) :
    s'.await.rank + 1 ≤ s.await.rank + a.credit := by
  cases RunStep.of_step hs with
  | found hawait _ =>
      rw [hawait]
      exact Nat.le_add_right 7 _
  | notFound message hawait =>
      rw [hawait]
      exact Nat.le_add_right_of_le (by decide : 6 ≤ 7)
  | stashed hawait _ =>
      rw [hawait]
      exact Nat.le_add_right 6 _
  | throws message hthrows =>
      exact Nat.le_add_right_of_le (throws_rank hthrows)
  | downloads hawait =>
      rw [hawait]
      unfold toTarget
      split
      · exact Nat.le_add_right 5 _
      · exact Nat.le_add_right 5 _
  | refused status hawait =>
      rw [hawait]
      exact Nat.le_add_right_of_le (by decide : 4 ≤ 5)
  | makes hmaking _ =>
      exact Nat.le_add_right_of_le (making_rank hmaking).2
  | makesSome levels message hmaking =>
      exact Nat.le_add_right_of_le (Nat.le_of_succ_le (making_rank hmaking).1)
  | entry isDirectory hawait _ =>
      rw [hawait]
      -- one more write, which the entry brings the credit for
      cases isDirectory <;> simp [Await.rank, Settle.credit]
  | extracted hawait =>
      rw [hawait, toCompleted_rank]
      exact Nat.le_add_right_of_le (by decide : 1 ≤ 3)
  | wroteEntry bytes hawait _ =>
      rw [hawait]
      exact Nat.le_add_right 4 _
  | wroteTarget bytes hawait _ =>
      rw [hawait, toCompleted_rank]
      exact Nat.le_add_right_of_le (by decide : 1 ≤ 3)
  | wroteSome bytes message hwriting _ =>
      exact Nat.le_add_right_of_le (throws_rank (writing_throws hwriting))
  | dropped hawait =>
      rw [hawait] at hholds
      cases hholds
  | droppedSome keep hawait =>
      rw [hawait] at hholds
      cases hholds
  | scrubbed hawait =>
      rw [hawait]
      exact Nat.le_add_right_of_le (Nat.succ_le_succ (toRollback_rank _ _))
  | scrubbedSome keep hawait =>
      rw [hawait]
      exact Nat.le_add_right_of_le (Nat.succ_le_succ (toRollback_rank _ _))
  | rolledBack hawait _ =>
      rw [hawait]
      exact Nat.le_add_right 1 _
  | notRolledBack error hawait =>
      rw [hawait]
      exact Nat.le_add_right 1 _

/-- Whatever a run in the slot waits for may fail. -/
theorem step_settles (ctx : RestoreContext) {s : Run β} (hholds : s.await.holds = true) :
    ∃ a s', step ctx s a = some s' := by
  cases hawait : s.await with
  | scrub message =>
      exact ⟨.ok, _, by simp only [step, hawait]; rfl⟩
  | errorText status =>
      exact ⟨.fails "", _, by simp only [step, hawait]; rfl⟩
  | dropStash =>
      rw [hawait] at hholds
      cases hholds
  | ended final =>
      rw [hawait] at hholds
      cases hholds
  | _ =>
      exact ⟨.fails "", _, by simp only [step, hawait, stepMkdir, stepWrite, stepEntry]; rfl⟩

theorem holder_goes_on {s : Server β} {i : ℕ} (hholds : s.Holds i) :
    ∃ a s', a.own i = true ∧ serverStep cwd s a = some s' := by
  rcases hholds with ⟨t, ht, hb⟩
  cases hphase : t.phase with
  | probing =>
      exact ⟨.settle i (.fails ""), _, by simp [Action.own], by simp only [serverStep, ht, hphase]; rfl⟩
  | probed existing =>
      cases existing with
      | true =>
          exact ⟨.resume i, _, by simp [Action.own], by simp only [serverStep, ht, hphase]; rfl⟩
      | false =>
          exact ⟨.resume i, _, by simp [Action.own], by simp only [serverStep, ht, hphase]; rfl⟩
  | running await =>
      have hawait : (t.run s await).await.holds = true := by
        simpa [Task.holds, Task.run, hphase] using hb
      rcases step_settles t.ctx hawait with ⟨a, r, hr⟩
      exact ⟨.settle i a, _, by simp [Action.own], serverStep_run ht hphase hr⟩
  | answered code =>
      simp [Task.holds, hphase] at hb

theorem rank_set {s s' : Server β} {i : ℕ} {t t' : Task β} (ht : s.tasks[i]? = some t)
    (htasks : s'.tasks = s.tasks.set i t') : s'.rank i = t'.phase.rank := by
  rcases List.getElem?_eq_some_iff.1 ht with ⟨hlt, _⟩
  simp [Server.rank, htasks, List.getElem?_set_self hlt]

/-- What an own step does to the phase of the holder. -/
theorem own_rank {s s' : Server β} {a : Action β} {i : ℕ} {t : Task β} (ht : s.tasks[i]? = some t)
    (hholds : t.holds = true) (hown : a.own i = true) (hs : ServerStep cwd s a s') :
    s'.rank i + 1 ≤ t.phase.rank + a.credit i := by
  cases hs with
  | probe existing hu hphase _ =>
      cases of_decide_eq_true hown
      cases ht.symm.trans hu
      rw [rank_set ht rfl, hphase]
      exact Nat.le_add_right 9 _
  | @run j u a await r hu hphase hr =>
      cases of_decide_eq_true hown
      cases ht.symm.trans hu
      have hawait : (t.run s await).await.holds = true := by
        simpa [Task.holds, Task.run, hphase] using hholds
      have hrank : r.await.rank + 1 ≤ await.rank + a.credit := step_rank hr hawait
      rw [rank_set ht rfl, hphase]
      simpa [Action.credit, Phase.rank] using hrank
  | conflict hu hphase =>
      cases of_decide_eq_true hown
      cases ht.symm.trans hu
      rw [rank_set ht rfl, hphase]
      exact Nat.le_add_right_of_le (by decide : 1 ≤ 8)
  | goesOn hu hphase _ =>
      cases of_decide_eq_true hown
      cases ht.symm.trans hu
      rw [rank_set ht rfl, hphase]
      exact Nat.le_add_right 8 _
  | goesOnUnready hu hphase _ =>
      cases of_decide_eq_true hown
      cases ht.symm.trans hu
      rw [rank_set ht rfl, hphase]
      exact Nat.le_add_right_of_le (by decide : 1 ≤ 8)
  | _ =>
      cases hown

/-- One of the holder's own steps. -/
def Action.count (i : ℕ) (a : Action β) : ℕ :=
  if a.own i then 1 else 0

/-- The steps of the other requests leave the rank alone; the holder's own use it up. -/
theorem server_rank {s s' : Server β} {a : Action β} {i : ℕ} (hholds : s.Holds i)
    (hs : ServerStep cwd s a s') : s'.rank i + a.count i ≤ s.rank i + a.credit i := by
  rcases hholds with ⟨t, ht, hb⟩
  have hbefore : s.rank i = t.phase.rank := by simp only [Server.rank, ht]
  cases hown : a.own i with
  | false =>
      have hafter : s'.rank i = t.phase.rank := by simp only [Server.rank, other_step hs hown ht]
      simp [Action.count, hown, hbefore, hafter]
  | true =>
      have hrank := own_rank ht hb hown hs
      simpa [Action.count, hown, hbefore] using hrank

/-- With more own steps than its rank and the entries of its archive allow, a holder gives the slot
up on the way. -/
theorem holder_gives_up {s s' : Server β} {as : List (Action β)} {i : ℕ}
    (hreach : (serverMachine cwd).Reachable Registered s) (hholds : s.Holds i)
    (hrun : (serverMachine cwd).run s as = some s')
    (hmany : s.rank i + (as.map (Action.credit i)).sum < (as.map (Action.count i)).sum) :
    ∃ before a after t t', as = before ++ a :: after ∧
      (serverMachine cwd).run s before = some t ∧ t.Holds i ∧ serverStep cwd t a = some t' ∧
      ¬t'.Holds i ∧ t'.status.state.isRunning = false := by
  let P : Server β → Prop := fun t => (serverMachine cwd).Reachable Registered t ∧ t.Holds i
  have hstep : ∀ t a t', P t → (serverMachine cwd).step t a = some t' → P t' →
      t'.rank i + Action.count i a ≤ t.rank i + Action.credit i a := by
    intro t a t' hP hs _
    exact server_rank hP.2 (ServerStep.of_step hs)
  rcases Machine.run_leaves hstep hrun ⟨hreach, hholds⟩ hmany with
    ⟨before, a, after, t, t', has, ht, ⟨hreacht, hholdst⟩, hs, hleft⟩
  have hgone : ¬t'.Holds i := by
    intro hstill
    exact hleft ⟨Machine.Reachable.step hreacht hs, hstill⟩
  have hgives := (holds_step (reachable_slotKept hreacht) hs).gives i hholdst hgone
  exact ⟨before, a, after, t, t', has, ht, hholdst, hs, hgone, hgives.1⟩

/-! ## Runs -/

/-- What the slot promises in a state, for every next step and every run from there. -/
structure SlotGuarded (cwd : List Char) (s : Server β) : Prop where
  one : ∀ i j, s.Holds i → s.Holds j → i = j
  taken : s.status.state.isRunning = true ↔ ∃ i, s.Holds i
  steps : ∀ a s', serverStep cwd s a = some s' → HoldsStep s a s'
  reset : answer s .reset = some .wasReset ↔ ∀ i, ¬s.Holds i
  /-- Other requests change nothing at all: no file is touched, and no task begins. -/
  turnsAway : ∀ i a s', s.Holds i → serverStep cwd s a = some s' →
    (a = .reset ∨ ∃ request stamp, a = .post request stamp ∧ accepts request = true) →
    answer s a = some .restoreInProgress ∧ s' = s
  /-- The holder can always go on, if only by a failure. -/
  goesOn : ∀ i, s.Holds i → ∃ a s', a.own i = true ∧ serverStep cwd s a = some s'
  /-- The slot is free again after finitely many settled calls, however they settle. -/
  givesUp : ∀ i as s', s.Holds i → (serverMachine cwd).run s as = some s' →
    s.rank i + (as.map (Action.credit i)).sum < (as.map (Action.count i)).sum →
    ∃ before a after t t', as = before ++ a :: after ∧
      (serverMachine cwd).run s before = some t ∧ t.Holds i ∧ serverStep cwd t a = some t' ∧
      ¬t'.Holds i ∧ t'.status.state.isRunning = false

end Restore
end SignalKBackup
