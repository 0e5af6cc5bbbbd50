import SignalKBackup.Restore.Extract
import SignalKBackup.Restore.Consent

/-!
# Outside — what host restores never touch

A run writes at its target, below it and at its stash, and makes the directories on the way to the
target; where there are no links, that is all (`step_leaves`).  A target that was typed with `..` is
passed to `mkdir` as it is, which also makes the directories that such a path goes back from: they
are steps of their own here (`Walk.passes`).

Over the routes this holds of any number of requests, one after another or at once, however their
steps interleave with each other and with other processes (`reachable_outside`): a place outside
every target and stash keeps what it had, unless it was free and became a directory on the way of a
target as it is written.  A request that is answered without a run has no part in it.
-/

namespace SignalKBackup
namespace Restore

open Lib
open Posix
open FileTree

variable {β : Type}

/-! ## One run -/

/-- Neither at the target or the stash nor below one of them. -/
structure Outside (ctx : RestoreContext) (q : List Seg) : Prop where
  target : ¬ctx.targetAt <+: q
  safety : ¬ctx.safetyAt <+: q

/-- The place is as it was, or it was free and became a directory on the way to the target. -/
def Leaves (ctx : RestoreContext) (q : List Seg) (fs fs' : FileTree Seg β) : Prop :=
  fs' q = fs q ∨ fs q = none ∧ fs' q = some .dir ∧ q <+: ctx.targetAt

/-- The entry that an await is about has been checked against the target. -/
def Await.Placed (ctx : RestoreContext) (w : Await) : Prop :=
  ∀ dest, w.dest = some dest → ctx.targetAt <+: locate dest ∧ Near ctx (locate (dirname dest))

theorem near_dirname (ctx : RestoreContext) :
    Near ctx (locate (dirname ctx.target.absoluteTarget)) :=
  locate_dirname ctx.target.absoluteTarget

theorem Await.Placed.making {ctx : RestoreContext} {w next : Await} {p : List Seg}
    (h : w.Placed ctx) (hmaking : w.making ctx = some (p, next)) : Near ctx p ∧ next.Placed ctx := by
  cases w with
  | mkdirTarget =>
      cases hmaking
      exact ⟨Or.inl (List.prefix_refl _), nofun⟩
  | mkdirEntry dest =>
      cases hmaking
      exact ⟨Or.inr (h dest rfl).1, nofun⟩
  | mkdirParent dest =>
      cases hmaking
      exact ⟨(h dest rfl).2, h⟩
  | mkdirDirname =>
      cases hmaking
      exact ⟨near_dirname ctx, nofun⟩
  | _ =>
      cases hmaking

theorem Await.Placed.writing {ctx : RestoreContext} {w : Await} {p : List Seg} (h : w.Placed ctx)
    (hwriting : w.writing ctx = some p) : ctx.targetAt <+: p := by
  cases w with
  | writeEntry dest =>
      cases hwriting
      exact (h dest rfl).1
  | writeTarget =>
      cases hwriting
      exact List.prefix_refl _
  | _ =>
      cases hwriting

section Operations

variable {ctx : RestoreContext} {fs : FileTree Seg β} {p q : List Seg}

theorem Outside.mkdirs (h : Outside ctx q) (hp : Near ctx p) : Leaves ctx q fs (fs.mkdirs p) := by
  by_cases hsame : fs.mkdirs p q = fs q
  · exact Or.inl hsame
  · rcases changed_mkdirs hsame with ⟨hq, hnone⟩
    refine Or.inr ⟨hnone, by simp [FileTree.mkdirs, hq, hnone], ?_⟩
    -- on the way to `p`, and not below the target
    rcases hp with hup | hdown
    · exact hq.trans hup
    · exact (List.prefix_or_prefix_of_prefix hq hdown).resolve_right h.target

theorem Outside.put (h : Outside ctx q) (hlinks : NoLinks fs []) (hp : ctx.targetAt <+: p)
    {p' : List Seg} (hopens : opens fs p = some p') (bytes : β) :
    Leaves ctx q fs (fs.put p' (.file bytes)) := by
  have hself : p' = p :=
    Option.some.inj ((follow_of_opens hopens).symm.trans (hlinks.follow 39 List.nil_prefix))
  have hne : q ≠ p' := by
    rintro rfl
    exact h.target (hself ▸ hp)
  exact Or.inl (if_neg hne)

theorem Outside.remove (h : Outside ctx q) (hp : p = ctx.targetAt ∨ p = ctx.safetyAt) :
    Leaves ctx q fs (fs.remove p) := by
  rcases hp with rfl | rfl
  · exact Or.inl (if_neg h.target)
  · exact Or.inl (if_neg h.safety)

theorem Outside.removeSome (h : Outside ctx q) (hp : p = ctx.targetAt ∨ p = ctx.safetyAt)
    (keep : List Seg → Bool) : Leaves ctx q fs (fs.removeSome keep p) := by
  rcases hp with rfl | rfl
  · exact Or.inl (if_neg fun hq => h.target hq.1)
  · exact Or.inl (if_neg fun hq => h.safety hq.1)

/-- The stash is made of the target, and the target of the stash. -/
theorem Outside.move (h : Outside ctx q) {src dst : List Seg}
    (hplaces : src = ctx.targetAt ∧ dst = ctx.safetyAt ∨ src = ctx.safetyAt ∧ dst = ctx.targetAt) :
    Leaves ctx q fs (fs.move src dst) := by
  rcases hplaces with ⟨rfl, rfl⟩ | ⟨rfl, rfl⟩
  · exact Or.inl ((if_neg h.safety).trans (if_neg h.target))
  · exact Or.inl ((if_neg h.target).trans (if_neg h.safety))

end Operations

@[simp] theorem toTarget_fs (isDir : Bool) (s : Run β) : (toTarget isDir s).fs = s.fs := by
  unfold toTarget
  split <;> rfl

@[simp] theorem toRollback_fs (s : Run β) (message : String) : (toRollback s message).fs = s.fs := by
  unfold toRollback
  split <;> rfl

/-- What one step of a run leaves alone. -/
theorem step_leaves {ctx : RestoreContext} {s s' : Run β} {a : Settle β}
    (hplaced : s.await.Placed ctx) (hlinks : NoLinks s.fs []) (hs : step ctx s a = some s')
    {q : List Seg} (hq : Outside ctx q) : Leaves ctx q s.fs s'.fs := by
  cases RunStep.of_step hs with
  | stashed _ _ =>
      exact hq.move (Or.inl ⟨rfl, rfl⟩)
  | rolledBack _ _ =>
      exact hq.move (Or.inr ⟨rfl, rfl⟩)
  | makes hmaking _ =>
      exact hq.mkdirs (hplaced.making hmaking).1
  | makesSome levels message hmaking =>
      exact hq.mkdirs ((hplaced.making hmaking).1.take levels)
  | wroteEntry bytes hawait hopens =>
      exact hq.put hlinks (hplaced _ (by rw [hawait]; rfl)).1 hopens bytes
  | wroteTarget bytes _ hopens =>
      exact hq.put hlinks (List.prefix_refl _) hopens bytes
  | wroteSome bytes message hwriting hopens =>
      exact hq.put hlinks (hplaced.writing hwriting) hopens bytes
  | dropped _ =>
      exact hq.remove (Or.inr rfl)
  | droppedSome keep _ =>
      exact hq.removeSome (Or.inr rfl) keep
  | scrubbed _ =>
      rw [toRollback_fs]
      exact hq.remove (Or.inl rfl)
  | scrubbedSome keep _ =>
      rw [toRollback_fs]
      exact hq.removeSome (Or.inl rfl) keep
  | downloads _ =>
      exact Or.inl (by rw [toTarget_fs])
  | _ =>
      exact Or.inl rfl

theorem step_noLinks {ctx : RestoreContext} {s s' : Run β} {a : Settle β}
    (hlinks : NoLinks s.fs []) (hs : step ctx s a = some s') : NoLinks s'.fs [] := by
  cases RunStep.of_step hs with
  | stashed _ _ =>
      exact hlinks.move _ _
  | rolledBack _ _ =>
      exact hlinks.move _ _
  | makes _ _ =>
      exact hlinks.mkdirs _
  | makesSome levels message _ =>
      exact hlinks.mkdirs _
  | wroteEntry bytes _ _ =>
      exact hlinks.put (by simp)
  | wroteTarget bytes _ _ =>
      exact hlinks.put (by simp)
  | wroteSome bytes message _ _ =>
      exact hlinks.put (by simp)
  | dropped _ =>
      exact hlinks.remove _
  | droppedSome keep _ =>
      exact hlinks.removeSome keep _
  | scrubbed _ =>
      rw [toRollback_fs]
      exact hlinks.remove _
  | scrubbedSome keep _ =>
      rw [toRollback_fs]
      exact hlinks.removeSome keep _
  | downloads _ =>
      rw [toTarget_fs]
      exact hlinks
  | _ =>
      exact hlinks

theorem Await.Placed.of_over {ctx : RestoreContext} {w : Await} (h : w.isOver = true) :
    w.Placed ctx := by
  cases w with
  | mkdirEntry dest =>
      cases h
  | mkdirParent dest =>
      cases h
  | writeEntry dest =>
      cases h
  | _ =>
      exact nofun

theorem step_placed {ctx : RestoreContext} {s s' : Run β} {a : Settle β}
    (hplaced : s.await.Placed ctx) (hs : step ctx s a = some s') : s'.await.Placed ctx := by
  cases RunStep.of_step hs with
  | makes hmaking _ =>
      exact (hplaced.making hmaking).2
  | @entry path dest isDirectory _ hdest =>
      have hloc := zipEntry_location rfl hdest
      have hdir := zipEntry_dirname rfl hdest
      rw [targetAt_resolve] at hloc hdir
      cases isDirectory with
      | true =>
          rintro _ ⟨⟩
          exact ⟨hloc, hdir⟩
      | false =>
          rintro _ ⟨⟩
          exact ⟨hloc, hdir⟩
  | downloads _ =>
      unfold toTarget
      split <;> exact nofun
  | extracted _ =>
      exact .of_over (toCompleted_isOver s)
  | wroteTarget bytes _ _ =>
      exact .of_over (toCompleted_isOver _)
  | scrubbed _ =>
      exact .of_over (toRollback_isOver _ _)
  | scrubbedSome keep _ =>
      exact .of_over (toRollback_isOver _ _)
  | _ =>
      exact nofun

/-! ## Directories that a path goes back from -/

/-- A path that `mkdir` is given as the user has typed it. -/
def Await.typed (ctx : RestoreContext) : Await → Option (List Char)
  | .mkdirTarget => some ctx.target.absoluteTarget
  | .mkdirDirname => some (dirname ctx.target.absoluteTarget)
  | _ => none

inductive Walk (β : Type)
  | acts (a : Action β)
  /-- The `mkdir` that this task awaits makes a directory that its path passes. -/
  | passes (i : ℕ) (p : List Seg)

/-- `mkdir` of a path as it is written: above the directory there is one. -/
def passing (s : Server β) (path : List Char) (p : List Seg) : Option (Server β) :=
  if (waypoints path).contains p && (s.fs p).isNone && makes s.fs p && (s.fs p.dropLast).isSome then
    some { s with fs := s.fs.put p .dir }
  else none

def walk (cwd : List Char) (s : Server β) : Walk β → Option (Server β)
  | .acts a => serverStep cwd s a
  | .passes i p =>
      s.tasks[i]?.bind fun t =>
        match t.phase with
        | .running w => (w.typed t.ctx).bind fun path => passing s path p
        | _ => none

def walkMachine (cwd : List Char) : Machine (Server β) (Walk β) :=
  { step := walk cwd }

/-- The places on the way of the target, as it is written. -/
def OnTheWay (ctx : RestoreContext) (q : List Seg) : Prop :=
  q ∈ waypoints ctx.target.absoluteTarget ∨ q ∈ waypoints (dirname ctx.target.absoluteTarget)

theorem onTheWay_of_prefix {ctx : RestoreContext} {q : List Seg} (h : q <+: ctx.targetAt) :
    OnTheWay ctx q :=
  Or.inl (mem_waypoints h)

theorem Await.typed_onTheWay {ctx : RestoreContext} {w : Await} {path : List Char} {q : List Seg}
    (h : w.typed ctx = some path) (hq : q ∈ waypoints path) : OnTheWay ctx q := by
  cases w with
  | mkdirTarget =>
      cases h
      exact Or.inl hq
  | mkdirDirname =>
      cases h
      exact Or.inr hq
  | _ =>
      cases h

/-- What such a step does. -/
theorem walk_passes {cwd : List Char} {s s' : Server β} {i : ℕ} {p : List Seg}
    (h : walk cwd s (.passes i p) = some s') :
    ∃ t w, s.tasks[i]? = some t ∧ t.phase = .running w ∧ OnTheWay t.ctx p ∧ s.fs p = none ∧
      s' = { s with fs := s.fs.put p .dir } := by
  rcases Option.bind_eq_some_iff.1 h with ⟨t, ht, hrest⟩
  split at hrest
  case h_1 w hphase =>
      rcases Option.bind_eq_some_iff.1 hrest with ⟨path, htyped, hpassing⟩
      unfold passing at hpassing
      rcases Option.ite_some_none_eq_some.1 hpassing with ⟨hcond, hs⟩
      simp only [Bool.and_eq_true, List.contains_iff_mem, Option.isNone_iff_eq_none] at hcond
      exact ⟨t, w, ht, hphase, Await.typed_onTheWay htyped hcond.1.1.1, hcond.1.1.2, hs.symm⟩
  case h_2 =>
      cases hrest

/-! ## The routes -/

/-- The request has got a run. -/
def Task.ran (t : Task β) : Bool :=
  match t.phase with
  | .running _ => true
  | _ => false

/-- Every run that there has been keeps away from the place. -/
def Server.KeepsAway (s : Server β) (q : List Seg) : Prop :=
  ∀ t ∈ s.tasks, t.ran = true → Outside t.ctx q

/-- A run has the place on the way of its target. -/
def Server.Passes (s : Server β) (q : List Seg) : Prop :=
  ∃ t ∈ s.tasks, t.ran = true ∧ OnTheWay t.ctx q

/-- Every run of before is still among the tasks. -/
def Continues (s s' : Server β) : Prop :=
  ∀ t ∈ s.tasks, t.ran = true → ∃ t' ∈ s'.tasks, t'.ran = true ∧ t'.ctx = t.ctx

theorem Continues.of_append {s s' : Server β} {t : Task β} (htasks : s'.tasks = s.tasks ++ [t]) :
    Continues s s' := by
  intro u hu hran
  refine ⟨u, ?_, hran, rfl⟩
  rw [htasks]
  exact List.mem_append_left _ hu

theorem Continues.of_set {s s' : Server β} {i : ℕ} {t t' : Task β} (ht : s.tasks[i]? = some t)
    (htasks : s'.tasks = s.tasks.set i t') (hctx : t'.ctx = t.ctx)
    (hran : t.ran = true → t'.ran = true) : Continues s s' := by
  intro u hu huran
  rcases List.mem_iff_getElem?.1 hu with ⟨j, hj⟩
  by_cases hji : j = i
  · subst hji
    have hut : u = t := Option.some.inj (hj.symm.trans ht)
    subst hut
    rcases List.getElem?_eq_some_iff.1 ht with ⟨hlt, _⟩
    refine ⟨t', ?_, hran huran, hctx⟩
    rw [htasks]
    exact List.mem_set hlt t'
  · refine ⟨u, ?_, huran, rfl⟩
    rw [htasks]
    exact List.mem_iff_getElem?.2 ⟨j, by rw [List.getElem?_set_ne (Ne.symm hji), hj]⟩

section Place

variable {s s' : Server β} {q : List Seg} {content : Option (Node Seg β)}

theorem Server.KeepsAway.before (h : s'.KeepsAway q) (hcont : Continues s s') : s.KeepsAway q := by
  intro t ht hran
  rcases hcont t ht hran with ⟨t', ht', hran', hctx⟩
  exact hctx ▸ h t' ht' hran'

theorem Server.Passes.after (h : s.Passes q) (hcont : Continues s s') : s'.Passes q := by
  rcases h with ⟨t, ht, hran, hpre⟩
  rcases hcont t ht hran with ⟨t', ht', hran', hctx⟩
  exact ⟨t', ht', hran', hctx ▸ hpre⟩

/-- The place has its content still, or it was free and is a directory on the way of a target. -/
def Server.Has (s : Server β) (q : List Seg) (content : Option (Node Seg β)) : Prop :=
  s.fs q = content ∨ content = none ∧ s.fs q = some .dir ∧ s.Passes q

structure Framed (q : List Seg) (content : Option (Node Seg β)) (s : Server β) : Prop where
  noLinks : NoLinks s.fs []
  placed : ∀ t ∈ s.tasks, ∀ w, t.phase = .running w → w.Placed t.ctx
  has : s.KeepsAway q → s.Has q content

theorem Framed.goes (h : Framed q content s) (hfs : s'.fs = s.fs) (hcont : Continues s s')
    (hplaced : ∀ t ∈ s'.tasks, ∀ w, t.phase = .running w → w.Placed t.ctx) :
    Framed q content s' := by
  refine ⟨hfs ▸ h.noLinks, hplaced, fun haway => ?_⟩
  rcases h.has (haway.before hcont) with hsame | ⟨hnone, hdir, hpasses⟩
  · exact Or.inl (hfs ▸ hsame)
  · exact Or.inr ⟨hnone, hfs ▸ hdir, hpasses.after hcont⟩

theorem Framed.append (h : Framed q content s) {t : Task β} (hfs : s'.fs = s.fs)
    (htasks : s'.tasks = s.tasks ++ [t]) (hplaced : ∀ w, t.phase = .running w → w.Placed t.ctx) :
    Framed q content s' := by
  refine h.goes hfs (.of_append htasks) fun u hu => ?_
  rw [htasks] at hu
  rcases List.mem_append.1 hu with hold | hnew
  · exact h.placed u hold
  · exact List.mem_singleton.1 hnew ▸ hplaced

/-- A task goes on that has no run yet. -/
theorem Framed.set (h : Framed q content s) {i : ℕ} {t t' : Task β} (ht : s.tasks[i]? = some t)
    (hfs : s'.fs = s.fs) (htasks : s'.tasks = s.tasks.set i t') (hctx : t'.ctx = t.ctx)
    (hran : t.ran = false) (hplaced : ∀ w, t'.phase = .running w → w.Placed t'.ctx) :
    Framed q content s' := by
  refine h.goes hfs (.of_set ht htasks hctx fun hyes => ?_) fun u hu => ?_
  · rw [hran] at hyes
    cases hyes
  · rw [htasks] at hu
    rcases List.mem_or_eq_of_mem_set hu with hold | rfl
    · exact h.placed u hold
    · exact hplaced

/-- A run goes on. -/
theorem Framed.run (h : Framed q content s) {i : ℕ} {t : Task β} {w : Await} {a : Settle β}
    {r : Run β} (ht : s.tasks[i]? = some t) (hphase : t.phase = .running w)
    (hr : step t.ctx (t.run s w) a = some r) : Framed q content (s.putRun i t r) := by
  have hplaced := h.placed t (List.mem_iff_getElem?.2 ⟨i, ht⟩) w hphase
  have hcont : Continues s (s.putRun i t r) := .of_set ht rfl rfl fun _ => rfl
  refine ⟨step_noLinks (s := t.run s w) h.noLinks hr, fun u hu => ?_, fun haway => ?_⟩
  · rcases List.mem_or_eq_of_mem_set hu with hold | rfl
    · exact h.placed u hold
    · rintro _ ⟨⟩
      exact step_placed (s := t.run s w) hplaced hr
  · -- the task itself is among those that keep away
    have hmem : t.putRun r ∈ (s.putRun i t r).tasks :=
      List.mem_iff_getElem?.2 ⟨i, putRun_getElem? ht r⟩
    have hout : Outside t.ctx q := haway (t.putRun r) hmem rfl
    have hleaves : Leaves t.ctx q s.fs r.fs :=
      step_leaves (s := t.run s w) hplaced h.noLinks hr hout
    rcases h.has (haway.before hcont) with hsame | ⟨hnone, hdir, hpasses⟩
    · rcases hleaves with hkept | ⟨hfree, hmade, hpre⟩
      · exact Or.inl (hkept.trans hsame)
      · exact Or.inr ⟨hsame.symm.trans hfree, hmade, t.putRun r, hmem, rfl, onTheWay_of_prefix hpre⟩
    · rcases hleaves with hkept | ⟨hfree, _, _⟩
      · exact Or.inr ⟨hnone, hkept.trans hdir, hpasses.after hcont⟩
      · rw [hdir] at hfree
        cases hfree

/-- A `mkdir` makes a directory that its path passes. -/
theorem Framed.passes (h : Framed q content s) {i : ℕ} {t : Task β} {w : Await} {p : List Seg}
    (ht : s.tasks[i]? = some t) (hphase : t.phase = .running w) (hway : OnTheWay t.ctx p)
    (hfree : s.fs p = none) : Framed q content { s with fs := s.fs.put p .dir } := by
  have hmem : t ∈ s.tasks := List.mem_iff_getElem?.2 ⟨i, ht⟩
  have hran : t.ran = true := by simp [Task.ran, hphase]
  refine ⟨h.noLinks.put (by simp), h.placed, fun haway => ?_⟩
  by_cases hq : q = p
  · subst hq
    have hmade : s.fs.put q .dir q = some .dir := by simp [FileTree.put]
    rcases h.has haway with hsame | ⟨_, hdir, _⟩
    · exact Or.inr ⟨hsame.symm.trans hfree, hmade, t, hmem, hran, hway⟩
    · rw [hfree] at hdir
      cases hdir
  · have hkept : s.fs.put p .dir q = s.fs q := if_neg hq
    rcases h.has haway with hsame | ⟨hnone, hdir, hpasses⟩
    · exact Or.inl (hkept.trans hsame)
    · exact Or.inr ⟨hnone, hkept.trans hdir, hpasses⟩

end Place

/-- Other processes make no links, and they leave the place alone. -/
def Elsewhere (q : List Seg) (s : Server β) : Walk β → Prop
  | .acts (.others fs) => fs q = s.fs q ∧ NoLinks fs []
  | _ => True

theorem framed_step {cwd : List Char} {s s' : Server β} {a : Action β} {q : List Seg}
    {content : Option (Node Seg β)} (h : Framed q content s) (hother : Elsewhere q s (.acts a))
    (hs : serverStep cwd s a = some s') : Framed q content s' := by
  cases ServerStep.of_step hs with
  | refused _ _ =>
      exact h
  | resetRefused _ =>
      exact h
  | status =>
      exact h
  | reset _ =>
      exact h.goes rfl (fun t ht hran => ⟨t, ht, hran, rfl⟩) h.placed
  | upstream ready =>
      exact h.goes rfl (fun t ht hran => ⟨t, ht, hran, rfl⟩) h.placed
  | probes _ _ =>
      exact h.append rfl rfl nofun
  | begins _ _ =>
      refine h.append rfl rfl ?_
      rintro _ ⟨⟩
      exact nofun
  | unready _ =>
      exact h.append rfl rfl nofun
  | probe existing ht hphase _ =>
      exact h.set ht rfl rfl rfl (by simp [Task.ran, hphase]) nofun
  | conflict ht hphase =>
      exact h.set ht rfl rfl rfl (by simp [Task.ran, hphase]) nofun
  | goesOn ht hphase _ =>
      refine h.set ht rfl rfl rfl (by simp [Task.ran, hphase]) ?_
      rintro _ ⟨⟩
      exact nofun
  | goesOnUnready ht hphase _ =>
      exact h.set ht rfl rfl rfl (by simp [Task.ran, hphase]) nofun
  | run ht hphase hr =>
      exact h.run ht hphase hr
  | others fs =>
      refine ⟨hother.2, h.placed, fun haway => ?_⟩
      rcases h.has haway with hsame | ⟨hnone, hdir, hpasses⟩
      · exact Or.inl (hother.1.trans hsame)
      · exact Or.inr ⟨hnone, hother.1.trans hdir, hpasses⟩

theorem framed_walk {cwd : List Char} {s s' : Server β} {e : Walk β} {q : List Seg}
    {content : Option (Node Seg β)} (h : Framed q content s) (hother : Elsewhere q s e)
    (hs : walk cwd s e = some s') : Framed q content s' := by
  cases e with
  | acts a =>
      exact framed_step h hother hs
  | passes i p =>
      rcases walk_passes hs with ⟨t, w, ht, hphase, hway, hfree, rfl⟩
      exact h.passes ht hphase hway hfree

/-- The routes have been registered over files without links, and the place has this content. -/
def RegisteredOver (q : List Seg) (content : Option (Node Seg β)) (s : Server β) : Prop :=
  Registered s ∧ NoLinks s.fs [] ∧ s.fs q = content

/-- A place outside the target and the stash of every run keeps what it had, whatever the requests
and however their runs come out; where nothing was, a directory on the way of a target may be. -/
theorem reachable_outside {cwd : List Char} {s : Server β} {q : List Seg}
    {content : Option (Node Seg β)}
    (h : (walkMachine cwd).ReachableUnder (Elsewhere q) (RegisteredOver q content) s)
    (haway : s.KeepsAway q) : s.Has q content := by
  have hframed : Framed q content s := by
    refine h.invariant ?_ fun s e s' hs hother hstep => framed_walk hs hother hstep
    rintro s ⟨⟨fs, upstream, rfl⟩, hlinks, hcontent⟩
    exact ⟨hlinks, nofun, fun _ => Or.inl hcontent⟩
  exact hframed.has haway

/-- A file restore into a directory that is missing, by a path that goes back from another one. -/
def chartsRun : List (Walk Nat) :=
  [.acts (.post { chartRequest with customPath := "/d/old/../charts/chart.db".toList } newYear),
    .acts (.settle 0 (.fails "ENOENT")), .acts (.resume 0), .acts (.settle 0 (.fails "ENOENT")),
    .acts (.settle 0 (.response true 200 true)), .passes 0 ["d".toList, "old".toList],
    .acts (.settle 0 .ok), .acts (.settle 0 (.wroteSome 7 "ENOSPC")), .acts (.settle 0 .ok)]

theorem emptyDir_noLinks : NoLinks emptyDir [] := by
  intro x _ dest
  unfold emptyDir
  split <;> simp

/-- The write fails; both directories that were made for it stay. -/
theorem reachable_outside_charts :
    ∃ s, (walkMachine ['/']).run registered chartsRun = some s ∧
      s.status.state = .failed ∧ s.fs ["d".toList, "charts".toList] = some .dir ∧
      s.fs ["d".toList, "old".toList] = some .dir ∧ s.Has ["d".toList, "old".toList] none := by
  obtain ⟨s, hs⟩ : ∃ s, (walkMachine ['/']).run registered chartsRun = some s := ⟨_, rfl⟩
  have hmeets : (walkMachine ['/']).Meets (Elsewhere ["d".toList, "old".toList]) registered
      chartsRun :=
    .of_forall (by simp [chartsRun, Elsewhere]) registered
  have hreach := Machine.ReachableUnder.run
    (I := RegisteredOver ["d".toList, "old".toList] none)
    (.init ⟨⟨_, _, rfl⟩, emptyDir_noLinks, by decide⟩) hmeets hs
  refine ⟨s, hs, ?_, ?_, ?_, reachable_outside hreach ?_⟩
  · cases hs
    rfl
  · cases hs
    decide +kernel
  · cases hs
    decide +kernel
  · cases hs
    intro t ht _
    rw [List.mem_singleton.1 ht]
    exact ⟨by decide +kernel, by decide +kernel⟩

end Restore
end SignalKBackup
