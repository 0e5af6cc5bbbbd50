import SignalKBackup.Export.Confined

/-!
# Apart — calls that leave a place alone

* `Apart` is the frame condition of a call, and `Effect.apart` the frame: a step of a call that is apart
  from a place leaves it as it was.
* `Own` says which places below a staging directory belong to an item of it, that is a table or a
  section: those under its name, up to a dot.  `owned` is the protocol of an item, whose calls are apart
  from the places of the others (`apart_of_owned`).
-/

namespace SignalKBackup
namespace Export

open Lib
open Posix
open FileTree

variable {β : Type} {cwd : List Char} {root p q : List Seg}

/-! ## Frames -/

/-- The call leaves a place alone. -/
def Apart (cwd : List Char) (p : List Seg) : Op β → Prop
  | .mkdir path => ¬p <+: place cwd path
  | .rm path => Disjoint (place cwd path) p
  | .unlink path => Disjoint (place cwd path) p
  | .write path _ => Disjoint (place cwd path) p
  | .rename src dst => Disjoint (place cwd src) p ∧ Disjoint (place cwd dst) p
  | _ => True

/-- Without links a stream is open on the file itself. -/
theorem opens_self {fs : FileTree Seg β} (hlinks : NoLinks fs []) {p q : List Seg}
    (h : Restore.opens fs p = some q) : q = p :=
  Option.some.inj ((Restore.follow_of_opens h).symm.trans (hlinks.follow 39 List.nil_prefix))

theorem Effect.apart {fs fs' : FileTree Seg β} {op : Op β} (h : Effect cwd fs op fs')
    (hlinks : NoLinks fs []) (hop : Apart cwd p op) : fs' p = fs p := by
  cases h with
  | same =>
      rfl
  | mkdirs hq =>
      have hnot : ¬p <+: _ := fun hp => hop (hp.trans hq)
      simp [FileTree.mkdirs, hnot]
  | rm hq =>
      -- below the path, so not on the way to `p` either
      rw [FileTree.remove, if_neg fun hp => hop.1 (hq.trans hp)]
  | unlinks =>
      rw [FileTree.remove, if_neg hop.1]
  | renames hrename =>
      exact rename_apart hrename hop.1 hop.2
  | puts bytes hopens =>
      rw [FileTree.put, if_neg (opens_self hlinks hopens ▸ FileTree.Disjoint.ne hop)]

/-- A rename settles at once. -/
theorem rename_settles {src dst : List Char} {d : Disk β} {o : Outcome β} {d' : Disk β}
    {r : Option (Res (.rename src dst : Op β))} (h : settle cwd d (.rename src dst) o = some (d', r)) :
    (∃ fs, r = some (.ok ()) ∧ d.fs.rename (place cwd src) (place cwd dst) = some fs ∧
      d' = { d with fs }) ∨ ∃ e, r = some (.error e) ∧ d' = d := by
  cases o with
  | resolves =>
      rcases Option.map_eq_some_iff.1 h with ⟨fs, hfs, heq⟩
      cases heq
      exact Or.inl ⟨fs, rfl, hfs, rfl⟩
  | rejects message =>
      cases h
      exact Or.inr ⟨message, rfl, rfl⟩
  | _ =>
      cases h

/-- A write that has settled: the whole body is in the file that was opened, or nothing happened. -/
theorem write_settles {path : List Char} {body : β} {d : Disk β} {o : Outcome β} {d' : Disk β}
    {x : Except String Unit} (h : settle cwd d (.write path body) o = some (d', some x)) :
    (∃ q, x = .ok () ∧ Restore.opens d.fs (place cwd path) = some q ∧ d'.fs = d.fs.put q (.file body)) ∨
      ∃ e, x = .error e ∧ d' = d := by
  cases o with
  | resolves =>
      simp only [settle, Disk.write, Option.map_map] at h
      rcases Option.map_eq_some_iff.1 h with ⟨q, hq, heq⟩
      cases heq
      exact Or.inl ⟨q, rfl, hq, rfl⟩
  | rejects message =>
      cases h
      exact Or.inr ⟨message, rfl, rfl⟩
  -- half a write does not settle
  | holds bytes =>
      rcases Option.map_eq_some_iff.1 h with ⟨q, _, heq⟩
      cases heq
  | _ =>
      cases h

theorem mkdir_settles {path : List Char} {d : Disk β} {o : Outcome β} {d' : Disk β}
    {x : Except String Unit} (h : settle cwd d (.mkdir path : Op β) o = some (d', some x)) :
    (x = .ok () ∧ Restore.makes d.fs (place cwd path) = true ∧ d'.fs = d.fs.mkdirs (place cwd path)) ∨
      ∃ e, x = .error e ∧ d' = d := by
  cases o with
  | resolves =>
      simp only [settle] at h
      split at h
      case isTrue hmakes =>
          cases h
          exact Or.inl ⟨rfl, hmakes, rfl⟩
      case isFalse =>
          cases h
  | made q =>
      simp only [settle] at h
      split at h
      · cases h
      · cases h
  | rejects message =>
      cases h
      exact Or.inr ⟨message, rfl, rfl⟩
  | _ =>
      cases h

theorem rm_settles {path : List Char} {d : Disk β} {o : Outcome β} {d' : Disk β}
    {x : Except String Unit} (h : settle cwd d (.rm path : Op β) o = some (d', some x)) :
    (x = .ok () ∧ d'.fs = d.fs.remove (place cwd path)) ∨ ∃ e, x = .error e ∧ d' = d := by
  cases o with
  | resolves =>
      cases h
      exact Or.inl ⟨rfl, rfl⟩
  | removed q =>
      simp only [settle] at h
      split at h
      · cases h
      · cases h
  | rejects message =>
      cases h
      exact Or.inr ⟨message, rfl, rfl⟩
  | _ =>
      cases h

/-- A call is apart from a place when all its paths are. -/
theorem apart_of_disjoint {op : Op β} (h : ∀ path ∈ op.paths, Disjoint (place cwd path) p) :
    Apart cwd p op := by
  cases op with
  | mkdir path =>
      exact (h path (by simp [Op.paths])).2
  | rename src dst =>
      exact ⟨h src (by simp [Op.paths]), h dst (by simp [Op.paths])⟩
  | rm path =>
      exact h path (by simp [Op.paths])
  | unlink path =>
      exact h path (by simp [Op.paths])
  | write path body =>
      exact h path (by simp [Op.paths])
  | _ =>
      trivial

/-- What a call does below one directory leaves alone what is below another. -/
theorem apart_of_confined {op : Op β} (hapart : Disjoint root q) (hp : q <+: p)
    (hop : (confined cwd root).allowed () op) : Apart cwd p op := by
  refine apart_of_disjoint fun path hmem => ?_
  rcases hop.1 path hmem with ⟨x, hx⟩
  rcases hp with ⟨y, rfl⟩
  refine ⟨fun hpre => ?_, fun hpre => ?_⟩
  · rw [← hx] at hpre
    exact hapart.not_prefix ((List.prefix_append root x).trans hpre) (List.prefix_append q y)
  · rw [← hx] at hpre
    exact hapart.symm.not_prefix ((List.prefix_append q y).trans hpre) (List.prefix_append root x)

/-! ## The items of a staging directory -/

/-- The places that belong to an item: the name below the root is the item's, up to a dot. -/
def Own (root : List Seg) (item : List Char) (p : List Seg) : Prop :=
  ∃ name below, p = root ++ name :: below ∧ name.takeWhile (· != '.') = item

/-- The calls keep to the places of an item. -/
def owned (cwd : List Char) (root : List Seg) (item : List Char) : Protocol (Op β) Res Unit where
  allowed _ op := ∀ path ∈ op.paths, Own root item (place cwd path)
  after _ _ _ := ()

variable {item other : List Char}

theorem takeWhile_dot (h : '.' ∉ item) (rest : List Char) :
    (item ++ '.' :: rest).takeWhile (· != '.') = item := by
  have hall : ∀ c ∈ item, (c != '.') = true := by
    intro c hc
    simp only [bne_iff_ne]
    rintro rfl
    exact h hc
  rw [List.takeWhile_append_of_pos hall, List.takeWhile_cons_of_neg (by simp), List.append_nil]

theorem takeWhile_noDot (h : '.' ∉ item) : item.takeWhile (· != '.') = item := by
  refine List.takeWhile_eq_self_iff.2 fun c hc => ?_
  simp only [bne_iff_ne]
  rintro rfl
  exact h hc

theorem Own.disjoint (hne : item ≠ other) (hp : Own root item p) (hq : Own root other q) :
    Disjoint p q := by
  rcases hp with ⟨a, x, rfl, ha⟩
  rcases hq with ⟨b, y, rfl, hb⟩
  refine (Disjoint.names ?_ x y).below root
  rintro rfl
  exact hne (ha.symm.trans hb)

theorem apart_of_owned (hne : other ≠ item) (hp : Own root other p) {op : Op β}
    (hop : (owned cwd root item).allowed () op) : Apart cwd p op :=
  apart_of_disjoint fun path hmem => (hp.disjoint hne (hop path hmem)).symm

/-! ## Calls that keep to an item -/

open Protocol (Allowed)

theorem quiet_owned {op : Op β} (h : op.paths = []) (s : Unit) : (owned cwd root item).allowed s op := by
  intro path hmem
  rw [h] at hmem
  cases hmem

theorem path_owned {op : Op β} {path : List Char} (hop : op.paths = [path])
    (h : Own root item (place cwd path)) (s : Unit) : (owned cwd root item).allowed s op := by
  intro p hmem
  rw [hop, List.mem_singleton] at hmem
  exact hmem ▸ h

theorem existsSync_owned {path : List Char} (h : Own root item (place cwd path)) :
    (owned cwd root item).Allowed (existsSync path : Async β Bool).run :=
  fun s => ⟨path_owned rfl h s, fun _ => trivial⟩

theorem rename_owned {src dst : List Char} (hsrc : Own root item (place cwd src))
    (hdst : Own root item (place cwd dst)) :
    (owned cwd root item).Allowed (rename src dst : Async β Unit).run := by
  refine .perform fun _ p hp => ?_
  rcases List.mem_cons.1 hp with rfl | hp
  · exact hsrc
  · exact List.mem_singleton.1 hp ▸ hdst

theorem unlinkQuietly_owned {path : List Char} (h : Own root item (place cwd path)) :
    (owned cwd root item).Allowed (unlinkQuietly path : Async β Unit).run :=
  .catches (.perform (path_owned rfl h)) fun _ => .returns _

theorem cleanUp_owned {α : Type} {path : List Char} (h : Own root item (place cwd path)) (err : String) :
    (owned cwd root item).Allowed (do unlinkQuietly path; throw err : Async β α).run :=
  .andThen (unlinkQuietly_owned h) fun _ => .throws err

end Export
end SignalKBackup
