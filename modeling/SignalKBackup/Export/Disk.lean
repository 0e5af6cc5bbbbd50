import SignalKBackup.Lib.Json
import SignalKBackup.Lib.Program
import SignalKBackup.Restore.Run

/-!
# Disk — the calls of an exporter, and what they do to the staging tree

An exporter is a program of awaited calls: requests to the source plugin, and operations on files.
How a call settles is up to the environment, and a call that takes its time (`mkdir`, `rm`, a write)
changes the disk step by step before it settles or fails.  A rename is one step, and a write resolves
with the whole body in the file.

* `Whole`: every file whose name does not end in `.partial` holds the body of one write.
* `atomic` is the protocol that keeps it so: writes go to `.partial` names only, and such a name is
  renamed right after its write has resolved.
* `Change.whole`: a call that the protocol allows keeps the disk whole, at each of its steps.
-/

namespace SignalKBackup
namespace Export

open Lib
open Posix
open FileTree
open Restore (makes opens follow_of_opens)

/-! ## Calls -/

/-- A request, by its route and parameters. -/
inductive Request
  | tables
  | shard (table : List Char) (start stop : ℤ)
  | grafanaDb
  | dashboards
  | dashboard (name : List Char)
  | provisioning
  | provisioningFile (relPath : List Char)
  | databases
  | database (id : List Char)

/-- A response, with the whole of the body it streams. -/
structure Response (β : Type) where
  status : ℕ
  body : Option β

def Response.ok {β : Type} (res : Response β) : Bool :=
  200 ≤ res.status && res.status ≤ 299

inductive Op (β : Type)
  | now
  | existsSync (path : List Char)
  | readFile (path : List Char)
  | fetch (request : Request)
  | text
  | json
  | mkdir (path : List Char)
  | rm (path : List Char)
  | unlink (path : List Char)
  | rename (src dst : List Char)
  /-- `createWriteStream` and `pipeline`, or `writeFile`. -/
  | write (path : List Char) (body : β)

variable {β : Type}

@[reducible] def Res : Op β → Type
  | .now => ℤ
  | .existsSync _ => Bool
  | .readFile _ => Except String β
  | .fetch _ => Except String (Response β)
  | .text => Except String (List Char)
  | .json => Except String Json
  | .mkdir _ => Except String Unit
  | .rm _ => Except String Unit
  | .unlink _ => Except String Unit
  | .rename _ _ => Except String Unit
  | .write _ _ => Except String Unit

/-- What the environment does to the call that is waited for. -/
inductive Outcome (β : Type)
  | resolves
  | rejects (message : String)
  | clock (t : ℤ)
  | responds (res : Response β)
  | reads (text : List Char)
  | parses (json : Json)
  /-- `mkdir` has got as far as here. -/
  | made (path : List Seg)
  /-- `rm` has removed the entry here. -/
  | removed (path : List Seg)
  /-- The file that is written holds these bytes for now. -/
  | holds (bytes : β)

/-! ## The disk -/

structure Disk (β : Type) where
  fs : FileTree Seg β
  /-- The writes that have resolved: the file, and the whole body. -/
  written : List (List Seg × β)

/-- The location of a path string, from the working directory on when it is relative. -/
def place (cwd path : List Char) : List Seg :=
  locate (if isAbsolute path then path else cwd ++ '/' :: path)

def Disk.write (d : Disk β) (p : List Seg) (body : β) : Option (Disk β) :=
  (opens d.fs p).map fun q =>
    { fs := d.fs.put q (.file body), written := d.written ++ [(p, body)] }

/-- The disk after a step of a call, and its result when it has settled. -/
def settle (cwd : List Char) (d : Disk β) :
    (op : Op β) → Outcome β → Option (Disk β × Option (Res op))
  | .now, .clock t => some (d, some t)
  | .existsSync path, .resolves => some (d, some (d.fs (place cwd path)).isSome)
  | .readFile path, .resolves =>
      match d.fs (place cwd path) with
      | some (.file bytes) => some (d, some (.ok bytes))
      | _ => none
  | .readFile _, .rejects message => some (d, some (.error message))
  | .fetch _, .responds res => some (d, some (.ok res))
  | .fetch _, .rejects message => some (d, some (.error message))
  | .text, .reads text => some (d, some (.ok text))
  | .text, .rejects message => some (d, some (.error message))
  | .json, .parses json => some (d, some (.ok json))
  | .json, .rejects message => some (d, some (.error message))
  | .mkdir path, .made q =>
      if q <+: place cwd path ∧ makes d.fs q = true then
        some ({ d with fs := d.fs.mkdirs q }, none)
      else none
  | .mkdir path, .resolves =>
      if makes d.fs (place cwd path) then
        some ({ d with fs := d.fs.mkdirs (place cwd path) }, some (.ok ()))
      else none
  | .mkdir _, .rejects message => some (d, some (.error message))
  | .rm path, .removed q =>
      if place cwd path <+: q then some ({ d with fs := d.fs.remove q }, none) else none
  | .rm path, .resolves => some ({ d with fs := d.fs.remove (place cwd path) }, some (.ok ()))
  | .rm _, .rejects message => some (d, some (.error message))
  | .unlink path, .resolves =>
      match d.fs (place cwd path) with
      | some (.file _) => some ({ d with fs := d.fs.remove (place cwd path) }, some (.ok ()))
      | _ => none
  | .unlink _, .rejects message => some (d, some (.error message))
  | .rename src dst, .resolves =>
      (d.fs.rename (place cwd src) (place cwd dst)).map fun fs => ({ d with fs }, some (.ok ()))
  | .rename _ _, .rejects message => some (d, some (.error message))
  | .write path _, .holds bytes =>
      (opens d.fs (place cwd path)).map fun q => ({ d with fs := d.fs.put q (.file bytes) }, none)
  | .write path body, .resolves =>
      (d.write (place cwd path) body).map fun d => (d, some (.ok ()))
  | .write _ _, .rejects message => some (d, some (.error message))
  | _, _ => none

/-! ## Whole files -/

def PARTIAL : Seg := ".partial".toList

def LEGACY : Seg := ".legacy".toList

/-- The last name ends in `.partial`. -/
def IsPartial (p : List Seg) : Prop :=
  ∃ dir s, p = dir ++ [s ++ PARTIAL]

/-- The bytes are the body of one write, renamed to this place, or moved aside after that. -/
inductive Complete (written : List (List Seg × β)) : List Seg → β → Prop
  | renamed {dir : List Seg} {s : Seg} {bytes : β} :
      (dir ++ [s ++ PARTIAL], bytes) ∈ written → Complete written (dir ++ [s]) bytes
  | movedAside {dir below : List Seg} {s : Seg} {bytes : β} :
      Complete written (dir ++ s :: below) bytes →
        Complete written (dir ++ (s ++ LEGACY) :: below) bytes

/-- No link is in the tree, and every file that is not `.partial` holds the body of one write. -/
structure Whole (d : Disk β) : Prop where
  noLinks : NoLinks d.fs []
  complete : ∀ p bytes, d.fs p = some (.file bytes) → IsPartial p ∨ Complete d.written p bytes

/-! ## The protocol -/

/-- The `.partial` file that was written last, with its body; `none` once another call was made. -/
abbrev LastWrite (β : Type) := Option (List Seg × β)

/-- The renames that are allowed: of the file that was just written, of a file moved aside, and those
onto a directory on the way, which fail. -/
inductive Renames (last : LastWrite β) : List Seg → List Seg → Prop
  | finish {dir : List Seg} {s : Seg} {bytes : β} :
      last = some (dir ++ [s ++ PARTIAL], bytes) → Renames last (dir ++ [s ++ PARTIAL]) (dir ++ [s])
  | moveAside {dir : List Seg} {s : Seg} :
      ¬PARTIAL <:+ s → Renames last (dir ++ [s]) (dir ++ [s ++ LEGACY])
  | refused {src dst : List Seg} : dst <+: src → Renames last src dst

def atomic (cwd : List Char) : Protocol (Op β) Res (LastWrite β) where
  allowed
    | last, .rename src dst => Renames last (place cwd src) (place cwd dst)
    | _, .write path _ => IsPartial (place cwd path)
    | _, _ => True
  after
    | _, .write path body, .ok _ => some (place cwd path, body)
    | _, _, _ => none

/-- The file that was written last is still there. -/
def Kept (last : LastWrite β) (d : Disk β) : Prop :=
  ∀ p bytes, last = some (p, bytes) → d.fs p = some (.file bytes) ∧ (p, bytes) ∈ d.written

theorem kept_none (d : Disk β) : Kept none d := by
  rintro p bytes h
  cases h

/-! ## Names -/

theorem isPartial_iff_suffix {dir : List Seg} {s : Seg} :
    IsPartial (dir ++ [s]) ↔ PARTIAL <:+ s := by
  constructor
  · rintro ⟨dir', t, h⟩
    have hs : s = t ++ PARTIAL := by simpa using (List.append_inj' h rfl).2
    exact ⟨t, hs.symm⟩
  · rintro ⟨t, rfl⟩
    exact ⟨dir, t, rfl⟩

/-- Below a directory the last name does not depend on where the directory is. -/
theorem isPartial_append {p q : List Seg} {s : Seg} (below : List Seg) :
    IsPartial (p ++ s :: below) ↔ IsPartial (q ++ s :: below) := by
  rcases List.eq_nil_or_concat below with rfl | ⟨init, t, rfl⟩
  · rw [isPartial_iff_suffix, isPartial_iff_suffix]
  · have hsplit : ∀ r : List Seg, r ++ s :: init.concat t = (r ++ s :: init) ++ [t] := by simp
    rw [hsplit p, hsplit q, isPartial_iff_suffix, isPartial_iff_suffix]

/-- A name that ends in another letter. -/
theorem not_partial_suffix (s : Seg) {w : Seg} {c : Char} (hw : w.getLast? = some c) (hc : 'l' ≠ c) :
    ¬PARTIAL <:+ s ++ w := by
  rintro ⟨t, h⟩
  have hlast := congrArg List.getLast? h
  have hleft : (t ++ PARTIAL).getLast? = some 'l' := by
    rw [List.getLast?_append]
    rfl
  have hright : (s ++ w).getLast? = some c := by
    rw [List.getLast?_append, hw]
    rfl
  rw [hleft, hright] at hlast
  exact hc (Option.some.inj hlast)

/-! ## What a call leaves whole -/

theorem Complete.mono {written written' : List (List Seg × β)} (hsub : written ⊆ written')
    {p : List Seg} {bytes : β} (h : Complete written p bytes) : Complete written' p bytes := by
  induction h with
  | renamed hmem =>
      exact .renamed (hsub hmem)
  | movedAside _ ih =>
      exact .movedAside ih

section Operations

variable {d : Disk β} {fs : FileTree Seg β}

/-- Where every file was there before, or is `.partial`, or complete. -/
theorem Whole.of_files (h : Whole d) {written : List (List Seg × β)} (hlinks : NoLinks fs [])
    (hsub : d.written ⊆ written)
    (hfiles : ∀ p bytes, fs p = some (.file bytes) →
      d.fs p = some (.file bytes) ∨ IsPartial p ∨ Complete written p bytes) :
    Whole { fs, written } := by
  refine ⟨hlinks, fun p bytes hp => ?_⟩
  rcases hfiles p bytes hp with hold | hnew
  · rcases h.complete p bytes hold with hpartial | hcomplete
    · exact Or.inl hpartial
    · exact Or.inr (hcomplete.mono hsub)
  · exact hnew

theorem Whole.mkdirs (h : Whole d) (p : List Seg) : Whole { d with fs := d.fs.mkdirs p } := by
  refine h.of_files (h.noLinks.mkdirs p) (List.Subset.refl _) fun q bytes hq => Or.inl ?_
  simp only [FileTree.mkdirs] at hq
  split at hq
  · cases hq
  · exact hq

theorem Whole.remove (h : Whole d) (p : List Seg) : Whole { d with fs := d.fs.remove p } := by
  refine h.of_files (h.noLinks.remove p) (List.Subset.refl _) fun q bytes hq => Or.inl ?_
  simp only [FileTree.remove] at hq
  split at hq
  · cases hq
  · exact hq

theorem Whole.put (h : Whole d) {p : List Seg} (hp : IsPartial p) (bytes : β)
    {written : List (List Seg × β)} (hsub : d.written ⊆ written) :
    Whole { fs := d.fs.put p (.file bytes), written } := by
  refine h.of_files (h.noLinks.put (by simp)) hsub fun q bytes' hq => ?_
  by_cases hqp : q = p
  · exact Or.inr (Or.inl (hqp ▸ hp))
  · simp only [FileTree.put, hqp, if_false] at hq
    exact Or.inl hq

/-- Without links a stream writes to the file it was opened on. -/
theorem Whole.opens_eq (h : Whole d) {p q : List Seg} (hq : opens d.fs p = some q) : q = p :=
  Option.some.inj ((follow_of_opens hq).symm.trans (h.noLinks.follow 39 List.nil_prefix))

/-- A file is whole under a new name when its bytes are complete there. -/
theorem Whole.replace (h : Whole d) {src dst : List Seg} {bytes : β}
    (hnew : Complete d.written dst bytes) :
    Whole { d with fs := (d.fs.remove src).put dst (.file bytes) } := by
  refine h.of_files ((h.noLinks.remove src).put (by simp)) (List.Subset.refl _) ?_
  intro p bytes' hp
  by_cases hpd : p = dst
  · subst hpd
    simp only [FileTree.put, if_true, Option.some.injEq, Node.file.injEq] at hp
    exact Or.inr (Or.inr (hp ▸ hnew))
  · simp only [FileTree.put, hpd, if_false, FileTree.remove] at hp
    split at hp
    · cases hp
    · exact Or.inl hp

/-- What lies below a directory has the same last name when the directory is moved aside. -/
theorem isPartial_moved {dir below : List Seg} {s : Seg} (hname : ¬PARTIAL <:+ s)
    (h : IsPartial (dir ++ s :: below)) (t : Seg) : IsPartial (dir ++ t :: below) := by
  cases below with
  | nil =>
      exact absurd (isPartial_iff_suffix.1 h) hname
  | cons u below =>
      have hsplit : ∀ r : Seg, dir ++ r :: u :: below = (dir ++ [r]) ++ u :: below := by simp
      rw [hsplit] at h ⊢
      exact (isPartial_append below).1 h

/-- A directory is moved aside, with everything below it. -/
theorem Whole.moveAside (h : Whole d) {dir : List Seg} {s : Seg} (hname : ¬PARTIAL <:+ s) :
    Whole { d with fs := d.fs.move (dir ++ [s]) (dir ++ [s ++ LEGACY]) } := by
  refine h.of_files (h.noLinks.move _ _) (List.Subset.refl _) ?_
  intro p bytes hp
  unfold FileTree.move at hp
  split at hp
  case isTrue hbelow =>
      rcases hbelow with ⟨below, rfl⟩
      rw [List.drop_left] at hp
      rw [List.append_assoc, List.singleton_append] at hp ⊢
      rcases h.complete _ _ hp with hpartial | hcomplete
      · exact Or.inr (Or.inl (isPartial_moved hname hpartial _))
      · exact Or.inr (Or.inr (.movedAside hcomplete))
  case isFalse =>
      split at hp
      · cases hp
      · exact Or.inl hp

theorem Whole.rename (h : Whole d) {last : LastWrite β} (hkept : Kept last d) {src dst : List Seg}
    (hallowed : Renames last src dst) (hfs : d.fs.rename src dst = some fs) :
    Whole { d with fs } := by
  rcases rename_eq_some hfs with ⟨hapart, ⟨bytes, hsrc, rfl⟩ | ⟨hsrc, rfl⟩⟩
  · refine h.replace ?_
    cases hallowed with
    | finish hlast =>
        rcases hkept _ _ hlast with ⟨hfile, hwritten⟩
        rw [hsrc] at hfile
        cases hfile
        exact .renamed hwritten
    | moveAside hname =>
        rcases h.complete _ _ hsrc with hpartial | hcomplete
        · exact absurd (isPartial_iff_suffix.1 hpartial) hname
        · exact .movedAside hcomplete
    | refused hup =>
        exact absurd hup hapart.2
  · cases hallowed with
    | finish hlast =>
        rw [(hkept _ _ hlast).1] at hsrc
        cases hsrc
    | moveAside hname =>
        exact h.moveAside hname
    | refused hup =>
        exact absurd hup hapart.2

end Operations

/-- A call that changes no file. -/
def Op.reads : Op β → Bool
  | .mkdir _ => false
  | .rm _ => false
  | .unlink _ => false
  | .rename _ _ => false
  | .write _ _ => false
  | _ => true

section Settle

variable {cwd : List Char} {d d' : Disk β} {op : Op β} {o : Outcome β} {r : Option (Res op)}
  {last : LastWrite β}

theorem settle_reads (hop : op.reads = true) (h : settle cwd d op o = some (d', r)) : d' = d := by
  cases op with
  | readFile path =>
      cases o with
      | resolves =>
          simp only [settle] at h
          split at h
          · cases h
            rfl
          · cases h
      | rejects message =>
          cases h
          rfl
      | _ =>
          cases h
  | now =>
      cases o <;> cases h
      rfl
  | existsSync path =>
      cases o <;> cases h
      rfl
  | fetch request => cases o <;> cases h <;> rfl
  | text => cases o <;> cases h <;> rfl
  | json => cases o <;> cases h <;> rfl
  | _ => cases hop

/-- What a step of a call can do to the disk. -/
inductive Change (cwd : List Char) (d : Disk β) : Op β → Disk β → Prop where
  | same {op : Op β} : Change cwd d op d
  | mkdirs {op : Op β} (p : List Seg) : Change cwd d op { d with fs := d.fs.mkdirs p }
  | remove {op : Op β} (p : List Seg) : Change cwd d op { d with fs := d.fs.remove p }
  | rename {src dst : List Char} {fs : FileTree Seg β} :
      d.fs.rename (place cwd src) (place cwd dst) = some fs →
        Change cwd d (.rename src dst) { d with fs }
  | holds {path : List Char} {body : β} {p : List Seg} (bytes : β) :
      opens d.fs (place cwd path) = some p →
        Change cwd d (.write path body) { d with fs := d.fs.put p (.file bytes) }
  | writes {path : List Char} {body : β} {p : List Seg} :
      opens d.fs (place cwd path) = some p →
        Change cwd d (.write path body)
          { fs := d.fs.put p (.file body), written := d.written ++ [(place cwd path, body)] }

theorem Change.of_settle (h : settle cwd d op o = some (d', r)) : Change cwd d op d' := by
  cases op with
  | mkdir path =>
      cases o with
      | made q =>
          simp only [settle] at h
          split at h
          · cases h
            exact .mkdirs q
          · cases h
      | resolves =>
          simp only [settle] at h
          split at h
          · cases h
            exact .mkdirs _
          · cases h
      | rejects message =>
          cases h
          exact .same
      | _ =>
          cases h
  | rm path =>
      cases o with
      | removed q =>
          simp only [settle] at h
          split at h
          · cases h
            exact .remove q
          · cases h
      | resolves =>
          cases h
          exact .remove _
      | rejects message =>
          cases h
          exact .same
      | _ =>
          cases h
  | unlink path =>
      cases o with
      | resolves =>
          simp only [settle] at h
          split at h
          · cases h
            exact .remove _
          · cases h
      | rejects message =>
          cases h
          exact .same
      | _ =>
          cases h
  | rename src dst =>
      cases o with
      | resolves =>
          rcases Option.map_eq_some_iff.1 h with ⟨fs, hfs, heq⟩
          cases heq
          exact .rename hfs
      | rejects message =>
          cases h
          exact .same
      | _ =>
          cases h
  | write path body =>
      cases o with
      | holds bytes =>
          rcases Option.map_eq_some_iff.1 h with ⟨q, hq, heq⟩
          cases heq
          exact .holds bytes hq
      | resolves =>
          simp only [settle, Disk.write, Option.map_map] at h
          rcases Option.map_eq_some_iff.1 h with ⟨q, hq, heq⟩
          cases heq
          exact .writes hq
      | rejects message =>
          cases h
          exact .same
      | _ =>
          cases h
  | _ =>
      rw [settle_reads rfl h]
      exact .same

/-- The disk stays whole, at each step of an allowed call. -/
theorem Change.whole (h : Change cwd d op d') (hallowed : (atomic cwd).allowed last op)
    (hkept : Kept last d) (hwhole : Whole d) : Whole d' := by
  cases h with
  | same =>
      exact hwhole
  | mkdirs p =>
      exact hwhole.mkdirs p
  | remove p =>
      exact hwhole.remove p
  | rename hfs =>
      exact hwhole.rename hkept hallowed hfs
  | holds bytes hopens =>
      rw [hwhole.opens_eq hopens]
      exact hwhole.put hallowed bytes (List.Subset.refl _)
  | writes hopens =>
      rw [hwhole.opens_eq hopens]
      exact hwhole.put hallowed _ (List.subset_append_left _ _)

theorem Change.written (h : Change cwd d op d') : d.written ⊆ d'.written := by
  cases h with
  | writes _ =>
      exact List.subset_append_left _ _
  | _ =>
      exact List.Subset.refl _

/-- Once a call has settled, it is known which file was written last. -/
theorem settle_kept {x : Res op} (h : settle cwd d op o = some (d', some x)) (hwhole : Whole d) :
    Kept ((atomic cwd).after last op x) d' := by
  cases op with
  | write path body =>
      cases o with
      | resolves =>
          simp only [settle, Disk.write, Option.map_map] at h
          rcases Option.map_eq_some_iff.1 h with ⟨q, hq, heq⟩
          cases heq
          rw [hwhole.opens_eq hq]
          rintro p bytes hlast
          cases hlast
          exact ⟨by simp [FileTree.put], by simp⟩
      | rejects message =>
          cases h
          exact kept_none _
      | holds bytes =>
          rcases Option.map_eq_some_iff.1 h with ⟨q, _, heq⟩
          cases heq
      | _ =>
          cases h
  | _ =>
      exact kept_none _

/-- While a call goes on, nothing needs to be remembered: a rename settles at once. -/
theorem obeys_pending {α : Type} {k : Res op → Program (Op β) Res α}
    (h : settle cwd d op o = some (d', none)) (hobeys : (atomic cwd).Obeys last (.call op k)) :
    (atomic cwd).Obeys none (.call op k) := by
  have hafter : ∀ x, (atomic cwd).after none op x = (atomic cwd).after last op x := by
    intro x
    cases op with
    | write path body =>
        cases x <;> rfl
    | _ =>
        rfl
  refine ⟨?_, fun x => hafter x ▸ hobeys.2 x⟩
  cases op with
  | rename src dst =>
      cases o with
      | resolves =>
          rcases Option.map_eq_some_iff.1 h with ⟨fs, _, heq⟩
          cases heq
      | _ =>
          cases h
  | _ =>
      exact hobeys.1

end Settle

end Export
end SignalKBackup
