import Mathlib.Data.List.Induction
import SignalKBackup.Restore.Extract

/-!
# RoundTrip — what a restored directory looks like

A directory tree is archived with one entry for each file and directory, and extracted into a fresh
target by a run in which no operation fails.

The entries come from the iterator of `unzipper.Parse`, which is a parameter here.  It hands them out
when it is asked to with `forceStream`; `extractZipSafely` does not ask, so nothing but an empty
directory comes back (`extract_reproduces_iff`).

The loop itself is right about most names, whatever entries it is given.  The path guard takes every
backslash for a separator, so a tree comes back only when no name contains one
(`safe_of_reproduces`); the other names come back as they were (`reproduces_of_safe`), but for those
at the top that begin with two dots, which the guard refuses.
-/

namespace SignalKBackup
namespace Restore

open Lib
open Posix
open FileTree

variable {β : Type}

/-! ## Trees and their archives -/

/-- An entry of an archive: the names on the way to it, and its bytes if it is a file. -/
structure ZipEntry (β : Type) where
  path : List Seg
  content : Option β

namespace ZipEntry

def node (e : ZipEntry β) : Node Seg β :=
  match e.content with
  | none => .dir
  | some bytes => .file bytes

/-- The joined path; a ZIP marks a directory by a slash at the end. -/
def name (e : ZipEntry β) : List Char :=
  ['/'].intercalate e.path ++ if e.content.isNone then ['/'] else []

/-- How the operations for the entry settle when none of them fails. -/
def settles (e : ZipEntry β) : List (Settle β) :=
  match e.content with
  | none => [.entry e.name true, .ok]
  | some bytes => [.entry e.name false, .ok, .wrote bytes]

end ZipEntry

/-- The entries of an archive that the iterator of `unzipper.Parse({ forceStream })` hands out. -/
abbrev Parse (β : Type) := Bool → List (ZipEntry β) → List (ZipEntry β)

/-- What `unzipper` says of `forceStream`: with it the entries go down the stream, without it to the
listeners of "entry", and the stream ends with none. -/
structure Unzipper (parse : Parse β) : Prop where
  forced : ∀ zip, parse true zip = zip
  unforced : ∀ zip, parse false zip = []

/-- `unzipper.Parse()`. -/
def forceStream : Bool :=
  false

/-- How the operations of `extractZipSafely` settle when none of them fails. -/
def extraction (parse : Parse β) (zip : List (ZipEntry β)) : List (Settle β) :=
  (parse forceStream zip).flatMap ZipEntry.settles ++ [.zipEnd]

/-- A directory with everything below it: files and directories under names of the system. -/
structure DirectoryTree (tree : FileTree Seg β) : Prop where
  root : tree [] = some .dir
  parent : ∀ p s, tree (p ++ [s]) ≠ none → tree p = some .dir
  plain : ∀ p dest, tree p ≠ some (.link dest)
  legal : ∀ p, tree p ≠ none → ∀ s ∈ p, Name s ∧ '\x00' ∉ s

/-- One entry for each file and directory below the root, in any order. -/
structure Archives (tree : FileTree Seg β) (entries : List (ZipEntry β)) : Prop where
  once : (entries.map ZipEntry.path).Nodup
  entry : ∀ p node, p ≠ [] ∧ tree p = some node ↔ ∃ e ∈ entries, e.path = p ∧ e.node = node

/-- The extraction begins, with nothing in the target directory. -/
structure FreshTarget (ctx : RestoreContext) (s : Run β) : Prop where
  await : s.await = .nextEntry
  made : ∀ x, x <+: ctx.targetAt → s.fs x = some .dir
  empty : ∀ x, x ≠ [] → s.fs (ctx.targetAt ++ x) = none

def Run.succeeded (s : Run β) : Prop :=
  s.await = .dropStash ∨ s.await = .ended .completed

/-- The extraction of the archive succeeds and leaves the tree at the target. -/
def Reproduces (parse : Parse β) (ctx : RestoreContext) (s : Run β) (tree : FileTree Seg β)
    (zip : List (ZipEntry β)) : Prop :=
  ∃ t, (machine ctx).run s (extraction parse zip) = some t ∧ t.succeeded ∧
    t.fs.subtree ctx.targetAt = tree

/-- The names that the path guard takes as they are. -/
def GuardSafe (p : List Seg) : Prop :=
  (∀ s ∈ p, '\\' ∉ s) ∧ ∀ s ∈ p.head?, dotdot.isPrefixOf s = false

/-! ## The path guard on legal names -/

theorem entryParts_name {e : ZipEntry β} (hne : e.path ≠ []) (hnames : ∀ s ∈ e.path, Name s)
    (hback : ∀ s ∈ e.path, '\\' ∉ s) : entryParts e.name = e.path := by
  have hjoined := entryParts_intercalate hne hnames hback
  unfold ZipEntry.name
  split
  case isTrue =>
      -- the slash at the end adds an empty part
      rw [entryParts, List.splitOnP_append_cons (p := isSeparator) _ [] rfl, List.filter_append,
        ← entryParts, hjoined]
      simp
  case isFalse =>
      rw [List.append_nil, hjoined]

/-- An entry with parts that are names is refused when the first of them begins with two dots. -/
theorem resolveZipEntryPath_names (cwd : List Char) {entryPath targetDir : List Char} {s : Seg}
    {rest : List Seg}
    (habs : isAbsolute targetDir = true) (hparts : entryParts entryPath = s :: rest)
    (hnames : ∀ t ∈ s :: rest, Name t) :
    resolveZipEntryPath cwd entryPath targetDir =
      if dotdot.isPrefixOf s then none
      else some (resolve cwd [resolve cwd [targetDir], ['/'].intercalate (s :: rest)]) := by
  have hfilled : ∀ t ∈ s :: rest, t ≠ [] ∧ '/' ∉ t :=
    fun t ht => ⟨(hnames t ht).ne_nil, (hnames t ht).noSlash⟩
  have hup : dotdot ∉ s :: rest := fun hmem => (hnames _ hmem).ne_dotdot rfl
  have hdots : ((s :: rest).filter fun t => t != dot) = s :: rest :=
    List.filter_eq_self.2 fun t ht => by simpa using (hnames t ht).ne_dot
  have hdest := locate_resolve_parts cwd habs hfilled (List.cons_ne_nil s rest) hup
  rw [hdots] at hdest
  -- relative to the target, the destination is the entry's own path
  have hrelative : relative cwd (resolve cwd [targetDir])
      (resolve cwd [resolve cwd [targetDir], ['/'].intercalate (s :: rest)]) =
        ['/'].intercalate (s :: rest) := by
    have htarget : isAbsolute (resolve cwd [targetDir]) = true := rfl
    have hentry : isAbsolute
        (resolve cwd [resolve cwd [targetDir], ['/'].intercalate (s :: rest)]) = true := rfl
    rw [relative, resolve_one cwd htarget, resolve_one cwd hentry, resolve_one cwd habs, hdest,
      relativeSegments_append]
  have hnotabs : isAbsolute (['/'].intercalate (s :: rest)) = false := by
    have h := (not_absolute_intercalate (List.cons_ne_nil s rest) hfilled []).2
    rwa [List.append_nil] at h
  unfold entryParts at hparts
  simp only [resolveZipEntryPath, hparts, hup, hrelative, hnotabs, List.cons_ne_nil, if_false,
    Bool.or_false, dotdot_prefix_intercalate (hnames s (by simp)).ne_nil]

/-! ## A tree that is extracted in part -/

/-- Some of the tree is at the target, and nothing else. -/
structure PartOf (ctx : RestoreContext) (tree fs : FileTree Seg β) : Prop where
  made : ∀ x, x <+: ctx.targetAt → fs x = some .dir
  part : ∀ x, fs (ctx.targetAt ++ x) = none ∨ fs (ctx.targetAt ++ x) = tree x

theorem FreshTarget.partOf {ctx : RestoreContext} {s : Run β} {tree : FileTree Seg β}
    (h : FreshTarget ctx s) (htree : DirectoryTree tree) : PartOf ctx tree s.fs := by
  refine ⟨h.made, fun x => ?_⟩
  by_cases hx : x = []
  · rw [hx, List.append_nil, htree.root]
    exact Or.inr (h.made _ (List.prefix_refl _))
  · exact Or.inl (h.empty x hx)

theorem DirectoryTree.prefix_dir {tree : FileTree Seg β} (htree : DirectoryTree tree)
    {p y : List Seg} (hp : tree p ≠ none) (hy : y <+: p) (hne : y ≠ p) : tree y = some .dir := by
  -- from the end of the path: one name less is a directory
  induction p using List.reverseRecOn with
  | nil =>
      exact absurd (List.prefix_nil.1 hy) hne
  | append_singleton p s ih =>
      have hdir := htree.parent p s hp
      rcases List.prefix_concat_iff.1 hy with heq | hy
      · exact absurd heq hne
      · by_cases hyp : y = p
        · rw [hyp]
          exact hdir
        · exact ih (by simp [hdir]) hy hyp

/-- A path below the target, cut off somewhere: above the target, or a path below it cut off. -/
theorem prefix_target_cases {ctx : RestoreContext} {p x : List Seg} (h : x <+: ctx.targetAt ++ p) :
    x <+: ctx.targetAt ∨ ∃ y, y <+: p ∧ x = ctx.targetAt ++ y := by
  rcases List.prefix_or_prefix_of_prefix h (List.prefix_append ctx.targetAt p) with hup | hdown
  · exact Or.inl hup
  · rcases hdown with ⟨y, rfl⟩
    exact Or.inr ⟨y, (List.prefix_append_right_inj _).1 h, rfl⟩

namespace PartOf

variable {ctx : RestoreContext} {tree fs : FileTree Seg β} {p : List Seg}

theorem makes (h : PartOf ctx tree fs) (hdirs : ∀ y, y <+: p → tree y = some .dir) :
    Restore.makes fs (ctx.targetAt ++ p) = true := by
  simp only [Restore.makes, List.all_eq_true]
  intro k _
  rcases prefix_target_cases (List.take_prefix k (ctx.targetAt ++ p)) with hup | ⟨y, hy, heq⟩
  · rw [h.made _ hup]
  · rw [heq]
    rcases h.part y with hnone | hsome
    · rw [hnone]
    · rw [hsome, hdirs y hy]

theorem mkdirs (h : PartOf ctx tree fs) (hdirs : ∀ y, y <+: p → tree y = some .dir) :
    PartOf ctx tree (fs.mkdirs (ctx.targetAt ++ p)) := by
  constructor
  · intro x hx
    simp only [FileTree.mkdirs, h.made x hx]
    simp
  · intro x
    simp only [FileTree.mkdirs]
    split
    case isTrue hmissing =>
        exact Or.inr (hdirs x ((List.prefix_append_right_inj _).1 hmissing.1)).symm
    case isFalse =>
        exact h.part x

theorem mkdirs_self (h : PartOf ctx tree fs) (hdirs : ∀ y, y <+: p → tree y = some .dir) :
    fs.mkdirs (ctx.targetAt ++ p) (ctx.targetAt ++ p) = some .dir := by
  simp only [FileTree.mkdirs]
  split
  case isTrue =>
      rfl
  case isFalse hthere =>
      rcases h.part p with hnone | hsome
      · exact absurd ⟨List.prefix_refl _, hnone⟩ hthere
      · rw [hsome, hdirs p (List.prefix_refl p)]

theorem opens (h : PartOf ctx tree fs) {bytes : β} (hfile : tree p = some (.file bytes)) :
    Restore.opens fs (ctx.targetAt ++ p) = some (ctx.targetAt ++ p) := by
  -- nothing is there yet, or the file itself
  have hplain : ∀ dest, fs (ctx.targetAt ++ p) ≠ some (.link dest) := by
    intro dest hlink
    rcases h.part p with hnone | hsome
    · rw [hnone] at hlink
      cases hlink
    · rw [hsome, hfile] at hlink
      cases hlink
  have hfollow : fs.follow MAX_LINKS (ctx.targetAt ++ p) = some (ctx.targetAt ++ p) :=
    follow_of_ne_link hplain 39
  unfold Restore.opens
  rw [hfollow]
  dsimp only
  split
  case h_1 hdir =>
      rcases h.part p with hnone | hsome
      · rw [hnone] at hdir
        cases hdir
      · rw [hsome, hfile] at hdir
        cases hdir
  case h_2 =>
      rfl

theorem put (h : PartOf ctx tree fs) (hp : p ≠ []) {bytes : β}
    (hfile : tree p = some (.file bytes)) :
    PartOf ctx tree (fs.put (ctx.targetAt ++ p) (.file bytes)) := by
  constructor
  · intro x hx
    have hne : x ≠ ctx.targetAt ++ p := by
      rintro rfl
      have hlength := hx.length_le
      have hpos := List.length_pos_iff.2 hp
      simp only [List.length_append] at hlength
      omega
    simp only [FileTree.put, hne, if_false]
    exact h.made x hx
  · intro x
    simp only [FileTree.put, List.append_cancel_left_eq]
    split
    case isTrue heq =>
        exact Or.inr (by rw [heq, hfile])
    case isFalse =>
        exact h.part x

end PartOf

/-! ## The run through one entry -/

/-- What an accepted entry does to the files. -/
def ZipEntry.Written (e : ZipEntry β) (dest : List Char) (fs fs' : FileTree Seg β) : Prop :=
  match e.content with
  | none => fs' = fs.mkdirs (locate dest)
  | some bytes =>
      ∃ q, opens (fs.mkdirs (locate (dirname dest))) (locate dest) = some q ∧
        fs' = (fs.mkdirs (locate (dirname dest))).put q (.file bytes)

/-- Where an entry goes. -/
def destination (ctx : RestoreContext) (e : ZipEntry β) : Option (List Char) :=
  resolveZipEntryPath ctx.cwd e.name (resolve ctx.cwd [ctx.target.absoluteTarget])

theorem run_entry {ctx : RestoreContext} {s t : Run β} {e : ZipEntry β} (hs : s.await = .nextEntry)
    (hrun : (machine ctx).run s e.settles = some t) :
    (∃ n, Fails n t) ∨
      ∃ dest, destination ctx e = some dest ∧ t.await = .nextEntry ∧ e.Written dest s.fs t.fs := by
  cases hdest : destination ctx e with
  | none =>
      -- the entry is refused, and the run fails whatever comes
      refine Or.inl ⟨2, ?_⟩
      unfold destination at hdest
      unfold ZipEntry.settles at hrun
      split at hrun
      all_goals
        rcases (Machine.run_cons_eq_some _).1 hrun with ⟨u, hu, hrest⟩
        simp only [machine, step, hs, stepEntry, hdest] at hu
        cases hu
        exact ((fails_toCatch s _).run hrest).2
  | some dest =>
      refine Or.inr ⟨dest, rfl, ?_⟩
      unfold destination at hdest
      unfold ZipEntry.settles at hrun
      unfold ZipEntry.Written
      split at hrun
      case h_1 hcontent =>
          rcases (Machine.run_cons_eq_some _).1 hrun with ⟨u, hu, hrest⟩
          simp only [machine, step, hs, stepEntry, hdest, if_true] at hu
          cases hu
          rcases (Machine.run_cons_eq_some _).1 hrest with ⟨v, hv, hend⟩
          simp only [machine, step, stepMkdir] at hv
          split at hv
          case isTrue =>
              cases hv
              cases hend
              exact ⟨rfl, rfl⟩
          case isFalse =>
              cases hv
      case h_2 bytes hcontent =>
          rcases (Machine.run_cons_eq_some _).1 hrun with ⟨u, hu, hrest⟩
          simp only [machine, step, hs, stepEntry, hdest, Bool.false_eq_true, if_false] at hu
          cases hu
          rcases (Machine.run_cons_eq_some _).1 hrest with ⟨v, hv, hlast⟩
          simp only [machine, step, stepMkdir] at hv
          split at hv
          case isTrue =>
              cases hv
              rcases (Machine.run_cons_eq_some _).1 hlast with ⟨w, hw, hend⟩
              simp only [machine, step, stepWrite] at hw
              split at hw
              case h_1 q hq =>
                  cases hw
                  cases hend
                  exact ⟨rfl, q, hq, rfl⟩
              case h_2 =>
                  cases hw
          case isFalse =>
              cases hv

/-- The run through a directory entry that can be made. -/
theorem run_directory {ctx : RestoreContext} {s : Run β} {e : ZipEntry β} {dest : List Char}
    (hs : s.await = .nextEntry) (hdest : destination ctx e = some dest) (hcontent : e.content = none)
    (hmakes : makes s.fs (locate dest) = true) :
    (machine ctx).run s e.settles =
      some { s with fs := s.fs.mkdirs (locate dest), await := .nextEntry } := by
  unfold destination at hdest
  have hentry : (machine ctx).step s (.entry e.name true) =
      some { s with await := .mkdirEntry dest } := by
    simp only [machine, step, hs, stepEntry, hdest, if_true]
  have hmkdir : (machine ctx).step { s with await := .mkdirEntry dest } .ok =
      some { s with fs := s.fs.mkdirs (locate dest), await := .nextEntry } := by
    simp only [machine, step, stepMkdir, hmakes, if_true]
  simp only [ZipEntry.settles, hcontent]
  refine (Machine.run_cons_eq_some _).2 ⟨_, hentry, ?_⟩
  exact (Machine.run_cons_eq_some _).2 ⟨_, hmkdir, rfl⟩

/-- The run through a file entry that can be written. -/
theorem run_file {ctx : RestoreContext} {s : Run β} {e : ZipEntry β} {dest : List Char}
    {q : List Seg} {bytes : β} (hs : s.await = .nextEntry) (hdest : destination ctx e = some dest)
    (hcontent : e.content = some bytes) (hmakes : makes s.fs (locate (dirname dest)) = true)
    (hopens : opens (s.fs.mkdirs (locate (dirname dest))) (locate dest) = some q) :
    (machine ctx).run s e.settles =
      some { s with
        fs := (s.fs.mkdirs (locate (dirname dest))).put q (.file bytes), await := .nextEntry } := by
  unfold destination at hdest
  have hentry : (machine ctx).step s (.entry e.name false) =
      some { s with await := .mkdirParent dest } := by
    simp only [machine, step, hs, stepEntry, hdest, Bool.false_eq_true, if_false]
  have hmkdir : (machine ctx).step { s with await := .mkdirParent dest } .ok =
      some { s with fs := s.fs.mkdirs (locate (dirname dest)), await := .writeEntry dest } := by
    simp only [machine, step, stepMkdir, hmakes, if_true]
  have hwrite : (machine ctx).step
        { s with fs := s.fs.mkdirs (locate (dirname dest)), await := .writeEntry dest } (.wrote bytes) =
      some { s with
        fs := (s.fs.mkdirs (locate (dirname dest))).put q (.file bytes), await := .nextEntry } := by
    simp only [machine, step, stepWrite, hopens]
  simp only [ZipEntry.settles, hcontent]
  refine (Machine.run_cons_eq_some _).2 ⟨_, hentry, ?_⟩
  refine (Machine.run_cons_eq_some _).2 ⟨_, hmkdir, ?_⟩
  exact (Machine.run_cons_eq_some _).2 ⟨_, hwrite, rfl⟩

/-- Either the run fails, or every entry is accepted, and what each entry keeps is kept. -/
theorem run_entries {ctx : RestoreContext} {entries : List (ZipEntry β)} {s t : Run β}
    (P : FileTree Seg β → Prop)
    (hkeep : ∀ e ∈ entries, ∀ dest fs fs', destination ctx e = some dest → e.Written dest fs fs' →
      P fs → P fs')
    (hs : s.await = .nextEntry) (hP : P s.fs)
    (hrun : (machine ctx).run s (entries.flatMap ZipEntry.settles) = some t) :
    (∃ n, Fails n t) ∨
      t.await = .nextEntry ∧ P t.fs ∧ ∀ e ∈ entries, ∃ dest, destination ctx e = some dest := by
  induction entries generalizing s with
  | nil =>
      cases hrun
      exact Or.inr ⟨hs, hP, by simp⟩
  | cons e entries ih =>
      rw [List.flatMap_cons, Machine.run_append, Option.bind_eq_some_iff] at hrun
      rcases hrun with ⟨u, hu, hrest⟩
      rcases run_entry hs hu with ⟨n, hfails⟩ | ⟨dest, hdest, hawait, hwritten⟩
      · exact Or.inl ⟨n, (hfails.run hrest).2⟩
      · have hPu := hkeep e (by simp) dest _ _ hdest hwritten hP
        have hrest' := ih (fun e' he' => hkeep e' (by simp [he'])) hawait hPu hrest
        rcases hrest' with hfails | ⟨hend, hPt, hall⟩
        · exact Or.inl hfails
        · refine Or.inr ⟨hend, hPt, fun e' he' => ?_⟩
          rcases List.mem_cons.1 he' with rfl | he'
          · exact ⟨dest, hdest⟩
          · exact hall e' he'

/-! ## Trees that come back -/

section Tree

variable {ctx : RestoreContext} {tree : FileTree Seg β} {entries : List (ZipEntry β)}
  {parse : Parse β}

theorem Archives.mem (h : Archives tree entries) {e : ZipEntry β} (he : e ∈ entries) :
    e.path ≠ [] ∧ tree e.path = some e.node :=
  (h.entry e.path e.node).2 ⟨e, he, rfl, rfl⟩

theorem DirectoryTree.names (htree : DirectoryTree tree) {p : List Seg} (hp : tree p ≠ none) :
    ∀ s ∈ p, Name s :=
  fun s hs => (htree.legal p hp s hs).1

/-- What the guard makes of an entry without backslashes. -/
theorem destination_names (htree : DirectoryTree tree) (harchive : Archives tree entries)
    {e : ZipEntry β} (he : e ∈ entries) (hback : ∀ s ∈ e.path, '\\' ∉ s) {s : Seg} {rest : List Seg}
    (hpath : e.path = s :: rest) :
    destination ctx e =
      if dotdot.isPrefixOf s then none
      else some (resolve ctx.cwd
        [resolve ctx.cwd [resolve ctx.cwd [ctx.target.absoluteTarget]], ['/'].intercalate (s :: rest)]) := by
  rcases harchive.mem he with ⟨hne, htreeAt⟩
  have hnames := htree.names (p := e.path) (by simp [htreeAt])
  have hparts := entryParts_name hne hnames hback
  exact resolveZipEntryPath_names ctx.cwd rfl (hparts.trans hpath) (hpath ▸ hnames)

/-- An entry that the guard leaves alone goes to its own path below the target. -/
theorem destination_safe (htree : DirectoryTree tree) (harchive : Archives tree entries)
    {e : ZipEntry β} (he : e ∈ entries) (hsafe : GuardSafe e.path) :
    ∃ dest, destination ctx e = some dest ∧ locate dest = ctx.targetAt ++ e.path ∧
      locate (dirname dest) = ctx.targetAt ++ e.path.dropLast := by
  rcases harchive.mem he with ⟨hne, htreeAt⟩
  have hnames := htree.names (p := e.path) (by simp [htreeAt])
  obtain ⟨s, rest, hpath⟩ := List.exists_cons_of_ne_nil hne
  have hresolve : destination ctx e = _ := destination_names htree harchive he hsafe.1 hpath
  have hdots := hsafe.2 s (by rw [hpath]; rfl)
  rw [hdots, if_neg Bool.false_ne_true] at hresolve
  rcases zipEntry_parts rfl hresolve with ⟨hlocate, hdirname⟩
  have hplain : (e.path.filter fun s => s != dot) = e.path :=
    List.filter_eq_self.2 fun t ht => by simpa using (hnames t ht).ne_dot
  rw [entryParts_name hne hnames hsafe.1, hplain, targetAt_resolve] at hlocate
  refine ⟨_, hresolve, hlocate, ?_⟩
  rw [hdirname, hlocate, List.dropLast_append_of_ne_nil hne]

/-- An accepted entry without backslashes is one that the guard leaves alone. -/
theorem safe_of_destination (htree : DirectoryTree tree) (harchive : Archives tree entries)
    {e : ZipEntry β} (he : e ∈ entries) (hback : ∀ s ∈ e.path, '\\' ∉ s) {dest : List Char}
    (hdest : destination ctx e = some dest) : GuardSafe e.path := by
  refine ⟨hback, fun first hfirst => ?_⟩
  rcases List.head?_eq_some_iff.1 hfirst with ⟨rest, hpath⟩
  rw [destination_names htree harchive he hback hpath] at hdest
  cases hdots : dotdot.isPrefixOf first with
  | true =>
      simp [hdots] at hdest
  | false =>
      rfl

/-- With such an entry the run goes on, and the entry is there with its own content. -/
theorem run_entry_safe (htree : DirectoryTree tree) (harchive : Archives tree entries)
    {e : ZipEntry β} (he : e ∈ entries) (hsafe : GuardSafe e.path) {s : Run β}
    (hs : s.await = .nextEntry) (hpart : PartOf ctx tree s.fs) :
    ∃ t, (machine ctx).run s e.settles = some t ∧ t.await = .nextEntry ∧ PartOf ctx tree t.fs ∧
      t.fs (ctx.targetAt ++ e.path) = tree e.path ∧ ∀ x, s.fs x ≠ none → t.fs x ≠ none := by
  rcases harchive.mem he with ⟨hne, htreeAt⟩
  have hplace : ∃ dest, destination ctx e = some dest ∧ locate dest = ctx.targetAt ++ e.path ∧
      locate (dirname dest) = ctx.targetAt ++ e.path.dropLast :=
    destination_safe htree harchive he hsafe
  rcases hplace with ⟨dest, hdest, hlocate, hdirname⟩
  have habove : ∀ y, y <+: e.path → y ≠ e.path → tree y = some .dir :=
    fun y hy hyp => htree.prefix_dir (by simp [htreeAt]) hy hyp
  cases hcontent : e.content with
  | none =>
      have hnode : tree e.path = some .dir := by
        rw [htreeAt, ZipEntry.node, hcontent]
      have hdirs : ∀ y, y <+: e.path → tree y = some .dir := by
        intro y hy
        by_cases hyp : y = e.path
        · rw [hyp, hnode]
        · exact habove y hy hyp
      have hmakes : Restore.makes s.fs (locate dest) = true := by
        rw [hlocate]
        exact hpart.makes hdirs
      refine ⟨_, run_directory hs hdest hcontent hmakes, rfl, ?_, ?_, fun x => mkdirs_ne_none⟩
      · rw [hlocate]
        exact hpart.mkdirs hdirs
      · rw [hlocate, hnode]
        exact hpart.mkdirs_self hdirs
  | some bytes =>
      have hnode : tree e.path = some (.file bytes) := by
        rw [htreeAt, ZipEntry.node, hcontent]
      have hdirs : ∀ y, y <+: e.path.dropLast → tree y = some .dir := by
        intro y hy
        refine habove y (hy.trans (List.dropLast_prefix _)) ?_
        rintro rfl
        have hlength := hy.length_le
        have hpos := List.length_pos_iff.2 hne
        simp only [List.length_dropLast] at hlength
        omega
      have hmakes : Restore.makes s.fs (locate (dirname dest)) = true := by
        rw [hdirname]
        exact hpart.makes hdirs
      have hmade := hpart.mkdirs hdirs
      have hopens : opens (s.fs.mkdirs (locate (dirname dest))) (locate dest) =
          some (ctx.targetAt ++ e.path) := by
        rw [hdirname, hlocate]
        exact hmade.opens hnode
      refine ⟨_, run_file hs hdest hcontent hmakes hopens, rfl, ?_, ?_, fun x hx => ?_⟩
      · rw [hdirname]
        exact hmade.put hne hnode
      · rw [hnode]
        simp [FileTree.put]
      · exact put_ne_none (mkdirs_ne_none hx)

theorem run_entries_safe (htree : DirectoryTree tree) (harchive : Archives tree entries)
    {rest : List (ZipEntry β)} (hrest : ∀ e ∈ rest, e ∈ entries)
    (hsafe : ∀ e ∈ rest, GuardSafe e.path) {s : Run β} (hs : s.await = .nextEntry)
    (hpart : PartOf ctx tree s.fs) :
    ∃ t, (machine ctx).run s (rest.flatMap ZipEntry.settles) = some t ∧ t.await = .nextEntry ∧
      PartOf ctx tree t.fs ∧ (∀ x, s.fs x ≠ none → t.fs x ≠ none) ∧
      ∀ e ∈ rest, t.fs (ctx.targetAt ++ e.path) = tree e.path := by
  induction rest generalizing s with
  | nil =>
      exact ⟨s, rfl, hs, hpart, fun _ h => h, by simp⟩
  | cons e rest ih =>
      rcases run_entry_safe htree harchive (hrest e (by simp)) (hsafe e (by simp)) hs hpart with
        ⟨u, hu, hawait, hpartu, hthere, hgrows⟩
      rcases ih (fun e' he' => hrest e' (by simp [he'])) (fun e' he' => hsafe e' (by simp [he']))
        hawait hpartu with ⟨t, ht, hend, hpartt, hgrowst, hall⟩
      refine ⟨t, ?_, hend, hpartt, fun x hx => hgrowst x (hgrows x hx), fun e' he' => ?_⟩
      · rw [List.flatMap_cons, Machine.run_append, hu]
        exact ht
      · rcases List.mem_cons.1 he' with rfl | he'
        · -- the entry is still there, and it can only be that of the tree
          have hsome := (harchive.mem (hrest e' (by simp))).2
          have hkept := hgrowst (ctx.targetAt ++ e'.path) (by rw [hthere, hsome]; simp)
          rcases hpartt.part e'.path with hnone | heq
          · exact absurd hnone hkept
          · exact heq
        · exact hall e' he'

theorem reproduces_of_safe (hyields : parse forceStream entries = entries)
    (htree : DirectoryTree tree) (harchive : Archives tree entries)
    {s : Run β} (hfresh : FreshTarget ctx s) (hsafe : ∀ p, tree p ≠ none → GuardSafe p) :
    Reproduces parse ctx s tree entries := by
  have hentries : ∀ e ∈ entries, GuardSafe e.path := by
    intro e he
    exact hsafe e.path (by simp [(harchive.mem he).2])
  rcases run_entries_safe htree harchive (fun _ he => he) hentries hfresh.await
    (hfresh.partOf htree) with ⟨t, ht, hawait, hpart, _, hall⟩
  have hend : (machine ctx).step t .zipEnd = some (toCompleted t) := by
    simp only [machine, step, hawait, stepEntry]
  unfold Reproduces extraction
  rw [hyields]
  refine ⟨toCompleted t, Machine.run_concat_eq_some _ |>.2 ⟨t, ht, hend⟩, ?_, ?_⟩
  · unfold Run.succeeded toCompleted
    cases t.safetyStashed with
    | true =>
        exact Or.inl rfl
    | false =>
        exact Or.inr rfl
  · funext x
    have hfs : (toCompleted t).fs = t.fs := rfl
    show (toCompleted t).fs (ctx.targetAt ++ x) = tree x
    rw [hfs]
    rcases hpart.part x with hnone | heq
    · -- whatever the tree has is an entry, and entries are all there
      cases hx : tree x with
      | none =>
          exact hnone
      | some node =>
          by_cases hroot : x = []
          · rw [hroot, List.append_nil, hpart.made _ (List.prefix_refl _)] at hnone
            cases hnone
          · rcases (harchive.entry x node).1 ⟨hroot, hx⟩ with ⟨e, he, rfl, _⟩
            rw [hall e he, hx]
    · exact heq

/-! ## Trees that do not -/

/-- No link and no name with a backslash lies below the target. -/
def NoBackslash (ctx : RestoreContext) (fs : FileTree Seg β) : Prop :=
  NoLinks fs ctx.targetAt ∧ ∀ x, fs (ctx.targetAt ++ x) ≠ none → ∀ s ∈ x, '\\' ∉ s

theorem NoBackslash.mkdirs {fs : FileTree Seg β} (h : NoBackslash ctx fs) {p : List Seg}
    (hp : ∀ x, ctx.targetAt ++ x <+: p → ∀ s ∈ x, '\\' ∉ s) : NoBackslash ctx (fs.mkdirs p) := by
  refine ⟨h.1.mkdirs p, fun x hx => ?_⟩
  simp only [FileTree.mkdirs] at hx
  split at hx
  case isTrue hmissing =>
      exact hp x hmissing.1
  case isFalse =>
      exact h.2 x hx

theorem NoBackslash.put {fs : FileTree Seg β} (h : NoBackslash ctx fs) {p : List Seg} {bytes : β}
    (hp : ∀ s ∈ p, '\\' ∉ s) : NoBackslash ctx (fs.put (ctx.targetAt ++ p) (.file bytes)) := by
  refine ⟨h.1.put (by simp), fun x hx => ?_⟩
  simp only [FileTree.put, List.append_cancel_left_eq] at hx
  split at hx
  case isTrue heq =>
      rw [heq]
      exact hp
  case isFalse =>
      exact h.2 x hx

/-- Accepted entries go to parts of names, which hold no separator. -/
theorem destination_parts {e : ZipEntry β} {dest : List Char} (h : destination ctx e = some dest) :
    ∃ p, locate dest = ctx.targetAt ++ p ∧ locate (dirname dest) = (ctx.targetAt ++ p).dropLast ∧
      ∀ s ∈ p, '\\' ∉ s := by
  rcases zipEntry_parts rfl h with ⟨hlocate, hdirname⟩
  rw [targetAt_resolve] at hlocate
  refine ⟨_, hlocate, by rw [hdirname, hlocate], fun s hs => ?_⟩
  exact (entryParts_filled s (List.mem_filter.1 hs).1).2.2

theorem NoBackslash.written {fs fs' : FileTree Seg β} (h : NoBackslash ctx fs) {e : ZipEntry β}
    {dest : List Char} (hdest : destination ctx e = some dest) (hw : e.Written dest fs fs') :
    NoBackslash ctx fs' := by
  rcases destination_parts hdest with ⟨p, hlocate, hdirname, hp⟩
  have hbelow : ∀ q, q <+: ctx.targetAt ++ p → ∀ x, ctx.targetAt ++ x <+: q → ∀ s ∈ x, '\\' ∉ s := by
    intro q hq x hx s hs
    exact hp s (((List.prefix_append_right_inj _).1 (hx.trans hq)).subset hs)
  unfold ZipEntry.Written at hw
  split at hw
  case h_1 =>
      rw [hw, hlocate]
      exact h.mkdirs (hbelow _ (List.prefix_refl _))
  case h_2 bytes _ =>
      rcases hw with ⟨q, hq, rfl⟩
      rw [hdirname] at hq ⊢
      have hmade := h.mkdirs (hbelow _ (List.dropLast_prefix _))
      -- without links the bytes land at the destination
      have hfollow : _ = some (locate dest) :=
        hmade.1.follow 39 (by rw [hlocate]; exact List.prefix_append _ _)
      have hqdest : q = locate dest :=
        Option.some.inj ((follow_of_opens hq).symm.trans hfollow)
      rw [hqdest, hlocate]
      exact hmade.put hp

theorem FreshTarget.noBackslash (htree : DirectoryTree tree) {s : Run β} (hfresh : FreshTarget ctx s) :
    NoBackslash ctx s.fs := by
  have hpart := hfresh.partOf htree
  refine ⟨?_, fun x hx => ?_⟩
  · rintro x ⟨y, rfl⟩ dest hlink
    rcases hpart.part y with hnone | heq
    · rw [hnone] at hlink
      cases hlink
    · exact htree.plain y dest (heq.symm.trans hlink)
  · have hroot : x = [] := by
      by_contra hne
      exact hx (hfresh.empty x hne)
    simp [hroot]

/-- A run with a refused entry does not succeed. -/
theorem Fails.not_succeeded {n : ℕ} {u t : Run β} (h : Fails n u)
    (hend : (machine ctx).step u .zipEnd = some t) : ¬t.succeeded := by
  have hstep : Restore.step ctx u .zipEnd = some t := hend
  rcases h.step hstep with ⟨m, _, hm⟩
  rcases hm.left with ⟨k, hk, _⟩
  rintro (hdrop | hdone)
  · rw [hdrop] at hk
    cases hk
  · rw [hdone] at hk
    cases hk

theorem safe_of_reproduces (hyields : parse forceStream entries = entries)
    (htree : DirectoryTree tree) (harchive : Archives tree entries)
    {s : Run β} (hfresh : FreshTarget ctx s) (h : Reproduces parse ctx s tree entries) :
    ∀ p, tree p ≠ none → GuardSafe p := by
  unfold Reproduces extraction at h
  rw [hyields] at h
  rcases h with ⟨t, hrun, hsucceeded, hsame⟩
  rcases (Machine.run_concat_eq_some _).1 hrun with ⟨u, hu, hend⟩
  rcases run_entries (NoBackslash ctx) (fun e _ dest fs fs' hdest hw hfs => hfs.written hdest hw)
    hfresh.await (hfresh.noBackslash htree) hu with ⟨n, hfails⟩ | ⟨hawait, hclean, hall⟩
  · exact absurd hsucceeded (hfails.not_succeeded hend)
  · have hlast : t = toCompleted u := by
      simpa [machine, step, hawait, stepEntry] using hend.symm
    have hfs : t.fs = u.fs := by
      rw [hlast]
      rfl
    intro p hp
    have hback : ∀ s ∈ p, '\\' ∉ s := by
      refine hclean.2 p ?_
      have hat : t.fs (ctx.targetAt ++ p) = tree p := congrFun hsame p
      rw [← hfs, hat]
      exact hp
    by_cases hroot : p = []
    · rw [hroot]
      exact ⟨by simp, by simp⟩
    · obtain ⟨node, hnode⟩ := Option.ne_none_iff_exists'.1 hp
      rcases (harchive.entry _ node).1 ⟨hroot, hnode⟩ with ⟨e, he, rfl, _⟩
      rcases hall e he with ⟨dest, hdest⟩
      exact safe_of_destination htree harchive he hback hdest

/-- With an iterator that hands out every entry, a directory comes back from its archive exactly when
no name in it has a backslash and none at its top begins with two dots. -/
theorem loop_reproduces_iff (hyields : parse forceStream entries = entries)
    (htree : DirectoryTree tree) (harchive : Archives tree entries) {s : Run β}
    (hfresh : FreshTarget ctx s) :
    Reproduces parse ctx s tree entries ↔ ∀ p, tree p ≠ none → GuardSafe p :=
  ⟨safe_of_reproduces hyields htree harchive hfresh,
    reproduces_of_safe hyields htree harchive hfresh⟩

/-- With the iterator of `unzipper.Parse()`, a directory comes back from an archive, whatever entries
that has, exactly when there is nothing in it. -/
theorem extract_reproduces_iff (hparse : Unzipper parse) (htree : DirectoryTree tree) {s : Run β}
    (hfresh : FreshTarget ctx s) :
    Reproduces parse ctx s tree entries ↔ ∀ p, p ≠ [] → tree p = none := by
  have hnothing : extraction parse entries = [.zipEnd] := by
    unfold extraction forceStream
    rw [hparse.unforced]
    rfl
  have hend : (machine ctx).step s .zipEnd = some (toCompleted s) := by
    simp only [machine, step, hfresh.await, stepEntry]
  have hrun : (machine ctx).run s [.zipEnd] = some (toCompleted s) := by
    rw [Machine.run_cons, hend]
    rfl
  -- the loop is left at once, and the target stays as empty as it was
  have hleft : ∀ p, (toCompleted s).fs.subtree ctx.targetAt p = if p = [] then some .dir else none := by
    intro p
    have hat : (toCompleted s).fs.subtree ctx.targetAt p = s.fs (ctx.targetAt ++ p) := rfl
    rw [hat]
    split
    case isTrue hroot =>
        rw [hroot, List.append_nil]
        exact hfresh.made _ (List.prefix_refl _)
    case isFalse hbelow =>
        exact hfresh.empty p hbelow
  unfold Reproduces
  rw [hnothing]
  constructor
  · rintro ⟨t, ht, _, hsame⟩ p hp
    cases hrun.symm.trans ht
    rw [← hsame, hleft, if_neg hp]
  · intro hempty
    refine ⟨toCompleted s, hrun, ?_, funext fun p => ?_⟩
    · unfold Run.succeeded toCompleted
      cases s.safetyStashed with
      | true =>
          exact Or.inl rfl
      | false =>
          exact Or.inr rfl
    · rw [hleft]
      split
      case isTrue hroot =>
          rw [hroot, htree.root]
      case isFalse hbelow =>
          exact (hempty p hbelow).symm

end Tree

/-! ### A directory without files, and one with a file -/

/-- The locked `unzipper`. -/
def unzipper : Parse ℕ :=
  fun forceStream zip => if forceStream then zip else []

theorem unzipper_spec : Unzipper unzipper :=
  ⟨fun _ => rfl, fun _ => rfl⟩

def noFiles : FileTree Seg ℕ :=
  fun p => if p = [] then some .dir else none

theorem noFiles_tree : DirectoryTree noFiles where
  root := rfl
  parent := by simp [noFiles]
  plain := by simp [noFiles]
  legal := by
    intro p hp s hs
    have hroot : p = [] := by
      by_contra hne
      exact hp (if_neg hne)
    rw [hroot] at hs
    cases hs

def oneFile (name : Seg) : FileTree Seg ℕ :=
  fun p => if p = [] then some .dir else if p = [name] then some (.file 7) else none

theorem oneFile_tree {name : Seg} (hname : Name name) (hnul : '\x00' ∉ name) :
    DirectoryTree (oneFile name) where
  root := rfl
  parent := by
    intro p s hp
    have hnil : p = [] := by
      by_contra hne
      refine hp ?_
      cases p with
      | nil =>
          exact absurd rfl hne
      | cons a p =>
          simp [oneFile]
    rw [hnil]
    rfl
  plain := by
    intro p dest
    unfold oneFile
    split
    · simp
    · split <;> simp
  legal := by
    intro p hp s hs
    unfold oneFile at hp
    split at hp
    case isTrue hnil =>
        rw [hnil] at hs
        cases hs
    case isFalse =>
        split at hp
        case isTrue hone =>
            rw [hone, List.mem_singleton] at hs
            rw [hs]
            exact ⟨hname, hnul⟩
        case isFalse =>
            exact absurd rfl hp

theorem oneFile_archive (name : Seg) :
    Archives (oneFile name) [{ path := [name], content := some 7 }] where
  once := by simp
  entry := by
    intro p node
    unfold oneFile
    constructor
    · rintro ⟨hne, hnode⟩
      rw [if_neg hne] at hnode
      split at hnode
      case isTrue hone =>
          cases hnode
          exact ⟨{ path := [name], content := some 7 }, by simp, hone.symm, rfl⟩
      case isFalse =>
          cases hnode
    · rintro ⟨e, he, rfl, rfl⟩
      rw [List.mem_singleton.1 he]
      simp [ZipEntry.node]

theorem zipRun_fresh : FreshTarget zipContext zipRun where
  await := rfl
  made := by
    intro x hx
    simp [zipRun, hx]
  empty := by
    intro x hx
    have hnot : ¬zipContext.targetAt ++ x <+: zipContext.targetAt := by
      intro hpre
      have hlength := hpre.length_le
      have hpos := List.length_pos_iff.2 hx
      simp only [List.length_append] at hlength
      omega
    simp [zipRun, hnot]

theorem extract_reproduces_nothing : Reproduces unzipper zipContext zipRun noFiles [] :=
  (extract_reproduces_iff unzipper_spec noFiles_tree zipRun_fresh).2
    fun _ hp => if_neg hp

/-- A directory with the one file `a` does not come back. -/
theorem extract_not_reproduces :
    Unzipper unzipper ∧ DirectoryTree (oneFile "a".toList) ∧
      Archives (oneFile "a".toList) [{ path := ["a".toList], content := some 7 }] ∧
      FreshTarget zipContext zipRun ∧
      ¬Reproduces unzipper zipContext zipRun (oneFile "a".toList)
        [{ path := ["a".toList], content := some 7 }] := by
  have hname : Name "a".toList := ⟨by decide, by decide, by decide, by decide⟩
  refine ⟨unzipper_spec, oneFile_tree hname (by decide), oneFile_archive _, zipRun_fresh, ?_⟩
  rintro ⟨t, hrun, _, hsame⟩
  -- the run ends with the target as it was
  have hend : (machine zipContext).run zipRun (extraction unzipper
      [{ path := ["a".toList], content := some 7 }]) = some (toCompleted zipRun) := rfl
  cases hend.symm.trans hrun
  have hmissing := congrFun hsame ["a".toList]
  rw [show (toCompleted zipRun).fs.subtree zipContext.targetAt ["a".toList] = none from
    zipRun_fresh.empty ["a".toList] (by simp)] at hmissing
  cases hmissing

end Restore
end SignalKBackup
