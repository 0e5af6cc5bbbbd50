import SignalKBackup.Restore.Route

/-!
# Placement — whether the target is where the request says

A request names a directory by a trailing separator, and the source is restored under its own name
inside it.  `Placed` says that the target is a place in that directory and its stash another name
next to it.  It fails for a source without a name (the whole backup), where the target is the
directory itself, and for paths that end in `.` or `..` or lead to the root: `PlacedWhen` is the
exact condition (`resolveHostTarget_placed_iff`).
-/

namespace SignalKBackup
namespace Restore

open Lib
open Posix

/-! ## What a request asks for -/

def endsWithSeparator (p : List Char) : Bool :=
  p.getLast?.any isSeparator

/-- A path without the separators at its end; an absolute path of separators alone stays as it is. -/
def withoutTrailing (p : List Char) : List Char :=
  let stripped := (p.reverse.dropWhile isSeparator).reverse
  if stripped == [] && isAbsolute p then p else stripped

/-- The location of the directory that a path with a trailing separator names. -/
def namedDirectory (cwd customPath : List Char) : List Seg :=
  let dir := withoutTrailing customPath
  if isAbsolute dir then locate dir else locate (cwd ++ '/' :: dir)

/-- Two names of one directory. -/
def Siblings (p q : List Seg) : Prop :=
  ∃ dir a b, a ≠ b ∧ p = dir ++ [a] ∧ q = dir ++ [b]

structure Placed (cwd customPath : List Char) (r : ResolvedHostTarget) : Prop where
  absolute : isAbsolute r.absoluteTarget = true
  inside : endsWithSeparator customPath = true →
    ∃ name, locate r.absoluteTarget = namedDirectory cwd customPath ++ [name]
  siblings : Siblings (locate r.absoluteTarget) (locate r.safetyPath)

/-- With a trailing separator the source has a name; without one the path ends in a name of its
own, or, if it is relative, does not lead to the root. -/
def PlacedWhen (cwd customPath sourcePath : List Char) : Prop :=
  if endsWithSeparator customPath then basename sourcePath ≠ [] ∧ basename sourcePath ≠ dot
  else if isAbsolute customPath then lastSegment customPath ≠ dot ∧ lastSegment customPath ≠ dotdot
  else resolve cwd [customPath] ≠ ['/']

instance (cwd customPath sourcePath : List Char) :
    Decidable (PlacedWhen cwd customPath sourcePath) := by
  unfold PlacedWhen
  infer_instance

/-! ## Siblings and the last segment -/

theorem siblings_iff (t : List Char) (stamp : Stamp) :
    Siblings (locate t) (locate (makeSafetyPath t stamp)) ↔ Name (lastSegment t) := by
  rcases safety_segment t stamp with ⟨base, s, hs, hlast, ht, hsafety, _⟩
  rw [← hlast]
  constructor
  · rintro ⟨dir, a, b, _, ha, hb⟩
    by_contra hn
    -- the stash would lie one level below what the segment leads to
    have hbelow := (push_of_not_name base hs hn).length_le
    have hdir : base.length = dir.length := by
      have hlength := congrArg List.length (hsafety.symm.trans hb)
      simpa using hlength
    have hlength := congrArg List.length (ht.symm.trans ha)
    simp only [List.length_append, List.length_singleton] at hlength
    omega
  · intro hn
    exact ⟨base, s, s ++ safetySuffix stamp, suffix_ne_self s stamp, by simp [ht, push_name hn],
      hsafety⟩

/-- A path string printed from names ends in the last of them. -/
theorem lastSegment_render {names : List Seg} (h : ∀ s ∈ names, Name s) :
    Name (lastSegment ('/' :: ['/'].intercalate names)) ↔ names ≠ [] := by
  constructor
  · rintro hn rfl
    exact hn.ne_nil rfl
  · intro hne
    have hsegs : segments ('/' :: ['/'].intercalate names) = [] :: names := by
      have hcons := segments_cons_slash [] (['/'].intercalate names)
      rw [segments_intercalate (fun s hs => (h s hs).noSlash) hne] at hcons
      exact hcons
    obtain ⟨init, s, rfl⟩ := (List.eq_nil_or_concat names).resolve_left hne
    have hlast : lastSegment ('/' :: ['/'].intercalate (init ++ [s])) = s := by
      rw [← List.concat_eq_append, lastSegment, hsegs, List.concat_eq_append, ← List.cons_append]
      exact List.getLastD_concat
    rw [List.concat_eq_append, hlast]
    exact h s (by simp)

theorem lastSegment_resolve (cwd : List Char) (paths : List (List Char)) :
    Name (lastSegment (resolve cwd paths)) ↔ resolve cwd paths ≠ ['/'] := by
  have hrender : resolve cwd paths =
      '/' :: ['/'].intercalate (locate (resolvedPath cwd paths.reverse [])) := rfl
  rw [hrender, lastSegment_render (locate_names _)]
  constructor
  · intro hne heq
    have hstr : ['/'].intercalate (locate (resolvedPath cwd paths.reverse [])) = [] := by
      simpa using heq
    have hsegs := segments_intercalate (fun s hs => (locate_names _ s hs).noSlash) hne
    rw [hstr] at hsegs
    exact (locate_names (resolvedPath cwd paths.reverse []) [] (hsegs ▸ by simp [segments])).ne_nil rfl
  · intro hne heq
    rw [heq] at hne
    exact hne rfl

/-! ## The source's name under a directory -/

theorem join_name (p : List Char) {q : List Char} (hp : p ≠ []) (hq : q ≠ []) :
    join [p, q] = Posix.normalize (p ++ '/' :: q) := by
  simp [join, hp, hq, List.intercalate]

theorem locate_join {p q : List Char} (habs : isAbsolute p = true) (hq : '/' ∉ q) :
    locate (join [p, q]) = (push false (locate p).reverse q).reverse := by
  have hne : p ≠ [] := by
    rintro rfl
    cases habs
  by_cases hnil : q = []
  · have hjoin : join [p, q] = Posix.normalize p := by
      simp [join, hne, hnil, List.intercalate]
    rw [hjoin, locate_normalize habs, hnil]
    simp
  · have habs' : isAbsolute (p ++ '/' :: q) = true := by
      cases p with
      | nil =>
          cases habs
      | cons c p =>
          simpa [isAbsolute] using habs
    rw [join_name p hne hnil, locate_normalize habs', locate_cons_slash, segments_noSlash hq]
    rfl

theorem basename_noSlash (p : List Char) : '/' ∉ basename p := by
  unfold basename
  rcases List.eq_nil_or_concat ((segments p).filter fun s => s != []) with hnil | ⟨init, s, hlast⟩
  · simp [hnil]
  · rw [hlast, List.concat_eq_append, List.getLastD_concat]
    have hmem : s ∈ (segments p).filter fun s => s != [] := by
      rw [hlast]
      simp
    exact noSlash_of_mem_segments (List.mem_filter.1 hmem).1

theorem basename_mem {p : List Char} (h : basename p ≠ []) : basename p ∈ segments p := by
  unfold basename at h ⊢
  rcases List.eq_nil_or_concat ((segments p).filter fun s => s != []) with hnil | ⟨init, s, hlast⟩
  · simp [hnil] at h
  · rw [hlast, List.concat_eq_append, List.getLastD_concat]
    have hmem : s ∈ (segments p).filter fun s => s != [] := by
      rw [hlast]
      simp
    exact (List.mem_filter.1 hmem).1

/-- Without `..` in the source, its last segment is a name unless it is empty or `.`. -/
theorem name_basename {p : List Char} (hup : dotdot ∉ segments p) (hnil : basename p ≠ [])
    (hdot : basename p ≠ dot) : Name (basename p) where
  ne_nil := hnil
  ne_dot := hdot
  ne_dotdot h := hup (h ▸ basename_mem hnil)
  noSlash := basename_noSlash p

/-! ## The target of a request -/

/-- A clock text. -/
def noon : Stamp where
  text := "2026-05-13T12-00-00-000Z".toList
  noSlash := by decide

section Target

variable {cwd : List Char} {stamp : Stamp} {customPath sourcePath : List Char} {isDir : Bool}

/-- The directory that a request with a trailing separator names, as an absolute path string. -/
def joinedDirectory (cwd customPath : List Char) : List Char :=
  let dir := withoutTrailing customPath
  if isAbsolute dir then dir else resolve cwd [dir]

theorem joinedDirectory_isAbsolute : isAbsolute (joinedDirectory cwd customPath) = true := by
  unfold joinedDirectory
  dsimp only
  split
  case isTrue habs =>
      exact habs
  case isFalse =>
      rfl

theorem locate_resolve_one (cwd p : List Char) (hrel : isAbsolute p = false) :
    locate (resolve cwd [p]) = locate (cwd ++ '/' :: p) := by
  have hnil : isAbsolute [] = false := rfl
  have hempty : segments [] = [[]] := rfl
  rw [locate_resolve, List.reverse_singleton]
  by_cases hp : p = []
  · simp [resolvedPath, hp, hnil]
  · have hslash : isAbsolute (p ++ ['/']) = false := by
      cases p with
      | nil =>
          exact absurd rfl hp
      | cons c p =>
          simpa [isAbsolute] using hrel
    simp only [resolvedPath, hnil, hp, hslash, if_false, Bool.false_eq_true]
    rw [← List.cons_append, ← List.append_assoc, locate_cons_slash, hempty]
    simp

theorem locate_joinedDirectory :
    locate (joinedDirectory cwd customPath) = namedDirectory cwd customPath := by
  unfold joinedDirectory namedDirectory
  dsimp only
  split
  case isTrue =>
      rfl
  case isFalse hrel =>
      exact locate_resolve_one cwd _ (by simpa using hrel)

theorem target_of_separator (h : endsWithSeparator customPath = true) :
    (resolveHostTarget cwd stamp customPath isDir sourcePath).absoluteTarget =
      join [joinedDirectory cwd customPath, basename sourcePath] := by
  unfold endsWithSeparator at h
  simp only [resolveHostTarget, h, if_true, Bool.true_and]
  rfl

theorem target_of_name (h : endsWithSeparator customPath = false) :
    (resolveHostTarget cwd stamp customPath isDir sourcePath).absoluteTarget =
      if isAbsolute customPath then customPath else resolve cwd [customPath] := by
  unfold endsWithSeparator at h
  simp only [resolveHostTarget, h, Bool.false_eq_true, if_false, Bool.false_and]

theorem placed_iff :
    Placed cwd customPath (resolveHostTarget cwd stamp customPath isDir sourcePath) ↔
      (endsWithSeparator customPath = true → ∃ name,
        locate (resolveHostTarget cwd stamp customPath isDir sourcePath).absoluteTarget =
          namedDirectory cwd customPath ++ [name]) ∧
      Name (lastSegment (resolveHostTarget cwd stamp customPath isDir sourcePath).absoluteTarget) := by
  have hsiblings := siblings_iff
    (resolveHostTarget cwd stamp customPath isDir sourcePath).absoluteTarget stamp
  constructor
  · intro h
    exact ⟨h.inside, hsiblings.1 h.siblings⟩
  · rintro ⟨hinside, hname⟩
    exact ⟨resolveHostTarget_isAbsolute _ _ _ _ _, hinside, hsiblings.2 hname⟩

/-- Inside a named directory the target is a place of its own exactly when the source has a name. -/
theorem placed_of_separator (h : endsWithSeparator customPath = true)
    (hup : dotdot ∉ segments sourcePath) :
    Placed cwd customPath (resolveHostTarget cwd stamp customPath isDir sourcePath) ↔
      basename sourcePath ≠ [] ∧ basename sourcePath ≠ dot := by
  rw [placed_iff, target_of_separator h, locate_join joinedDirectory_isAbsolute
    (basename_noSlash sourcePath), locate_joinedDirectory]
  constructor
  · rintro ⟨hinside, _⟩
    rcases hinside h with ⟨name, hname⟩
    -- a source without a name leaves the directory itself
    have hself : ∀ q, q = [] ∨ q = dot →
        (push false (namedDirectory cwd customPath).reverse q).reverse =
          namedDirectory cwd customPath := by
      intro q hq
      simp [push, hq]
    constructor
    · intro hnil
      rw [hself _ (Or.inl hnil)] at hname
      simp at hname
    · intro hdot
      rw [hself _ (Or.inr hdot)] at hname
      simp at hname
  · rintro ⟨hnil, hdot⟩
    have hname := name_basename hup hnil hdot
    refine ⟨fun _ => ⟨basename sourcePath, by simp [push_name hname]⟩, ?_⟩
    have hlast := lastSegment_join [joinedDirectory cwd customPath] hname
    rw [List.singleton_append] at hlast
    rwa [hlast]

theorem lastSegment_ne_nil {p : List Char} (hne : p ≠ []) (h : endsWithSeparator p = false) :
    '/' ∉ lastSegment p ∧ lastSegment p ≠ [] := by
  rcases exists_last_segment p with ⟨s, hs, hcase⟩
  have hlast : lastSegment p = s := by
    rcases hcase with ⟨_, hsegs⟩ | ⟨dir, _, hsegs⟩
    · simp [lastSegment, hsegs]
    · simp [lastSegment, hsegs]
  rw [hlast]
  refine ⟨hs, ?_⟩
  rintro rfl
  rcases hcase with ⟨rfl, _⟩ | ⟨dir, rfl, _⟩
  · exact hne rfl
  · -- an empty last segment stands behind a slash
    simp [endsWithSeparator, isSeparator] at h

/-- For every accepted request: the target is in the named directory, if one is named, and the stash
next to the target, exactly when `PlacedWhen` holds of the request. -/
theorem resolveHostTarget_placed_iff (cwd : List Char) (stamp : Stamp)
    {request : HostRestoreRequest} (haccepts : accepts request = true) :
    Placed cwd request.customPath
        (resolveHostTarget cwd stamp request.customPath request.isDir request.sourcePath) ↔
      PlacedWhen cwd request.customPath request.sourcePath := by
  simp only [accepts, Bool.and_eq_true, Bool.not_eq_true'] at haccepts
  have hup : dotdot ∉ segments request.sourcePath := by
    simpa [segments] using haccepts.2
  have hne : request.customPath ≠ [] := by
    intro hnil
    simp [hnil] at haccepts
  unfold PlacedWhen
  cases hsep : endsWithSeparator request.customPath with
  | true =>
      rw [placed_of_separator hsep hup, if_pos rfl]
  | false =>
      rw [placed_iff, target_of_name hsep, if_neg Bool.false_ne_true]
      simp only [hsep, Bool.false_eq_true, false_implies, true_and]
      cases habs : isAbsolute request.customPath with
      | true =>
          -- the path is taken as it stands
          rcases lastSegment_ne_nil hne hsep with ⟨hslash, hnil⟩
          simp only [if_true]
          constructor
          · intro hname
            exact ⟨hname.ne_dot, hname.ne_dotdot⟩
          · rintro ⟨hdot, hdotdot⟩
            exact ⟨hnil, hdot, hdotdot, hslash⟩
      | false =>
          simp only [Bool.false_eq_true, if_false]
          exact lastSegment_resolve cwd _

/-- Into `/tmp/`. -/
def intoTmp (isDir : Bool) (sourcePath : List Char) : HostRestoreRequest :=
  { backupId := "b1", sourcePath, customPath := "/tmp/".toList, isDir, confirmOverwrite := false }

theorem resolveHostTarget_placed_tmp :
    Placed ['/'] "/tmp/".toList
      (resolveHostTarget ['/'] noon "/tmp/".toList false "plugin.json".toList) :=
  (@resolveHostTarget_placed_iff ['/'] noon (intoTmp false "plugin.json".toList) (by decide)).2
    (by decide)

/-- The whole backup, into `/tmp/`: the target is `/tmp` itself. -/
theorem resolveHostTarget_not_placed :
    accepts (intoTmp true []) = true ∧
      (resolveHostTarget ['/'] noon "/tmp/".toList true []).absoluteTarget = "/tmp".toList ∧
      ¬Placed ['/'] "/tmp/".toList (resolveHostTarget ['/'] noon "/tmp/".toList true []) := by
  refine ⟨by decide, by decide, fun h => ?_⟩
  rcases h.inside (by decide) with ⟨name, hname⟩
  have hself : locate (resolveHostTarget ['/'] noon "/tmp/".toList true []).absoluteTarget =
      namedDirectory ['/'] "/tmp/".toList := by decide
  rw [hself] at hname
  simp at hname

end Target

end Restore
end SignalKBackup
