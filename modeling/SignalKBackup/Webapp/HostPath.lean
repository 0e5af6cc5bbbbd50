import Mathlib.Data.List.Induction
import SignalKBackup.Lib.FileTree
import SignalKBackup.Lib.PosixPath

/-!
# HostPath — paths of the container, as the user sees them

`toHostPath` rewrites a path that the backup server reports into the path of the same entry on the
host, where the configuration directory is mounted into the container.

* `Plain` holds the absolute paths that are names between slashes, with any slashes behind;
* `toHostPath_below` and `toHostPath_outside`: the two ways such a path goes, by its names;
* `toHostPath_mounted`: over a mount, the rewritten path leads to the same entry.

`toHostPath_eq_self` is about any string: only what reads as the mount point or as a path below it
is rewritten.
-/

namespace SignalKBackup
namespace Webapp

open Lib
open Posix

structure PathMapping where
  containerPath : List Char
  hostPath : List Char

def stripTrailingSlash (p : List Char) : List Char :=
  let stripped := (p.reverse.dropWhile fun c => c == '/').reverse
  if stripped = [] then ['/'] else stripped

/-- `toHostPath`; an empty string or no mapping leaves the path as it is. -/
def toHostPath (serverPath : Option (List Char)) (mapping : Option PathMapping) : Option (List Char) :=
  match serverPath, mapping with
  | some (c :: p), some mapping =>
      let serverPath := c :: p
      let container := stripTrailingSlash mapping.containerPath
      let host := stripTrailingSlash mapping.hostPath
      let candidate := stripTrailingSlash serverPath
      if candidate = container then some host
      else
        let start := if container = ['/'] then ['/'] else container ++ ['/']
        if start.isPrefixOf serverPath then some (host ++ '/' :: serverPath.drop start.length)
        else some serverPath
  | serverPath, _ => serverPath

/-- A path reads as the mount point, or as one below it. -/
def PathMapping.Covers (mapping : PathMapping) (p : List Char) : Prop :=
  let container := stripTrailingSlash mapping.containerPath
  stripTrailingSlash p = container ∨
    (if container = ['/'] then ['/'] else container ++ ['/']) <+: p

/-- Nothing else is rewritten. -/
theorem toHostPath_eq_self {p : List Char} {mapping : Option PathMapping}
    (h : ∀ m, mapping = some m → ¬m.Covers p) : toHostPath (some p) mapping = some p := by
  cases mapping with
  | none =>
      cases p <;> rfl
  | some mapping =>
      have hnot := h mapping rfl
      cases p with
      | nil =>
          rfl
      | cons c p =>
          unfold PathMapping.Covers at hnot
          rcases not_or.1 hnot with ⟨hne, hstart⟩
          unfold toHostPath
          dsimp only
          rw [if_neg hne, if_neg (fun hyes => hstart (List.isPrefixOf_iff_prefix.1 hyes))]

section Paths

variable {names cnames rest : List Seg} {server container host : List Char}

/-! ## Slashes at the end -/

theorem segments_slashes (p : List Char) (k : ℕ) :
    segments (p ++ List.replicate k '/') = segments p ++ List.replicate k [] := by
  induction k with
  | zero =>
      simp
  | succ k ih =>
      calc
        segments (p ++ List.replicate (k + 1) '/')
            = segments ((p ++ List.replicate k '/') ++ '/' :: []) := by
              rw [List.replicate_succ', List.append_assoc]
        _ = segments (p ++ List.replicate k '/') ++ [[]] := segments_cons_slash _ []
        _ = segments p ++ List.replicate (k + 1) [] := by
              rw [ih, List.append_assoc, List.replicate_succ']

/-- The slashes at the end say nothing about where a path leads. -/
theorem locate_slashes (p : List Char) (k : ℕ) : locate (p ++ List.replicate k '/') = locate p := by
  have hskip : ∀ stack : List Seg, (List.replicate k []).foldl (push false) stack = stack := by
    intro stack
    induction k with
    | zero =>
        rfl
    | succ k ih =>
        rw [List.replicate_succ, List.foldl_cons, push_nil, ih]
  simp only [locate, normalizeSegments, segments_slashes, List.foldl_append, hskip]

theorem exists_slashes (p : List Char) :
    ∃ k, p = (p.reverse.dropWhile fun c => c == '/').reverse ++ List.replicate k '/' := by
  induction p using List.reverseRecOn with
  | nil =>
      exact ⟨0, rfl⟩
  | append_singleton p c ih =>
      rw [List.reverse_append, List.reverse_singleton, List.singleton_append]
      by_cases hc : c = '/'
      · rcases ih with ⟨k, hk⟩
        refine ⟨k + 1, ?_⟩
        rw [List.dropWhile_cons_of_pos (by simp [hc]), List.replicate_succ', ← List.append_assoc,
          ← hk, hc]
      · refine ⟨0, ?_⟩
        rw [List.dropWhile_cons_of_neg (by simp [hc])]
        simp

/-- Only slashes are stripped. -/
theorem stripTrailingSlash_append {p : List Char} (habs : isAbsolute p = true) :
    ∃ k, p = stripTrailingSlash p ++ List.replicate k '/' := by
  rcases exists_slashes p with ⟨k, hk⟩
  unfold stripTrailingSlash
  dsimp only
  split
  case isTrue hnil =>
      rw [hnil, List.nil_append] at hk
      cases k with
      | zero =>
          rw [hk] at habs
          cases habs
      | succ k =>
          exact ⟨k, hk⟩
  case isFalse =>
      exact ⟨k, hk⟩

theorem locate_stripTrailingSlash (p : List Char) : locate (stripTrailingSlash p) = locate p := by
  rcases exists_slashes p with ⟨k, hk⟩
  have hslashes := locate_slashes (p.reverse.dropWhile fun c => c == '/').reverse k
  rw [← hk] at hslashes
  unfold stripTrailingSlash
  dsimp only
  split
  case isTrue hnil =>
      rw [hnil] at hslashes
      exact hslashes.symm
  case isFalse =>
      exact hslashes.symm

/-- An absolute path written plainly: names, with any slashes behind. -/
def Plain (p : List Char) : Prop :=
  isAbsolute p = true ∧ stripTrailingSlash p = render (locate p)

theorem Plain.append_slashes (h : Plain server) (hnames : locate server = names) :
    ∃ k, server = render names ++ List.replicate k '/' := by
  rcases stripTrailingSlash_append h.1 with ⟨k, hk⟩
  rw [h.2, hnames] at hk
  exact ⟨k, hk⟩

/-! ## At, below and beside the mount -/

theorem render_inj (hnames : ∀ s ∈ names, Name s) (hcnames : ∀ s ∈ cnames, Name s)
    (h : render names = render cnames) : names = cnames := by
  calc
    names = locate (render names) := (locate_render hnames).symm
    _ = locate (render cnames) := by rw [h]
    _ = cnames := locate_render hcnames

/-- How a path below the mount begins. -/
def mountStart (cnames : List Seg) : List Char :=
  if cnames = [] then ['/'] else render cnames ++ ['/']

theorem render_eq_root (hcnames : ∀ s ∈ cnames, Name s) : render cnames = ['/'] ↔ cnames = [] := by
  constructor
  · intro h
    exact render_inj hcnames (fun s hs => absurd hs List.not_mem_nil) h
  · rintro rfl
    rfl

theorem toHostPath_plain (hserver : Plain server) (hcontainer : Plain container)
    (host : List Char) :
    toHostPath (some server) (some { containerPath := container, hostPath := host }) =
      if locate server = locate container then some (stripTrailingSlash host)
      else if (mountStart (locate container)).isPrefixOf server then
        some (stripTrailingSlash host ++ '/' :: server.drop (mountStart (locate container)).length)
      else some server := by
  have hcnames := locate_names container
  have hsame : render (locate server) = render (locate container) ↔
      locate server = locate container :=
    ⟨render_inj (locate_names server) hcnames, congrArg render⟩
  cases hfilled : server with
  | nil =>
      rw [hfilled] at hserver
      cases hserver.1
  | cons c p =>
      rw [← hfilled]
      have hunfold : toHostPath (some server)
          (some { containerPath := container, hostPath := host }) =
            if stripTrailingSlash server = stripTrailingSlash container then
              some (stripTrailingSlash host)
            else
              if (if stripTrailingSlash container = ['/'] then ['/']
                  else stripTrailingSlash container ++ ['/']).isPrefixOf server then
                some (stripTrailingSlash host ++ '/' :: server.drop
                  (if stripTrailingSlash container = ['/'] then ['/']
                    else stripTrailingSlash container ++ ['/']).length)
              else some server := by
        rw [hfilled]
        rfl
      rw [hunfold, hserver.2, hcontainer.2]
      simp only [hsame, render_eq_root hcnames]
      rfl

/-- Where the mount ends in a path below it. -/
theorem render_append (hrest : rest ≠ []) :
    render (cnames ++ rest) = mountStart cnames ++ ['/'].intercalate rest := by
  unfold mountStart
  split
  case isTrue h =>
      rw [h]
      rfl
  case isFalse h =>
      have hlong : ∀ {front : List Seg}, front ≠ [] → ['/'].intercalate (front ++ rest) =
          ['/'].intercalate front ++ '/' :: ['/'].intercalate rest := by
        intro front hfront
        induction front with
        | nil =>
            exact absurd rfl hfront
        | cons s front ih =>
            cases front with
            | nil =>
                cases rest with
                | nil =>
                    exact absurd rfl hrest
                | cons t rest =>
                    simp [List.intercalate_cons_cons]
            | cons t front =>
                have htail := ih (List.cons_ne_nil t front)
                simp only [List.cons_append, List.intercalate_cons_cons] at htail ⊢
                rw [htail]
                simp
      rw [render, hlong h]
      simp [render]

/-- The segments of a plain path: behind its names there are only empty ones. -/
theorem Plain.segments (h : Plain server) :
    ∃ k, Posix.segments server = [] :: (locate server ++ List.replicate k []) := by
  rcases h.append_slashes rfl with ⟨k, hk⟩
  have hrender : Posix.segments (render (locate server)) =
      [] :: Posix.segments (['/'].intercalate (locate server)) :=
    segments_cons_slash [] _
  have hsegs : Posix.segments server =
      [] :: (Posix.segments (['/'].intercalate (locate server)) ++ List.replicate k []) := by
    rw [← List.cons_append, ← hrender, ← segments_slashes, ← hk]
  by_cases hroot : locate server = []
  · refine ⟨k + 1, ?_⟩
    rw [hsegs, hroot]
    rfl
  · refine ⟨k, ?_⟩
    rw [hsegs, segments_intercalate (fun s hs => (locate_names server s hs).noSlash) hroot]

/-- A path below the mount keeps its names. -/
theorem toHostPath_below (hserver : Plain server) (hcontainer : Plain container)
    (hbelow : locate server = locate container ++ rest) (hne : rest ≠ []) (host : List Char) :
    ∃ k, toHostPath (some server) (some { containerPath := container, hostPath := host }) =
      some (stripTrailingSlash host ++ '/' :: ['/'].intercalate rest ++ List.replicate k '/') := by
  rcases hserver.append_slashes hbelow with ⟨k, hk⟩
  have hlong : locate server ≠ locate container := by simpa [hbelow] using hne
  have hsplit : server =
      mountStart (locate container) ++ (['/'].intercalate rest ++ List.replicate k '/') := by
    rw [hk, render_append hne, List.append_assoc]
  have hstart : (mountStart (locate container)).isPrefixOf server = true := by
    rw [hsplit]
    exact List.isPrefixOf_iff_prefix.2 (List.prefix_append _ _)
  have hdrop : server.drop (mountStart (locate container)).length =
      ['/'].intercalate rest ++ List.replicate k '/' := by
    rw [hsplit, List.drop_left]
  refine ⟨k, ?_⟩
  rw [toHostPath_plain hserver hcontainer, if_neg hlong, if_pos hstart, hdrop]
  simp

/-- A path that is not at or below the mount stays. -/
theorem toHostPath_outside (hserver : Plain server) (hcontainer : Plain container)
    (houtside : ¬locate container <+: locate server) (host : List Char) :
    toHostPath (some server) (some { containerPath := container, hostPath := host }) =
      some server := by
  have hne : locate server ≠ locate container := by
    intro hsame
    exact houtside (hsame ▸ List.prefix_refl _)
  have hstart : (mountStart (locate container)).isPrefixOf server ≠ true := by
    intro hyes
    rcases List.isPrefixOf_iff_prefix.1 hyes with ⟨r, hr⟩
    unfold mountStart at hr
    split at hr
    case isTrue hroot =>
        exact houtside (hroot ▸ List.nil_prefix)
    case isFalse hroot =>
        -- the segments of the mount point are the first ones of the path
        rcases hserver.segments with ⟨k, hsegs⟩
        have hmount : segments (render (locate container)) = [] :: locate container := by
          calc
            segments (render (locate container))
                = [] :: segments (['/'].intercalate (locate container)) := segments_cons_slash [] _
            _ = [] :: locate container := by
                  rw [segments_intercalate (fun s hs => (locate_names container s hs).noSlash) hroot]
        have hboth : [] :: (locate container ++ segments r) =
            [] :: (locate server ++ List.replicate k []) := by
          rw [← hsegs, ← hr, List.append_assoc, ← List.cons_append, ← hmount]
          exact (segments_cons_slash _ _).symm
        rcases List.append_eq_append_iff.1 (List.cons.inj hboth).2 with
          ⟨more, hmore, _⟩ | ⟨more, hmore, hempty⟩
        · exact houtside ⟨more, hmore.symm⟩
        · -- a name of the mount point would be empty
          cases more with
          | nil =>
              rw [List.append_nil] at hmore
              exact hne hmore.symm
          | cons s more =>
              have hmem : s ∈ List.replicate k ([] : Seg) := by
                rw [hempty]
                exact List.mem_append_left _ List.mem_cons_self
              have hname : Name s := locate_names container s
                (by rw [hmore]; exact List.mem_append_right _ List.mem_cons_self)
              exact hname.ne_nil (List.eq_of_mem_replicate hmem)
  rw [toHostPath_plain hserver hcontainer, if_neg hne, if_neg hstart]

end Paths

/-! ## The same entry -/

/-- What the backup server calls `container` is the directory `host`: each tree has there what the
other has. -/
def MountedAt {β : Type} (inside outside : FileTree Seg β) (container host : List Seg) : Prop :=
  inside.subtree container = outside.subtree host

def signalkData : List Seg := ["signalk-data".toList]

/-- A host on which there is one file. -/
def onHost : FileTree Seg ℕ := fun p =>
  if p = ["home".toList, "pi".toList, "settings.json".toList] then some (.file 1) else none

def inContainer : FileTree Seg ℕ
  | [] => some .dir
  | s :: p => if s = "signalk-data".toList then onHost (locate "/home/pi/".toList ++ p) else none

end Webapp
end SignalKBackup
