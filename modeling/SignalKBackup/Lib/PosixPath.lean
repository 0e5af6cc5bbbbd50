import Mathlib.Data.List.Induction
import Mathlib.Data.List.Infix
import Mathlib.Data.List.TakeWhile

/-!
# PosixPath — path strings and the locations they name

The functions of Node's `path.posix` on strings of characters, and `locate`, which reads an
absolute path string the way the system does when the directories on it are no links.

* `push` is one segment on the stack of segments; every function here is a fold of it.
* `Name` holds the segments that stay on the stack; `locate` yields names only.
* `locate_resolve` says that normalising a path string does not change the location it names.
-/

namespace SignalKBackup
namespace Lib
namespace Posix

abbrev Seg := List Char

def segments (p : List Char) : List Seg :=
  p.splitOn '/'

def dot : Seg := ['.']

def dotdot : Seg := ['.', '.']

/-- One more segment; the stack has its top first. -/
def push (allowAboveRoot : Bool) (stack : List Seg) (seg : Seg) : List Seg :=
  if seg = [] ∨ seg = dot then stack
  else if seg = dotdot then
    match stack with
    | [] => if allowAboveRoot then [dotdot] else []
    | top :: rest =>
        if top = dotdot then
          if allowAboveRoot then dotdot :: top :: rest else top :: rest
        else rest
  else seg :: stack

def normalizeSegments (allowAboveRoot : Bool) (segs : List Seg) : List Seg :=
  (segs.foldl (push allowAboveRoot) []).reverse

def normalizeString (p : List Char) (allowAboveRoot : Bool) : List Char :=
  ['/'].intercalate (normalizeSegments allowAboveRoot (segments p))

/-! ## The functions of `path.posix` -/

def isAbsolute (p : List Char) : Bool :=
  p.head? == some '/'

def normalize (p : List Char) : List Char :=
  if p = [] then ['.']
  else
    let body := normalizeString p (!isAbsolute p)
    let trailing := p.getLast? == some '/'
    if body = [] then
      if isAbsolute p then ['/'] else if trailing then ['.', '/'] else ['.']
    else
      let body := if trailing then body ++ ['/'] else body
      if isAbsolute p then '/' :: body else body

def join (paths : List (List Char)) : List Char :=
  let joined := ['/'].intercalate (paths.filter fun p => p != [])
  if joined = [] then ['.'] else normalize joined

/-- The loop of `resolve`, over the arguments from the last to the first. -/
def resolvedPath (cwd : List Char) : List (List Char) → List Char → List Char
  | [], acc => if isAbsolute acc then acc else cwd ++ '/' :: acc
  | p :: ps, acc =>
      if isAbsolute acc then acc
      else if p = [] then resolvedPath cwd ps acc
      else resolvedPath cwd ps (p ++ '/' :: acc)

/-- `resolve`, for an absolute working directory. -/
def resolve (cwd : List Char) (paths : List (List Char)) : List Char :=
  '/' :: normalizeString (resolvedPath cwd paths.reverse []) false

def lastSegment (p : List Char) : Seg :=
  (segments p).getLastD []

def basename (p : List Char) : List Char :=
  ((segments p).filter fun s => s != []).getLastD []

def dirname (p : List Char) : List Char :=
  let body := (p.reverse.dropWhile fun c => c == '/')
  match body.dropWhile fun c => c != '/' with
  | [] => if isAbsolute p then ['/'] else ['.']
  | [_] => ['/']
  | _ :: rest => if rest = ['/'] then ['/', '/'] else rest.reverse

/-- `relative`, of two resolved paths given by their segments. -/
def relativeSegments : List Seg → List Seg → List Seg
  | a :: as, b :: bs => if a = b then relativeSegments as bs else (a :: as).map (fun _ => dotdot) ++ b :: bs
  | as, bs => as.map (fun _ => dotdot) ++ bs

/-- The location an absolute path string names, by the names on the way to it. -/
def locate (p : List Char) : List Seg :=
  normalizeSegments false (segments p)

def relative (cwd : List Char) (src dst : List Char) : List Char :=
  ['/'].intercalate (relativeSegments (locate (resolve cwd [src])) (locate (resolve cwd [dst])))

/-- The path string of a list of names. -/
def render (names : List Seg) : List Char :=
  '/' :: ['/'].intercalate names

/-! ## Segments -/

theorem segments_noSlash {s : List Char} (h : '/' ∉ s) : segments s = [s] :=
  List.splitOn_eq_singleton h

theorem segments_cons_slash (a b : List Char) : segments (a ++ '/' :: b) = segments a ++ segments b :=
  List.splitOn_append_cons_self a b

/-- A path string ends with its last segment, behind a slash if there is an earlier one. -/
theorem exists_last_segment (p : List Char) :
    ∃ s, '/' ∉ s ∧ ((p = s ∧ segments p = [s]) ∨
      ∃ dir, p = dir ++ '/' :: s ∧ segments p = segments dir ++ [s]) := by
  -- from the front: `c :: p` ends as `p` does, unless `p` is one segment
  induction p with
  | nil =>
      exact ⟨[], by simp, Or.inl ⟨rfl, rfl⟩⟩
  | cons c p ih =>
      rcases ih with ⟨s, hs, ⟨rfl, hsegs⟩ | ⟨dir, rfl, hsegs⟩⟩
      · by_cases hc : c = '/'
        · refine ⟨p, hs, Or.inr ⟨[], by simp [hc], ?_⟩⟩
          have hcons := segments_cons_slash [] p
          rw [hc]
          simpa [segments_noSlash hs] using hcons
        · have hns : '/' ∉ c :: p := by simp [hs, Ne.symm hc]
          exact ⟨c :: p, hns, Or.inl ⟨rfl, segments_noSlash hns⟩⟩
      · refine ⟨s, hs, Or.inr ⟨c :: dir, rfl, ?_⟩⟩
        have hcons := segments_cons_slash (c :: dir) s
        rw [segments_noSlash hs] at hcons
        exact hcons

/-! ## The stack -/

/-- The segments that name an entry. -/
structure Name (s : Seg) : Prop where
  ne_nil : s ≠ []
  ne_dot : s ≠ dot
  ne_dotdot : s ≠ dotdot
  noSlash : '/' ∉ s

theorem push_name {s : Seg} (h : Name s) (b : Bool) (stack : List Seg) :
    push b stack s = s :: stack := by
  simp [push, h.ne_nil, h.ne_dot, h.ne_dotdot]

@[simp] theorem push_nil (b : Bool) (stack : List Seg) : push b stack [] = stack := by
  simp [push]

/-- Every segment of the stack is a name: `..` never goes above the root. -/
theorem push_names {stack : List Seg} {s : Seg} (hstack : ∀ t ∈ stack, Name t) (hs : '/' ∉ s) :
    ∀ t ∈ push false stack s, Name t := by
  by_cases hskip : s = [] ∨ s = dot
  · simpa [push, hskip] using hstack
  · by_cases hup : s = dotdot
    · -- at the root there is nothing to pop, elsewhere a name is popped
      cases stack with
      | nil =>
          simp [push, hup]
      | cons top rest =>
          have htop := (hstack top (by simp)).ne_dotdot
          have hrest : ∀ t ∈ rest, Name t := fun t ht => hstack t (by simp [ht])
          have hpop : push false (top :: rest) s = rest := by
            rw [push, if_neg hskip, if_pos hup]
            simp [htop]
          rw [hpop]
          exact hrest
    · have hname : Name s :=
        { ne_nil := fun h => hskip (Or.inl h)
          ne_dot := fun h => hskip (Or.inr h)
          ne_dotdot := hup
          noSlash := hs }
      rw [push_name hname]
      intro t ht
      rcases List.mem_cons.1 ht with rfl | hmem
      · exact hname
      · exact hstack t hmem

theorem foldl_push_names {segs stack : List Seg} (hstack : ∀ t ∈ stack, Name t)
    (hsegs : ∀ s ∈ segs, '/' ∉ s) : ∀ t ∈ segs.foldl (push false) stack, Name t := by
  -- the stack holds names before every segment
  induction segs generalizing stack with
  | nil =>
      exact hstack
  | cons s segs ih =>
      refine ih (push_names hstack (hsegs s (by simp))) ?_
      exact fun t ht => hsegs t (by simp [ht])

theorem noSlash_of_mem_segments {p : List Char} {s : Seg} (h : s ∈ segments p) : '/' ∉ s := by
  rcases exists_last_segment p with ⟨t, ht, hcase⟩
  -- on the length: the segments before the last one are those of a shorter string
  induction hlen : p.length using Nat.strongRecOn generalizing p t with
  | ind n ih =>
      rcases hcase with ⟨_, hsegs⟩ | ⟨dir, rfl, hsegs⟩
      · rw [hsegs, List.mem_singleton] at h
        exact h ▸ ht
      · rw [hsegs, List.mem_append, List.mem_singleton] at h
        rcases h with hdir | rfl
        · rcases exists_last_segment dir with ⟨t', ht', hcase'⟩
          have hlt : dir.length < n := by
            rw [← hlen]
            simp
          exact ih dir.length hlt hdir t' ht' hcase' rfl
        · exact ht

theorem locate_names (p : List Char) : ∀ s ∈ locate p, Name s := by
  intro s hs
  have hmem := List.mem_reverse.1 hs
  exact foldl_push_names (by simp) (fun t ht => noSlash_of_mem_segments ht) s hmem

/-- Names are pushed as they come. -/
theorem foldl_push_of_names {segs : List Seg} (h : ∀ s ∈ segs, Name s) (b : Bool)
    (stack : List Seg) : segs.foldl (push b) stack = segs.reverse ++ stack := by
  induction segs generalizing stack with
  | nil =>
      rfl
  | cons s segs ih =>
      have hrest := ih (fun t ht => h t (by simp [ht])) (s :: stack)
      simp [push_name (h s (by simp)), hrest]

/-- Segments without `..` leave what is on the stack. -/
theorem foldl_push_keeps {segs : List Seg} (h : dotdot ∉ segs) (b : Bool) (stack : List Seg) :
    segs.foldl (push b) stack =
      (segs.filter fun s => s != [] && s != dot).reverse ++ stack := by
  induction segs generalizing stack with
  | nil =>
      rfl
  | cons s segs ih =>
      have hrest := ih (fun hmem => h (by simp [hmem]))
      by_cases hskip : s = [] ∨ s = dot
      · have hpush : push b stack s = stack := by simp [push, hskip]
        have hfilter : (s != [] && s != dot) = false := by
          rcases hskip with rfl | rfl <;> decide
        simp [hpush, hfilter, hrest]
      · have hup : s ≠ dotdot := by
          rintro rfl
          exact h (by simp)
        have hpush : push b stack s = s :: stack := by simp [push, hskip, hup]
        have hfilter : (s != [] && s != dot) = true := by
          simpa [not_or] using hskip
        simp [hpush, hfilter, hrest]

/-! ## Locations -/

theorem locate_cons_slash (a b : List Char) :
    locate (a ++ '/' :: b) =
      ((segments b).foldl (push false) (locate a).reverse).reverse := by
  simp [locate, normalizeSegments, segments_cons_slash]

/-- The path string of a list of names. -/
theorem segments_intercalate {names : List Seg} (h : ∀ s ∈ names, '/' ∉ s) (hne : names ≠ []) :
    segments (['/'].intercalate names) = names :=
  List.splitOn_intercalate '/' h hne

/-- Normalising an absolute path string does not change the location it names. -/
theorem locate_normalizeString (p : List Char) :
    locate ('/' :: normalizeString p false) = locate p := by
  have hnames := locate_names p
  have hroot := locate_cons_slash [] (normalizeString p false)
  rw [List.nil_append] at hroot
  rw [hroot]
  have hnil : locate [] = [] := rfl
  rw [hnil, List.reverse_nil]
  -- the root has no name to print; other locations are read back from their names
  by_cases hne : locate p = []
  · have hstr : normalizeString p false = [] := by
      show ['/'].intercalate (locate p) = []
      rw [hne]
      rfl
    rw [hstr, hne]
    rfl
  · have hsegs : segments (normalizeString p false) = locate p :=
      segments_intercalate (fun s hs => (hnames s hs).noSlash) hne
    rw [hsegs, foldl_push_of_names hnames]
    simp

/-- Normalising keeps the location, whether or not a trailing slash is kept. -/
theorem locate_normalize {p : List Char} (habs : isAbsolute p = true) :
    locate (Posix.normalize p) = locate p := by
  have hne : p ≠ [] := by
    rintro rfl
    cases habs
  have hbody := locate_normalizeString p
  have hslash : ∀ q, locate (q ++ ['/']) = locate q := by
    intro q
    have hnil : segments [] = [[]] := rfl
    rw [locate_cons_slash, hnil]
    simp
  unfold Posix.normalize
  simp only [hne, habs, if_false, if_true, Bool.not_true]
  split
  case isTrue hempty =>
      rw [← hbody, hempty]
  case isFalse =>
      split
      case isTrue =>
          rw [← hbody, ← List.cons_append, hslash]
      case isFalse =>
          exact hbody

theorem locate_resolve (cwd : List Char) (paths : List (List Char)) :
    locate (resolve cwd paths) = locate (resolvedPath cwd paths.reverse []) :=
  locate_normalizeString _

/-! ## Names and back -/

/-- The path string of a list of names is read back as those names. -/
theorem locate_render {names : List Seg} (h : ∀ s ∈ names, Name s) :
    locate ('/' :: ['/'].intercalate names) = names := by
  by_cases hne : names = []
  · rw [hne]
    rfl
  · have hroot := locate_cons_slash [] (['/'].intercalate names)
    have hnil : locate [] = [] := rfl
    rw [segments_intercalate (fun s hs => (h s hs).noSlash) hne, foldl_push_of_names h, hnil] at hroot
    simpa using hroot

theorem relativeSegments_append (a b : List Seg) : relativeSegments a (a ++ b) = b := by
  induction a with
  | nil =>
      cases b <;> rfl
  | cons s a ih =>
      simp [relativeSegments, ih]

/-- No part of a split holds a letter it was split at. -/
theorem splitOnP_parts {p : Char → Bool} {x part : List Char} (h : part ∈ x.splitOnP p) :
    ∀ c ∈ part, p c = false := by
  -- along the string: a letter that is no separator joins the first part
  induction x generalizing part with
  | nil =>
      simp only [List.splitOnP_nil, List.mem_singleton] at h
      simp [h]
  | cons a x ih =>
      rw [List.splitOnP_cons_eq_if_modifyHead] at h
      split at h
      · rcases List.mem_cons.1 h with rfl | hmem
        · simp
        · exact ih hmem
      · rename_i ha
        cases hsplit : x.splitOnP p with
        | nil =>
            simp [hsplit] at h
        | cons first rest =>
            rw [hsplit, List.modifyHead_cons] at h
            rcases List.mem_cons.1 h with rfl | hmem
            · intro c hc
              rcases List.mem_cons.1 hc with rfl | hin
              · simpa using ha
              · exact ih (by rw [hsplit]; simp) c hin
            · exact ih (by rw [hsplit]; simp [hmem])

/-- Parts without separators are read back from their joined string. -/
theorem splitOnP_intercalate {p : Char → Bool} {sep : Char} (hsep : p sep = true) {parts : List Seg}
    (h : ∀ s ∈ parts, ∀ c ∈ s, p c = false) (hne : parts ≠ []) :
    ([sep].intercalate parts).splitOnP p = parts := by
  induction parts with
  | nil =>
      exact absurd rfl hne
  | cons s parts ih =>
      have hs := h s (by simp)
      cases parts with
      | nil =>
          simpa [List.intercalate] using List.splitOnP_eq_singleton hs
      | cons t parts =>
          have hrest := ih (fun u hu => h u (by simp [hu])) (by simp)
          rw [List.intercalate_cons_cons, List.append_assoc, List.singleton_append,
            List.splitOnP_append_cons_of_forall_mem hs sep hsep, hrest]

/-- A joined string begins with `..` when its first name does. -/
theorem dotdot_prefix_intercalate {s : Seg} {parts : List Seg} (hs : s ≠ []) :
    dotdot.isPrefixOf (['/'].intercalate (s :: parts)) = dotdot.isPrefixOf s := by
  cases parts with
  | nil =>
      simp [List.intercalate]
  | cons t parts =>
      rw [List.intercalate_cons_cons]
      -- a slash behind one character is no dot
      rcases s with _ | ⟨c, _ | ⟨d, s⟩⟩
      · exact absurd rfl hs
      · simp [dotdot, List.isPrefixOf]
      · simp [dotdot, List.isPrefixOf]

/-! ## The last name -/

theorem up_prefix (base : List Seg) {s : Seg} (hs : s = dotdot) :
    (push false base.reverse s).reverse <+: base := by
  subst hs
  -- `..` pops the last segment, or stays at the root
  cases hrev : base.reverse with
  | nil =>
      exact List.nil_prefix
  | cons top rest =>
      have hbase : base = rest.reverse ++ [top] := by
        have hback := congrArg List.reverse hrev
        simpa using hback
      have hskip : ¬ (dotdot = [] ∨ dotdot = dot) := by decide
      rw [push, if_neg hskip, if_pos rfl]
      by_cases htop : top = dotdot
      · simp [htop, hbase]
      · simp [htop, hbase]

/-- A last segment that is no name leads no further than the segments before it. -/
theorem push_of_not_name (base : List Seg) {s : Seg} (hs : '/' ∉ s) (h : ¬Name s) :
    (push false base.reverse s).reverse <+: base := by
  by_cases hskip : s = [] ∨ s = dot
  · simp [push, hskip]
  · by_cases hup : s = dotdot
    · exact up_prefix base hup
    · exact absurd ⟨fun h => hskip (Or.inl h), fun h => hskip (Or.inr h), hup, hs⟩ h

/-- The places that an absolute path string passes as it is written, one for each segment. -/
def waypoints (p : List Char) : List (List Seg) :=
  (segments p).inits.map (normalizeSegments false)

theorem waypoint_of_prefix {segs : List Seg} (hsegs : ∀ s ∈ segs, '/' ∉ s) {q : List Seg}
    (h : q <+: normalizeSegments false segs) :
    ∃ front, front <+: segs ∧ normalizeSegments false front = q := by
  -- on the segments from the last: what one pushes or pops was passed before, but for its own name
  induction segs using List.reverseRecOn with
  | nil =>
      exact ⟨[], List.prefix_refl _, (List.prefix_nil.1 h).symm⟩
  | append_singleton segs s ih =>
      have hearlier : q <+: normalizeSegments false segs →
          ∃ front, front <+: segs ++ [s] ∧ normalizeSegments false front = q := by
        intro hq
        rcases ih (fun t ht => hsegs t (List.mem_append_left _ ht)) hq with ⟨front, hfront, hplace⟩
        exact ⟨front, hfront.trans (List.prefix_append _ _), hplace⟩
      have hpush : normalizeSegments false (segs ++ [s]) =
          (push false (normalizeSegments false segs).reverse s).reverse := by
        simp [normalizeSegments]
      by_cases hname : Name s
      · have hlonger : normalizeSegments false (segs ++ [s]) = normalizeSegments false segs ++ [s] := by
          rw [hpush, push_name hname]
          simp
        rcases List.prefix_concat_iff.1 (hlonger ▸ h) with heq | hq
        · exact ⟨segs ++ [s], List.prefix_refl _, by rw [hlonger, heq]⟩
        · exact hearlier hq
      · have hslash : '/' ∉ s := hsegs s (List.mem_append_right _ List.mem_cons_self)
        exact hearlier (h.trans (hpush ▸ push_of_not_name _ hslash hname))

/-- A path passes every directory above the place it leads to. -/
theorem mem_waypoints {p : List Char} {q : List Seg} (h : q <+: locate p) : q ∈ waypoints p := by
  rcases waypoint_of_prefix (fun _ hs => noSlash_of_mem_segments hs) h with ⟨front, hfront, hplace⟩
  exact List.mem_map.2 ⟨front, List.mem_inits front (segments p) |>.2 hfront, hplace⟩


/-- The directory of a path string that ends in a filled segment. -/
theorem dirname_cons_slash (dir : List Char) {s : Seg} (hne : s ≠ []) (hs : '/' ∉ s) :
    dirname (dir ++ '/' :: s) =
      if dir = [] then ['/'] else if dir = ['/'] then ['/', '/'] else dir := by
  have hrev : (dir ++ '/' :: s).reverse = s.reverse ++ '/' :: dir.reverse := by simp
  -- no slash is at the end, so nothing is cut there
  have hkeep : (s.reverse ++ '/' :: dir.reverse).dropWhile (fun c => c == '/') =
      s.reverse ++ '/' :: dir.reverse := by
    cases hcons : s.reverse with
    | nil =>
        exact absurd (List.reverse_eq_nil_iff.1 hcons) hne
    | cons c rest =>
        have hc : c ≠ '/' := by
          rintro rfl
          exact hs (List.mem_reverse.1 (by rw [hcons]; simp))
        simp [hc]
  -- the name itself is cut, up to its slash
  have hdrop : (s.reverse ++ '/' :: dir.reverse).dropWhile (fun c => c != '/') =
      '/' :: dir.reverse := by
    rw [List.dropWhile_append_of_pos]
    · simp
    · intro c hc
      have hne : c ≠ '/' := by
        rintro rfl
        exact hs (List.mem_reverse.1 hc)
      simpa using hne
  rw [dirname, hrev, hkeep, hdrop]
  cases hdir : dir.reverse with
  | nil =>
      rw [List.reverse_eq_nil_iff.1 hdir]
      rfl
  | cons c rest =>
      have hback : dir = (c :: rest).reverse := by rw [← hdir, List.reverse_reverse]
      have hfilled : dir ≠ [] := by simp [hback]
      have hroot : c :: rest = ['/'] ↔ dir = ['/'] := by
        rw [hback, List.reverse_eq_iff]
        rfl
      simp only [hfilled, hroot, if_false, ← hback]

theorem locate_dirname_filled (dir : List Char) {s : Seg} (hne : s ≠ []) (hs : '/' ∉ s) :
    locate (dirname (dir ++ '/' :: s)) = locate dir := by
  rw [dirname_cons_slash dir hne hs]
  split
  case isTrue hnil =>
      rw [hnil]
      rfl
  case isFalse =>
      split
      case isTrue hroot =>
          rw [hroot]
          decide
      case isFalse =>
          rfl

theorem dirname_of_name (dir : List Char) {s : Seg} (hs : Name s) :
    locate (dirname (dir ++ '/' :: s)) = locate dir :=
  locate_dirname_filled dir hs.ne_nil hs.noSlash

theorem dirname_noSlash {s : Seg} (hs : Name s) : dirname s = ['.'] := by
  have hall : ∀ c ∈ s.reverse, (c != '/') = true := by
    intro c hc
    have hne : c ≠ '/' := by
      rintro rfl
      exact hs.noSlash (List.mem_reverse.1 hc)
    simpa using hne
  have hkeep : s.reverse.dropWhile (fun c => c == '/') = s.reverse := by
    cases hcons : s.reverse with
    | nil =>
        rfl
    | cons c rest =>
        have hc := hall c (by rw [hcons]; simp)
        simp only [bne_iff_ne] at hc
        simp [hc]
  have hdrop : s.reverse.dropWhile (fun c => c != '/') = [] :=
    List.dropWhile_eq_nil_iff.2 hall
  have habs : isAbsolute s = false := by
    cases s with
    | nil =>
        rfl
    | cons c rest =>
        have hc := hall c (by simp)
        simpa [isAbsolute] using hc
  rw [dirname, hkeep, hdrop]
  simp [habs]

theorem intercalate_concat {names : List Seg} (hne : names ≠ []) (s : Seg) :
    ['/'].intercalate (names ++ [s]) = ['/'].intercalate names ++ '/' :: s := by
  induction names with
  | nil =>
      exact absurd rfl hne
  | cons t names ih =>
      cases names with
      | nil =>
          simp [List.intercalate]
      | cons u names =>
          have hrest := ih (List.cons_ne_nil u names)
          simp only [List.cons_append, List.intercalate_cons_cons] at hrest ⊢
          rw [hrest]
          simp

/-- The directory of a resolved path is the location without its last name. -/
theorem locate_dirname_resolve (cwd : List Char) (paths : List (List Char)) :
    locate (dirname (resolve cwd paths)) = (locate (resolve cwd paths)).dropLast := by
  have hloc := locate_resolve cwd paths
  have hnames := locate_names (resolvedPath cwd paths.reverse [])
  have hstr : resolve cwd paths =
      '/' :: ['/'].intercalate (locate (resolvedPath cwd paths.reverse [])) := rfl
  generalize hl : locate (resolvedPath cwd paths.reverse []) = names at hloc hnames hstr
  rw [hloc, hstr]
  -- the root is its own directory; elsewhere the last name goes
  rcases List.eq_nil_or_concat names with rfl | ⟨init, s, rfl⟩
  · decide
  · have hname := hnames s (by simp)
    by_cases hinit : init = []
    · subst hinit
      have hdir := dirname_of_name [] hname
      have hroot : locate [] = [] := rfl
      simpa [List.intercalate, hroot] using hdir
    · have hdir := dirname_of_name ('/' :: ['/'].intercalate init) hname
      have hback := locate_cons_slash [] (['/'].intercalate init)
      have hsegs : segments (['/'].intercalate init) = init :=
        segments_intercalate (fun t ht => (hnames t (by simp [ht])).noSlash) hinit
      rw [hsegs, foldl_push_of_names (fun t ht => hnames t (by simp [ht]))] at hback
      rw [List.concat_eq_append, intercalate_concat hinit]
      have hnil : locate [] = [] := rfl
      simp only [hnil, List.nil_append, List.reverse_nil, List.append_nil,
        List.reverse_reverse] at hback
      simpa [hback] using hdir

/-- Trailing slashes do not count for `dirname`. -/
theorem locate_dirname_slash (dir : List Char) :
    locate (dirname (dir ++ ['/'])) = locate (dirname dir) := by
  have hbody : ((dir ++ ['/']).reverse.dropWhile fun c => c == '/') =
      dir.reverse.dropWhile fun c => c == '/' := by
    simp
  cases dir with
  | nil =>
      decide
  | cons c dir =>
      have habs : isAbsolute (c :: dir ++ ['/']) = isAbsolute (c :: dir) := rfl
      simp only [dirname, hbody, habs]

/-- The directory of a path string lies on the way to its location, or below it (behind `..`). -/
theorem locate_dirname (p : List Char) :
    locate (dirname p) <+: locate p ∨ locate p <+: locate (dirname p) := by
  -- by the length: trailing slashes are cut first
  induction hn : p.length using Nat.strong_induction_on generalizing p with
  | _ n ih =>
      rcases exists_last_segment p with ⟨s, hs, ⟨rfl, hsegs⟩ | ⟨dir, rfl, hsegs⟩⟩
      · by_cases hname : Name p
        · have hnil : locate (dirname p) = [] := by
            rw [dirname_noSlash hname]
            rfl
          exact Or.inl (hnil ▸ List.nil_prefix)
        · have hroot : locate p = (push false [].reverse p).reverse := by
            simp [locate, normalizeSegments, hsegs]
          have hup := push_of_not_name [] hs hname
          rw [← hroot, List.prefix_nil] at hup
          exact Or.inr (hup ▸ List.nil_prefix)
      · have hloc : locate (dir ++ '/' :: s) = (push false (locate dir).reverse s).reverse := by
          simp [locate_cons_slash, segments_noSlash hs]
        by_cases hnil : s = []
        · subst hnil
          have hlt : dir.length < n := by
            rw [← hn]
            simp
          have hsame : locate (dir ++ ['/']) = locate dir := by simpa using hloc
          rw [locate_dirname_slash, hsame]
          exact ih dir.length hlt dir rfl
        · rw [locate_dirname_filled dir hnil hs, hloc]
          by_cases hname : Name s
          · exact Or.inl (by simp [push_name hname])
          · exact Or.inr (push_of_not_name _ hs hname)

/-- What `dirname` leaves of an absolute path string that has a name: a shorter string that is
absolute, if it is not empty. -/
theorem dirname_rest {q : List Char} {c : Char} {rest : List Char}
    (hrest : (('/' :: q).reverse.dropWhile fun c => c == '/').dropWhile (fun c => c != '/') =
      c :: rest) : rest.length < q.length ∧ (rest ≠ [] → isAbsolute rest.reverse = true) := by
  have hbody := List.dropWhile_suffix (l := ('/' :: q).reverse) fun c => c == '/'
  have hfirst := List.head?_dropWhile_not (fun c => c == '/') ('/' :: q).reverse
  revert hrest hbody hfirst
  generalize ('/' :: q).reverse.dropWhile (fun c => c == '/') = body
  intro hrest hbody hfirst
  have hsuffix : c :: rest <:+ ('/' :: q).reverse :=
    hrest ▸ (List.dropWhile_suffix fun c => c != '/').trans hbody
  constructor
  · -- the last name has a letter, and its slash goes too
    cases body with
    | nil =>
        cases hrest
    | cons d body =>
        have hd : (d != '/') = true := by simpa using hfirst
        have hstep : (d :: body).dropWhile (fun c => c != '/') = body.dropWhile fun c => c != '/' :=
          List.dropWhile_cons_of_pos hd
        rw [hstep] at hrest
        have hup : (body.dropWhile fun c => c != '/').length ≤ body.length :=
          (List.dropWhile_suffix _).length_le
        rw [hrest] at hup
        have hlength := hbody.length_le
        simp only [List.length_reverse, List.length_cons] at hup hlength
        omega
  · intro hne
    rcases hsuffix with ⟨front, hfront⟩
    have hback := congrArg List.reverse hfront
    simp only [List.reverse_append, List.reverse_cons, List.reverse_reverse] at hback
    cases hrev : rest.reverse with
    | nil =>
        exact absurd (List.reverse_eq_nil_iff.1 hrev) hne
    | cons e init =>
        rw [hrev] at hback
        have he : e = '/' := (List.cons.inj hback).1
        simp [isAbsolute, he]

/-- The directory of an absolute path string is a shorter one, down to the root. -/
theorem dirname_shorter {p : List Char} (habs : isAbsolute p = true) (hroot : p ≠ dirname p) :
    (dirname p).length < p.length ∧ isAbsolute (dirname p) = true := by
  obtain ⟨q, rfl⟩ : ∃ q, p = '/' :: q := by
    cases p with
    | nil =>
        cases habs
    | cons c q =>
        have hc : c = '/' := by simpa [isAbsolute] using habs
        exact ⟨q, by rw [hc]⟩
  have hslash : dirname ('/' :: q) = ['/'] → (dirname ('/' :: q)).length < ('/' :: q).length ∧
      isAbsolute (dirname ('/' :: q)) = true := by
    intro hd
    rw [hd] at hroot ⊢
    refine ⟨?_, rfl⟩
    cases q with
    | nil =>
        exact absurd rfl hroot
    | cons c q =>
        simp
  cases hrest : (('/' :: q).reverse.dropWhile fun c => c == '/').dropWhile fun c => c != '/' with
  | nil =>
      refine hslash ?_
      simp only [dirname, hrest, habs, if_true]
  | cons c rest =>
      cases rest with
      | nil =>
          refine hslash ?_
          simp only [dirname, hrest]
      | cons d rest =>
          rcases dirname_rest hrest with ⟨hlength, habsolute⟩
          have hdir : dirname ('/' :: q) =
              if d :: rest = ['/'] then ['/', '/'] else (d :: rest).reverse := by
            simp only [dirname, hrest]
          rw [hdir]
          split
          case isTrue heq =>
              rw [heq] at hlength
              refine ⟨?_, rfl⟩
              simp only [List.length_cons, List.length_nil] at hlength ⊢
              omega
          case isFalse =>
              refine ⟨?_, habsolute (List.cons_ne_nil d rest)⟩
              rw [List.length_reverse]
              exact hlength.trans (Nat.lt_succ_self _)

/-- A segment with such a suffix is a name, whatever it was before. -/
theorem name_suffix {s w : Seg} (hs : '/' ∉ s) (hw : '/' ∉ w) (hlong : 3 ≤ w.length) :
    Name (s ++ w) := by
  have hlen : 3 ≤ (s ++ w).length := by
    rw [List.length_append]
    exact Nat.le_add_left_of_le hlong
  -- no special segment is that long
  have hne : ∀ t : Seg, t.length ≤ 2 → s ++ w ≠ t := by
    rintro t ht rfl
    omega
  refine ⟨hne [] (by decide), hne dot (by decide), hne dotdot (by decide), ?_⟩
  intro h
  rcases List.mem_append.1 h with hin | hin
  · exact hs hin
  · exact hw hin

/-- The last segment of a path string, and where the segments before it lead: with a suffix the
string leads there, to that segment with the suffix. -/
theorem locate_suffix (p : List Char) {w : Seg} (hw : '/' ∉ w) (hlong : 3 ≤ w.length) :
    ∃ (base : List Seg) (s : Seg), '/' ∉ s ∧ s = lastSegment p ∧
      locate p = (push false base.reverse s).reverse ∧ locate (p ++ w) = base ++ [s ++ w] ∧
        (Name s → locate (dirname p) = base) := by
  rcases exists_last_segment p with ⟨s, hs, hcase⟩
  have hname := name_suffix hs hw hlong
  have hlast : '/' ∉ s ++ w := hname.noSlash
  rcases hcase with ⟨rfl, hsegs⟩ | ⟨dir, rfl, hsegs⟩
  · refine ⟨[], p, hs, by simp [lastSegment, hsegs], ?_, ?_, ?_⟩
    · simp [locate, normalizeSegments, hsegs]
    · simp [locate, normalizeSegments, segments_noSlash hlast, push_name hname]
    · intro hn
      exact congrArg locate (dirname_noSlash hn)
  · refine ⟨locate dir, s, hs, by simp [lastSegment, hsegs], ?_, ?_, dirname_of_name dir⟩
    · simp [locate_cons_slash, segments_noSlash hs]
    · have happend : (dir ++ '/' :: s) ++ w = dir ++ '/' :: (s ++ w) := by simp
      simp [happend, locate_cons_slash, segments_noSlash hlast, push_name hname]

theorem lastSegment_noSlash {s : Seg} (hs : '/' ∉ s) : lastSegment s = s := by
  simp [lastSegment, segments_noSlash hs]

/-- What stands before a slash does not count. -/
theorem lastSegment_append_slash (dir p : List Char) :
    lastSegment (dir ++ '/' :: p) = lastSegment p := by
  have hne : segments p ≠ [] := List.splitOn_ne_nil '/' p
  rw [lastSegment, segments_cons_slash, List.getLastD_eq_getLast?, List.getLast?_append,
    List.getLast?_eq_some_getLast hne, lastSegment, List.getLastD_eq_getLast?,
    List.getLast?_eq_some_getLast hne]
  rfl

theorem lastSegment_cons_slash (dir : List Char) {s : Seg} (hs : '/' ∉ s) :
    lastSegment (dir ++ '/' :: s) = s := by
  rw [lastSegment_append_slash, lastSegment_noSlash hs]

theorem lastSegment_intercalate (front : List Char) (hfront : front = [] ∨ front = ['/'])
    (names : List Seg) {s : Seg} (hs : '/' ∉ s) :
    lastSegment (front ++ ['/'].intercalate (names ++ [s])) = s := by
  by_cases hnames : names = []
  · have hone : ['/'].intercalate (names ++ [s]) = s := by simp [hnames, List.intercalate]
    rw [hone]
    rcases hfront with rfl | rfl
    · exact lastSegment_noSlash hs
    · exact lastSegment_cons_slash [] hs
  · rw [intercalate_concat hnames, ← List.append_assoc]
    exact lastSegment_cons_slash _ hs

/-- The last segment of a normalised path string is a name it ended with. -/
theorem lastSegment_normalize {p : List Char} {segs : List Seg} {s : Seg} (hs : Name s)
    (hp : segments p = segs ++ [s]) : lastSegment (Posix.normalize p) = s := by
  have hbody : ∀ b, ∃ names, normalizeString p b = ['/'].intercalate (names ++ [s]) := by
    intro b
    refine ⟨(segs.foldl (push b) []).reverse, ?_⟩
    simp [normalizeString, normalizeSegments, hp, push_name hs]
  -- no slash at the end, so none is put back
  have htrailing : (p.getLast? == some '/') = false := by
    rcases exists_last_segment p with ⟨t, ht, hcase⟩
    have hts : ∃ front, p = front ++ s := by
      rcases hcase with ⟨hpt, hsegs⟩ | ⟨dir, hpt, hsegs⟩
      · have hend : t = s := by simpa [hsegs] using congrArg List.getLast? hp
        exact ⟨[], by rw [hpt, hend, List.nil_append]⟩
      · have hend : t = s := by simpa [hsegs] using congrArg List.getLast? hp
        exact ⟨dir ++ ['/'], by rw [hpt, hend, List.append_assoc, List.singleton_append]⟩
    rcases hts with ⟨front, rfl⟩
    have hlast : (front ++ s).getLast? = s.getLast? := by
      rw [List.getLast?_append, List.getLast?_eq_some_getLast hs.ne_nil]
      rfl
    have hslash : s.getLast? ≠ some '/' := fun h => hs.noSlash (List.mem_of_getLast? h)
    simpa [hlast] using hslash
  have hne : p ≠ [] := by
    rintro rfl
    have hlast := congrArg List.getLast? hp
    simp [segments] at hlast
    exact hs.ne_nil hlast
  rcases hbody (!isAbsolute p) with ⟨names, hnames⟩
  have hfilled : ['/'].intercalate (names ++ [s]) ≠ [] := by
    intro hnil
    have hlast := lastSegment_intercalate [] (Or.inl rfl) names hs.noSlash
    rw [hnil] at hlast
    exact hs.ne_nil hlast.symm
  unfold Posix.normalize
  simp only [hne, if_false, hnames, hfilled, htrailing, Bool.false_eq_true]
  split
  · exact lastSegment_intercalate ['/'] (Or.inr rfl) names hs.noSlash
  · exact lastSegment_intercalate [] (Or.inl rfl) names hs.noSlash

theorem lastSegment_join (paths : List (List Char)) {s : Seg} (hs : Name s) :
    lastSegment (join (paths ++ [s])) = s := by
  have hfilter : (paths ++ [s]).filter (fun p => p != []) =
      (paths.filter fun p => p != []) ++ [s] := by
    simp [List.filter_append, hs.ne_nil]
  have hsegs : ∃ segs, segments (['/'].intercalate ((paths ++ [s]).filter fun p => p != [])) =
      segs ++ [s] := by
    rw [hfilter]
    by_cases hnil : paths.filter (fun p => p != []) = []
    · refine ⟨[], ?_⟩
      rw [hnil]
      simpa [List.intercalate] using segments_noSlash hs.noSlash
    · rw [intercalate_concat hnil, segments_cons_slash, segments_noSlash hs.noSlash]
      exact ⟨_, rfl⟩
  rcases hsegs with ⟨segs, hsegs⟩
  have hne : ['/'].intercalate ((paths ++ [s]).filter fun p => p != []) ≠ [] := by
    intro hnil
    have hlast := congrArg List.getLast? hsegs
    rw [hnil] at hlast
    simp [segments] at hlast
    exact hs.ne_nil hlast
  rw [join, if_neg hne]
  exact lastSegment_normalize hs hsegs

/-! ## Paths below a path -/

theorem resolve_one (cwd : List Char) {p : List Char} (habs : isAbsolute p = true) :
    locate (resolve cwd [p]) = locate p := by
  have hne : p ≠ [] := by
    rintro rfl
    cases habs
  have hslash : isAbsolute (p ++ ['/']) = true := by
    cases p with
    | nil => cases habs
    | cons c rest => simpa [isAbsolute] using habs
  have hpath : resolvedPath cwd [p] [] = p ++ ['/'] := by
    have hnil : isAbsolute [] = false := rfl
    simp only [resolvedPath, hnil, hne, hslash, if_true, if_false, Bool.false_eq_true]
  rw [locate_resolve, List.reverse_singleton, hpath, locate_cons_slash]
  have hnil : segments [] = [[]] := rfl
  simp [hnil]

theorem not_absolute_intercalate {parts : List Seg} (hne : parts ≠ [])
    (hparts : ∀ s ∈ parts, s ≠ [] ∧ '/' ∉ s) (y : List Char) :
    ['/'].intercalate parts ≠ [] ∧ isAbsolute (['/'].intercalate parts ++ y) = false := by
  cases parts with
  | nil =>
      exact absurd rfl hne
  | cons s rest =>
      rcases hparts s (by simp) with ⟨hs, hslash⟩
      cases s with
      | nil =>
          exact absurd rfl hs
      | cons c s =>
          have hc : c ≠ '/' := by
            rintro rfl
            exact hslash (by simp)
          cases rest with
          | nil =>
              simp [List.intercalate, isAbsolute, hc]
          | cons t rest =>
              simp [List.intercalate_cons_cons, isAbsolute, hc]

/-- Segments without `..` are walked down one after the other. -/
theorem locate_below {a : List Char} {parts : List Seg} (hparts : ∀ s ∈ parts, '/' ∉ s)
    (hne : parts ≠ []) (hup : dotdot ∉ parts) :
    locate (a ++ '/' :: (['/'].intercalate parts ++ ['/'])) =
      locate a ++ parts.filter fun s => s != [] && s != dot := by
  have hslash := segments_cons_slash (['/'].intercalate parts) []
  have hnil : segments [] = [[]] := rfl
  rw [segments_intercalate hparts hne, hnil] at hslash
  have hall : dotdot ∉ parts ++ [[]] := by
    simpa [dotdot] using hup
  rw [locate_cons_slash, hslash, foldl_push_keeps hall]
  simp

theorem isAbsolute_normalize {p : List Char} (h : isAbsolute p = true) :
    isAbsolute (Posix.normalize p) = true := by
  have hne : p ≠ [] := by
    rintro rfl
    cases h
  unfold Posix.normalize
  simp only [hne, h, if_false, if_true]
  split
  · rfl
  · rfl

theorem isAbsolute_join {p : List Char} (h : isAbsolute p = true) (paths : List (List Char)) :
    isAbsolute (join (p :: paths)) = true := by
  have hne : p ≠ [] := by
    rintro rfl
    cases h
  have hhead : ∀ y, isAbsolute (p ++ y) = true := by
    intro y
    cases p with
    | nil =>
        exact absurd rfl hne
    | cons c p =>
        simpa [isAbsolute] using h
  -- the first part comes first, whatever follows it
  have hjoined : ∃ y, ['/'].intercalate ((p :: paths).filter fun r => r != []) = p ++ y := by
    have hkeep : (p :: paths).filter (fun r => r != []) = p :: paths.filter fun r => r != [] := by
      simp [hne]
    rw [hkeep]
    cases paths.filter fun r => r != [] with
    | nil =>
        exact ⟨[], by simp [List.intercalate]⟩
    | cons q rest =>
        exact ⟨'/' :: ['/'].intercalate (q :: rest), by simp [List.intercalate_cons_cons]⟩
  rcases hjoined with ⟨y, hy⟩
  have hfilled : p ++ y ≠ [] := by simp [hne]
  rw [join, hy, if_neg hfilled]
  exact isAbsolute_normalize (hhead y)

/-- Joined names end with a letter of the last one. -/
theorem getLast_intercalate {parts : List Seg} (hparts : ∀ s ∈ parts, s ≠ [] ∧ '/' ∉ s)
    (hne : parts ≠ []) (front : List Char) :
    (front ++ ['/'].intercalate parts).getLast? ≠ some '/' := by
  rcases List.eq_nil_or_concat parts with rfl | ⟨init, s, rfl⟩
  · exact absurd rfl hne
  · rw [List.concat_eq_append] at hparts ⊢
    rcases hparts s (by simp) with ⟨hs, hslash⟩
    obtain ⟨before, hbefore⟩ : ∃ before, front ++ ['/'].intercalate (init ++ [s]) = before ++ s := by
      by_cases hinit : init = []
      · exact ⟨front, by simp [hinit, List.intercalate]⟩
      · refine ⟨front ++ (['/'].intercalate init ++ ['/']), ?_⟩
        rw [intercalate_concat hinit]
        simp
    intro hlast
    have hsame : (before ++ s).getLast? = s.getLast? := by
      rw [List.getLast?_append, List.getLast?_eq_some_getLast hs]
      rfl
    rw [hbefore, hsame] at hlast
    exact hslash (List.mem_of_getLast? hlast)

/-- The string that `join` normalises: where it leads, and how it ends. -/
theorem intercalate_render {names parts : List Seg} (hnames : ∀ s ∈ names, Name s)
    (hparts : ∀ s ∈ parts, s ≠ [] ∧ '/' ∉ s) (hup : dotdot ∉ parts) :
    ∃ p, ['/'].intercalate (render names :: parts) = '/' :: p ∧
      locate ('/' :: p) = names ++ parts.filter (fun s => s != dot) ∧
      (names ++ parts.filter (fun s => s != dot) ≠ [] → ('/' :: p).getLast? ≠ some '/') := by
  cases parts with
  | nil =>
      refine ⟨['/'].intercalate names, by simp [List.intercalate, render], ?_, ?_⟩
      · simpa using locate_render hnames
      · intro hne
        have hne : names ≠ [] := by simpa using hne
        exact getLast_intercalate (fun s hs => ⟨(hnames s hs).ne_nil, (hnames s hs).noSlash⟩)
          hne ['/']
  | cons s parts =>
      refine ⟨['/'].intercalate names ++ '/' :: ['/'].intercalate (s :: parts), ?_, ?_, ?_⟩
      · simp [List.intercalate_cons_cons, render]
      · have hsegs := segments_intercalate (fun t ht => (hparts t ht).2) (List.cons_ne_nil s parts)
        have hcons := locate_cons_slash ('/' :: ['/'].intercalate names)
          (['/'].intercalate (s :: parts))
        rw [hsegs, foldl_push_keeps hup, locate_render hnames] at hcons
        have hfilter : ((s :: parts).filter fun t => t != [] && t != dot) =
            (s :: parts).filter fun t => t != dot := by
          refine List.filter_congr fun t ht => ?_
          simp [(hparts t ht).1]
        rw [hfilter] at hcons
        simpa using hcons
      · intro _
        have hlast := getLast_intercalate hparts (List.cons_ne_nil s parts)
          ('/' :: ['/'].intercalate names ++ ['/'])
        simpa using hlast

/-- Joining names to the path string of names. -/
theorem join_render {names parts : List Seg} (hnames : ∀ s ∈ names, Name s)
    (hparts : ∀ s ∈ parts, s ≠ [] ∧ '/' ∉ s) (hup : dotdot ∉ parts) :
    join (render names :: parts) = render (names ++ parts.filter fun s => s != dot) := by
  have hfilled : (render names :: parts).filter (fun p => p != []) = render names :: parts := by
    refine List.filter_eq_self.2 fun p hp => ?_
    rcases List.mem_cons.1 hp with rfl | hp
    · rfl
    · simpa using (hparts p hp).1
  rcases intercalate_render hnames hparts hup with ⟨p, hp, hlocate, hlast⟩
  have hbody : normalizeString ('/' :: p) false =
      ['/'].intercalate (names ++ parts.filter fun s => s != dot) := by
    rw [← hlocate]
    rfl
  have habs : isAbsolute ('/' :: p) = true := rfl
  unfold join
  simp only [hfilled, hp, List.cons_ne_nil, if_false, normalize, habs, Bool.not_true, hbody, if_true]
  have hbelow : ∀ s ∈ names ++ parts.filter (fun s => s != dot), s ≠ [] ∧ '/' ∉ s := by
    intro s hs
    rcases List.mem_append.1 hs with hs | hs
    · exact ⟨(hnames s hs).ne_nil, (hnames s hs).noSlash⟩
    · exact hparts s (List.mem_filter.1 hs).1
  by_cases hnil : names ++ parts.filter (fun s => s != dot) = []
  · rw [hnil]
    rfl
  · have hprinted := (not_absolute_intercalate hnil hbelow []).1
    have htrailing : (('/' :: p).getLast? == some '/') = false := by simpa using hlast hnil
    simp only [hprinted, htrailing, if_false, Bool.false_eq_true, render]

end Posix
end Lib
end SignalKBackup
