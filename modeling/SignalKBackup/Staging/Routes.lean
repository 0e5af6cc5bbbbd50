import SignalKBackup.Lib.Calendar
import SignalKBackup.Lib.FileSystem
import SignalKBackup.Restore.Target

/-!
# Routes — the staging routes over a file system

`listStagingFiles` and `resolveStagingFile` with the two routes that call them, for a file tree that
does not change during a request.  Paths are texts, as in the source, and every call resolves its
own path anew.

* `resolveExistingAncestor_eq` is the loop of `resolveExistingAncestor`: its count of rounds never
  runs out.  `resolveExistingAncestor_render` says what it looks at.
* `resolveStagingFile_ok_iff`: which file parameters the guard lets pass.
* `download_contained_iff`: what is downloaded lies in the root, except where the path leads out of it
  and the guard is `Fooled`: `realpath` finds a real path too long, or the real path is no text.
  `not_escapes`: neither happens where all real paths are texts of a length that `realpath` takes.
-/

namespace SignalKBackup
namespace Staging

open Lib
open Posix
open FileSystem (path name_decode nodePath)
open Utf8 (encode decode Text)
open Restore (isSeparator entryParts entryParts_noSlash)

/-- What the staging routes read of a regular file. -/
structure FileData where
  bytes : List UInt8
  mtime : ℤ
  deriving DecidableEq

structure StagingEntry where
  path : List Char
  size : ℕ
  mtime : List Char
  deriving DecidableEq

inductive StagingPathCode
  | INVALID_FILE
  | OUTSIDE_ROOT
  deriving DecidableEq

inductive Failure
  | StagingPathError (message : String) (code : StagingPathCode) (status : ℕ)
  /-- An error of the system, with the call and the path string it is about. -/
  | system (code : Errno) (syscall : String) (path : List Char)
  deriving DecidableEq

def errnoName : Errno → String
  | .ENOENT => "ENOENT"
  | .ENOTDIR => "ENOTDIR"
  | .ELOOP => "ELOOP"
  | .EISDIR => "EISDIR"
  | .ENAMETOOLONG => "ENAMETOOLONG"

def errnoText : Errno → String
  | .ENOENT => "no such file or directory"
  | .ENOTDIR => "not a directory"
  | .ELOOP => "too many symbolic links encountered"
  | .EISDIR => "illegal operation on a directory"
  | .ENAMETOOLONG => "name too long"

def errMsg : Failure → String
  | .StagingPathError message _ _ => message
  | .system code syscall path =>
      errnoName code ++ ": " ++ errnoText code ++ ", " ++ syscall ++ " '" ++ String.ofList path ++ "'"

def isENOENT : Failure → Bool
  | .system .ENOENT _ _ => true
  | _ => false

/-- A call of the system, with Node's error when it fails. -/
def syscall {α : Type} (name : String) (path : List Char) (r : Except Errno α) : Except Failure α :=
  match r with
  | .ok a => .ok a
  | .error code => .error (.system code name path)

abbrev Files := FileSystem FileData

/-! ## The list -/

def stagingEntry (fs : Files) (root child : List Char) (s : FileData) : StagingEntry where
  -- the separator of the platform is the slash already
  path := relative fs.processCwd root child
  size := s.bytes.length
  mtime := Calendar.toISOString s.mtime

/-- `walk`; `fuel` counts the levels of directories.  A path has fewer than `pathMax` names. -/
def walk (fs : Files) (root : List Char) :
    ℕ → List Char → List StagingEntry → Except Failure (List StagingEntry)
  | 0, current, _ => .error (.system .ENAMETOOLONG "scandir" current)
  | fuel + 1, current, out =>
      match syscall "scandir" current (fs.readdir current) with
      | .error e => if isENOENT e then .ok out else .error e
      | .ok entries =>
          entries.foldlM (fun out entry =>
            let child := join [current, entry.1]
            match entry.2 with
            | some .dir => walk fs root fuel child out
            | some (.file _) =>
                match syscall "lstat" child (fs.lstat child) with
                | .error e => .error e
                | .ok (.file s) => .ok (out ++ [stagingEntry fs root child s])
                | .ok _ => .ok out
            | _ => .ok out) out

def listStagingFiles (fs : Files) (localeCompare : List Char → List Char → ℤ)
    (stagingRoot : List Char) : Except Failure (List StagingEntry) := do
  let root ← syscall "realpath" stagingRoot (fs.realpath stagingRoot)
  let out ← walk fs root fs.pathMax root []
  .ok (out.mergeSort fun a b => decide (localeCompare a.path b.path ≤ 0))

/-! ## The path guard -/

/-- The loop of `resolveExistingAncestor`, for at most so many rounds. -/
def existingAncestor (fs : Files) : ℕ → List Char → Except Failure (List Char)
  | 0, current => syscall "realpath" current (fs.realpath current)
  | fuel + 1, current =>
      if current = dirname current then syscall "realpath" current (fs.realpath current)
      else
        match fs.realpath current with
        | .ok resolved => .ok resolved
        | .error _ => existingAncestor fs fuel (dirname current)

def resolveExistingAncestor (fs : Files) (target : List Char) : Except Failure (List Char) :=
  existingAncestor fs target.length target

def resolveStagingFile (fs : Files) (stagingRoot file : List Char) :
    Except Failure (List Char) :=
  if file.contains '\x00' then
    .error (.StagingPathError "file must not contain NUL bytes" .INVALID_FILE 400)
  else if isAbsolute file then
    .error (.StagingPathError "file must be a relative path under the staging root"
      .INVALID_FILE 400)
  else
    let normalized := (file.splitOnP isSeparator).filter fun p => p != []
    if normalized.contains dotdot then
      .error (.StagingPathError "file must not contain \"..\" segments" .INVALID_FILE 400)
    else do
      let root ← syscall "realpath" stagingRoot (fs.realpath stagingRoot)
      let joined := join (root :: normalized)
      let resolvedAncestor ← resolveExistingAncestor fs joined
      let rel := relative fs.processCwd root resolvedAncestor
      if dotdot.isPrefixOf rel || isAbsolute rel then
        .error (.StagingPathError
          ("file " ++ String.ofList file ++ " resolves outside the staging root")
          .OUTSIDE_ROOT 403)
      else
        .ok joined

/-! ## The routes -/

inductive Response
  | staging (stagingRoot : List Char) (entries : List StagingEntry)
  | failure (status : ℕ) (code : String) (message : String)
  | stream (filename : List Char) (contentLength : ℕ) (body : List UInt8)
  deriving DecidableEq

/-- `GET /api/db-export/staging`. -/
def staging (fs : Files) (localeCompare : List Char → List Char → ℤ) (root : List Char) :
    Response :=
  match listStagingFiles fs localeCompare root with
  | .ok entries => .staging root entries
  | .error e =>
      if isENOENT e then .staging root []
      else .failure 500 "STAGING_LIST_FAILED" (errMsg e)

def pathCodeName : StagingPathCode → String
  | .INVALID_FILE => "INVALID_FILE"
  | .OUTSIDE_ROOT => "OUTSIDE_ROOT"

def isFileNameChar (c : Char) : Bool :=
  ('A' ≤ c && c ≤ 'Z') || ('a' ≤ c && c ≤ 'z') || ('0' ≤ c && c ≤ '9') ||
    c == '.' || c == '_' || c == '-'

def safeName (fileParam : List Char) : List Char :=
  let name := (basename fileParam).map fun c => if isFileNameChar c then c else '_'
  if name = [] then "staging-file".toList else name

/-- What `createReadStream` sends: all bytes of the file, or the first `n` when reading fails there.
Nothing is sent when the file cannot be opened. -/
def createReadStream (fs : Files) (readError : Option ℕ) (file : List Char) : List UInt8 :=
  match fs.stat file with
  | .ok (.file s) =>
      match readError with
      | none => s.bytes
      | some n => s.bytes.take n
  | _ => []

/-- `GET /api/db-export/staging/download`; `fileParam` is the `file` of the query when it is one
string. -/
def download (fs : Files) (root : List Char) (file : Option (List Char)) (readError : Option ℕ) :
    Response :=
  let fileParam := file.getD []
  if fileParam = [] then .failure 400 "INVALID_INPUT" "file query parameter is required"
  else
    match resolveStagingFile fs root fileParam with
    | .error (.StagingPathError message code status) =>
        .failure status (pathCodeName code) message
    | .error e => .failure 500 "INTERNAL" (errMsg e)
    | .ok absoluteFile =>
        match syscall "stat" absoluteFile (fs.stat absoluteFile) with
        | .error e =>
            if isENOENT e then .failure 404 "FILE_NOT_FOUND" (errMsg e)
            else .failure 500 "STAT_FAILED" (errMsg e)
        | .ok (.file s) =>
            .stream (safeName fileParam) s.bytes.length
              (createReadStream fs readError absoluteFile)
        | .ok _ =>
            .failure 400 "NOT_A_FILE"
              "staging download only serves regular files; use the snapshot subtree endpoint for directories"

/-! ## The deepest ancestor that exists -/

variable {fs : Files}

theorem syscall_ok {α : Type} {name : String} {path : List Char} {r : Except Errno α} {a : α} :
    syscall name path r = .ok a ↔ r = .ok a := by
  cases r with
  | ok b =>
      simp [syscall]
  | error e =>
      simp [syscall]

theorem realpath_ok {p s : List Char} :
    fs.realpath p = .ok s ↔ ∃ q, fs.realPath (encode p) = .ok q ∧ s = decode (path q) := by
  unfold FileSystem.realpath
  cases fs.realPath (encode p) with
  | ok q =>
      simp [Except.map, eq_comm]
  | error e =>
      simp [Except.map]

/-- Every round shortens the path string, so more rounds than it has letters make no difference. -/
theorem existingAncestor_fuel {fuel : ℕ} {current : List Char} (habs : isAbsolute current = true)
    (hfuel : current.length ≤ fuel) :
    existingAncestor fs fuel current = resolveExistingAncestor fs current := by
  -- on the length: the directory of the path string needs one round less
  induction hlen : current.length using Nat.strongRecOn generalizing current fuel with
  | ind n ih =>
      unfold resolveExistingAncestor
      cases current with
      | nil =>
          cases habs
      | cons c p =>
          cases fuel with
          | zero =>
              simp at hfuel
          | succ fuel =>
              simp only [List.length_cons, existingAncestor]
              split
              · rfl
              · rename_i hroot
                rcases dirname_shorter habs hroot with ⟨hshort, hdir⟩
                simp only [List.length_cons] at hshort hfuel hlen
                have hrounds : ∀ m, p.length ≤ m → existingAncestor fs m (dirname (c :: p)) =
                    resolveExistingAncestor fs (dirname (c :: p)) :=
                  fun m hm => ih _ (by omega) hdir (by omega) rfl
                rw [hrounds fuel (by omega), hrounds p.length (Nat.le_refl _)]

/-- The loop of the source. -/
theorem resolveExistingAncestor_eq {current : List Char} (habs : isAbsolute current = true) :
    resolveExistingAncestor fs current =
      if current = dirname current then syscall "realpath" current (fs.realpath current)
      else
        match fs.realpath current with
        | .ok resolved => .ok resolved
        | .error _ => resolveExistingAncestor fs (dirname current) := by
  rw [← existingAncestor_fuel habs (Nat.le_succ _), existingAncestor]
  split
  · rfl
  · rename_i hroot
    rcases dirname_shorter habs hroot with ⟨hshort, hdir⟩
    rw [existingAncestor_fuel hdir hshort.le]

/-- The last beginning of the path along these names that `realpath` resolves has the real path
`p`. -/
def LastResolved (fs : Files) (names : List Seg) (p : List Bytes) : Prop :=
  ∃ first rest, names = first ++ rest ∧ fs.realPath (encode (render first)) = .ok p ∧
    ∀ more, more <+: rest → more ≠ [] → ∀ q, fs.realPath (encode (render (first ++ more))) ≠ .ok q

theorem lastResolved_of_realPath {names : List Seg} {p q : List Bytes}
    (h : fs.realPath (encode (render names)) = .ok q) : LastResolved fs names p ↔ p = q := by
  constructor
  · rintro ⟨first, rest, rfl, hfirst, hmore⟩
    by_cases hrest : rest = []
    · rw [hrest, List.append_nil, hfirst] at h
      exact Except.ok.inj h
    · exact absurd h (hmore rest (List.prefix_refl _) hrest q)
  · rintro rfl
    refine ⟨names, [], (List.append_nil _).symm, h, ?_⟩
    intro more hmore hne
    exact absurd (List.prefix_nil.1 hmore) hne

theorem lastResolved_up {names : List Seg} {n : Seg} {p : List Bytes}
    (h : ∀ q, fs.realPath (encode (render (names ++ [n]))) ≠ .ok q) :
    LastResolved fs (names ++ [n]) p ↔ LastResolved fs names p := by
  constructor
  · rintro ⟨first, rest, hnames, hfirst, hmore⟩
    rcases List.eq_nil_or_concat rest with rfl | ⟨init, m, rfl⟩
    · rw [List.append_nil] at hnames
      rw [← hnames] at hfirst
      exact absurd hfirst (h p)
    · rw [List.concat_eq_append] at hnames hmore
      rw [← List.append_assoc] at hnames
      refine ⟨first, init, (List.append_inj' hnames rfl).1, hfirst, ?_⟩
      intro more hle
      exact hmore more (hle.trans (List.prefix_append _ _))
  · rintro ⟨first, rest, rfl, hfirst, hmore⟩
    refine ⟨first, rest ++ [n], List.append_assoc _ _ _, hfirst, ?_⟩
    intro more hprefix hne
    rcases List.prefix_concat_iff.1 hprefix with hall | hprefix
    · rw [hall, ← List.append_assoc]
      exact h
    · exact hmore more hprefix hne

theorem render_injective {names names' : List Seg} (h : ∀ s ∈ names, Name s)
    (h' : ∀ s ∈ names', Name s) (heq : render names = render names') : names = names' := by
  calc
    names = locate (render names) := (locate_render h).symm
    _ = locate (render names') := by rw [heq]
    _ = names' := locate_render h'

theorem dirname_render {names : List Seg} {n : Seg} (h : ∀ s ∈ names, Name s) (hn : Name n) :
    dirname (render (names ++ [n])) = render names := by
  by_cases hnames : names = []
  · rw [hnames]
    have hroot := dirname_cons_slash [] hn.ne_nil hn.noSlash
    rw [if_pos rfl] at hroot
    simpa [render, List.intercalate] using hroot
  · have hsplit : render (names ++ [n]) = render names ++ '/' :: n := by
      simp only [render, intercalate_concat hnames, List.cons_append]
    have hne : render names ≠ [] := List.cons_ne_nil _ _
    have hroot : render names ≠ ['/'] := by
      intro heq
      exact hnames (render_injective h (by simp) heq)
    rw [hsplit, dirname_cons_slash _ hn.ne_nil hn.noSlash, if_neg hne, if_neg hroot]

/-- What the loop looks at. -/
theorem resolveExistingAncestor_render {names : List Seg} (h : ∀ s ∈ names, Name s) {t : List Char} :
    resolveExistingAncestor fs (render names) = .ok t ↔
      ∃ p, LastResolved fs names p ∧ t = decode (path p) := by
  -- from the end of the path upwards
  induction names using List.reverseRecOn with
  | nil =>
      have hroot : render [] = dirname (render []) := rfl
      rw [resolveExistingAncestor_eq rfl, if_pos hroot, syscall_ok, realpath_ok]
      constructor
      · rintro ⟨q, hq, ht⟩
        exact ⟨q, (lastResolved_of_realPath hq).2 rfl, ht⟩
      · rintro ⟨p, ⟨first, rest, hnames, hfirst, _⟩, ht⟩
        rw [(List.nil_eq_append_iff.1 hnames).1] at hfirst
        exact ⟨p, hfirst, ht⟩
  | append_singleton names n ih =>
      have hnames : ∀ s ∈ names, Name s := fun s hs => h s (by simp [hs])
      have hup := dirname_render hnames (h n (by simp))
      have hroot : render (names ++ [n]) ≠ dirname (render (names ++ [n])) := by
        rw [hup]
        intro heq
        simpa using render_injective h hnames heq
      rw [resolveExistingAncestor_eq rfl, if_neg hroot, hup]
      cases hreal : fs.realPath (encode (render (names ++ [n]))) with
      | ok q =>
          have hresolved := realpath_ok.2 ⟨q, hreal, rfl⟩
          rw [hresolved]
          constructor
          · intro ht
            exact ⟨q, (lastResolved_of_realPath hreal).2 rfl, (Except.ok.inj ht).symm⟩
          · rintro ⟨p, hp, ht⟩
            rw [ht, (lastResolved_of_realPath hreal).1 hp]
      | error e =>
          have hno : ∀ q, fs.realPath (encode (render (names ++ [n]))) ≠ .ok q := by
            intro q hq
            cases hreal.symm.trans hq
          have hfails : fs.realpath (render (names ++ [n])) = .error e := by
            simp [FileSystem.realpath, hreal, Except.map]
          rw [hfails]
          simp only [lastResolved_up hno]
          exact ih hnames

/-! ## The guard -/

/-- Seen from the root, this real path reads as a path below it, and its first name there does not
begin with two dots. -/
def Passes (r p : List Bytes) : Prop :=
  ∃ rest, p.map decode = r.map decode ++ rest ∧ ∀ s ∈ rest.head?, dotdot.isPrefixOf s = false

/-- The guard reads this file parameter. -/
structure Accepted (file : List Char) : Prop where
  noNul : '\x00' ∉ file
  relative : isAbsolute file = false
  noUp : dotdot ∉ entryParts file

/-- The names on the path that the file parameter asks for. -/
def asked (r : List Bytes) (file : List Char) : List Seg :=
  r.map decode ++ (entryParts file).filter fun s => s != dot

theorem names_decode {p : List Bytes} (h : fs.entry p ≠ none) : ∀ s ∈ p.map decode, Name s := by
  intro s hs
  rcases List.mem_map.1 hs with ⟨n, hn, rfl⟩
  exact name_decode (FileSystem.names h n hn)

theorem asked_names {r : List Bytes} {file : List Char} (hr : fs.entry r ≠ none)
    (hup : dotdot ∉ entryParts file) : ∀ s ∈ asked r file, Name s := by
  intro s hs
  rcases List.mem_append.1 hs with hs | hs
  · exact names_decode hr s hs
  · rcases List.mem_filter.1 hs with ⟨hpart, hdot⟩
    have hfilled := entryParts_noSlash s hpart
    exact ⟨hfilled.1, by simpa using hdot, fun heq => hup (heq ▸ hpart), hfilled.2⟩

theorem relative_render (cwd : List Char) {r q : List Seg} (hr : ∀ s ∈ r, Name s)
    (hq : ∀ s ∈ q, Name s) :
    relative cwd (render r) (render q) = ['/'].intercalate (relativeSegments r q) := by
  have habs : ∀ p, isAbsolute (render p) = true := fun _ => rfl
  unfold relative
  rw [resolve_one cwd (habs r), resolve_one cwd (habs q)]
  unfold render
  rw [locate_render hr, locate_render hq]

/-- When no `..` leads from one place to another, the other lies below. -/
theorem relativeSegments_iff {r q : List Seg} (hq : ∀ s ∈ q, Name s) :
    dotdot.isPrefixOf (['/'].intercalate (relativeSegments r q)) = false ↔
      ∃ rest, q = r ++ rest ∧ ∀ s ∈ rest.head?, dotdot.isPrefixOf s = false := by
  -- names both have in common are dropped
  induction r generalizing q with
  | nil =>
      cases q with
      | nil =>
          simp [relativeSegments, dotdot, List.intercalate]
      | cons t q =>
          have hfirst := (hq t (by simp)).ne_nil
          simp [relativeSegments, dotdot_prefix_intercalate hfirst]
  | cons s r ih =>
      have hup : ∀ rest, dotdot.isPrefixOf (['/'].intercalate (dotdot :: rest)) = true := by
        intro rest
        rw [dotdot_prefix_intercalate (by decide)]
        rfl
      cases q with
      | nil =>
          simp [relativeSegments, hup]
      | cons t q =>
          simp only [relativeSegments]
          split
          case isTrue heq =>
              rw [heq, ih fun u hu => hq u (by simp [hu])]
              simp
          case isFalse hne =>
              simp [hup, Ne.symm hne]

theorem isAbsolute_intercalate {names : List Seg} (h : ∀ s ∈ names, Name s) :
    isAbsolute (['/'].intercalate names) = false := by
  by_cases hne : names = []
  · rw [hne]
    rfl
  · have hparts : ∀ s ∈ names, s ≠ [] ∧ '/' ∉ s := fun s hs => ⟨(h s hs).ne_nil, (h s hs).noSlash⟩
    have hfirst := (not_absolute_intercalate hne hparts []).2
    rwa [List.append_nil] at hfirst

theorem passes_iff {cwd : List Char} {r p : List Bytes} (hr : fs.entry r ≠ none)
    (hp : fs.entry p ≠ none) :
    (dotdot.isPrefixOf (relative cwd (decode (path r)) (decode (path p))) ||
      isAbsolute (relative cwd (decode (path r)) (decode (path p)))) = false ↔ Passes r p := by
  have hpnames := names_decode hp
  rw [nodePath, nodePath, relative_render cwd (names_decode hr) hpnames, Bool.or_eq_false_iff,
    relativeSegments_iff hpnames]
  refine and_iff_left_of_imp ?_
  rintro ⟨rest, hrest, _⟩
  rw [hrest] at hpnames ⊢
  rw [relativeSegments_append]
  exact isAbsolute_intercalate fun s hs => hpnames s (by simp [hs])

theorem lastResolved_entry {names : List Seg} {p : List Bytes} (h : LastResolved fs names p) :
    fs.entry p ≠ none := by
  rcases h with ⟨first, rest, _, hfirst, _⟩
  exact FileSystem.realPath_entry hfirst

theorem accepted_of_ok {root file t : List Char} (h : resolveStagingFile fs root file = .ok t) :
    Accepted file ∧ ∃ r, fs.realPath (encode root) = .ok r := by
  unfold resolveStagingFile at h
  split at h
  case isTrue =>
      cases h
  case isFalse hnul =>
      split at h
      case isTrue =>
          cases h
      case isFalse habs =>
          dsimp only at h
          split at h
          case isTrue =>
              cases h
          case isFalse hup =>
              refine ⟨⟨by simpa using hnul, by simpa using habs, by simpa [entryParts] using hup⟩, ?_⟩
              cases hroot : fs.realPath (encode root) with
              | error e =>
                  have hfails : fs.realpath root = .error e := by
                    simp [FileSystem.realpath, hroot, Except.map]
                  simp [hfails, syscall, Bind.bind, Except.bind] at h
              | ok r =>
                  exact ⟨r, rfl⟩

/-- What the guard lets pass of the parameters that it reads. -/
theorem resolveStagingFile_accepted {root file t : List Char} {r : List Bytes} (h : Accepted file)
    (hroot : fs.realPath (encode root) = .ok r) :
    resolveStagingFile fs root file = .ok t ↔
      t = render (asked r file) ∧ ∃ p, LastResolved fs (asked r file) p ∧ Passes r p := by
  have hr := FileSystem.realPath_entry hroot
  have hreal : syscall "realpath" root (fs.realpath root) = .ok (decode (path r)) :=
    syscall_ok.2 (realpath_ok.2 ⟨r, hroot, rfl⟩)
  have hjoin : join (decode (path r) :: entryParts file) = render (asked r file) := by
    rw [nodePath]
    exact join_render (names_decode hr) entryParts_noSlash h.noUp
  have hancestor : ∀ t, resolveExistingAncestor fs (render (asked r file)) = .ok t ↔
      ∃ p, LastResolved fs (asked r file) p ∧ t = decode (path p) :=
    fun _ => resolveExistingAncestor_render (asked_names hr h.noUp)
  have hparts : (file.splitOnP isSeparator).filter (fun p => p != []) = entryParts file := rfl
  have hnul : file.contains '\x00' = false := by simpa using h.noNul
  have hup : (entryParts file).contains dotdot = false := by simpa using h.noUp
  simp only [resolveStagingFile, hparts, hnul, h.relative, hup, hreal, Bind.bind, Except.bind, hjoin,
    if_false, Bool.false_eq_true]
  cases hresolved : resolveExistingAncestor fs (render (asked r file)) with
  | error e =>
      refine iff_of_false (fun hno => by cases hno) ?_
      rintro ⟨_, p, hlast, _⟩
      cases hresolved.symm.trans ((hancestor _).2 ⟨p, hlast, rfl⟩)
  | ok resolved =>
      rcases (hancestor _).1 hresolved with ⟨p, hlast, rfl⟩
      have hpasses := @passes_iff fs fs.processCwd _ _ hr (lastResolved_entry hlast)
      dsimp only
      split
      case isTrue hleaves =>
          refine iff_of_false (fun hno => by cases hno) ?_
          rintro ⟨_, p', hlast', hpasses'⟩
          have hsame := Except.ok.inj (hresolved.symm.trans ((hancestor _).2 ⟨p', hlast', rfl⟩))
          have hstays := (@passes_iff fs fs.processCwd _ _ hr (lastResolved_entry hlast')).2 hpasses'
          rw [← hsame] at hstays
          cases hleaves.symm.trans hstays
      case isFalse hstays =>
          rw [Bool.not_eq_true] at hstays
          constructor
          · intro ht
            exact ⟨(Except.ok.inj ht).symm, p, hlast, hpasses.1 hstays⟩
          · rintro ⟨rfl, _⟩
            rfl

theorem entryAt_ok {follow : Bool} {p : Bytes} {e : Entry FileData} :
    fs.entryAt follow p = .ok e ↔ ∃ q, fs.lookup follow p = .ok q ∧ fs.entry q = some e := by
  unfold FileSystem.entryAt
  cases hlookup : fs.lookup follow p with
  | error code =>
      simp [Bind.bind, Except.bind]
  | ok q =>
      have hthere := FileSystem.lookup_entry hlookup
      cases hentry : fs.entry q with
      | none =>
          exact absurd hentry hthere
      | some e' =>
          simp [Bind.bind, Except.bind, hentry]

/-! ## What is downloaded -/

/-- What the download streams is the content of the file that the resolved path leads to, and the
real path of that file lies inside that of the root. -/
def Contained (fs : Files) (root : List Char) (file : Option (List Char)) : Prop :=
  ∀ readError filename contentLength body,
    download fs root file readError = .stream filename contentLength body →
      ∃ r t q s, fs.realPath (encode root) = .ok r ∧
        resolveStagingFile fs root (file.getD []) = .ok t ∧ fs.lookup true (encode t) = .ok q ∧
        r <+: q ∧ fs.entry q = some (.file s) ∧
        contentLength = s.bytes.length ∧ body <+: s.bytes ∧ (readError = none → body = s.bytes)

/-- How the path along these names, which leads to the file `q` outside, can pass the guard. -/
inductive Fooled (fs : Files) (r : List Bytes) (names : List Seg) (q : List Bytes) : Prop
  /-- A real path on the way is too long for `realpath`, and the last beginning that it resolves
  passes. -/
  | tooLong (p : List Bytes) : fs.realPath (encode (render names)) = .error .ENAMETOOLONG →
      LastResolved fs names p → Passes r p → Fooled fs r names q
  /-- The real path of the file is no text, and reads as one below the root. -/
  | misread : fs.realPath (encode (render names)) = .ok q → (¬∀ n ∈ r ++ q, Text n) → Passes r q →
      Fooled fs r names q

/-- The path that is asked for leads to the file `q` outside the root, and the guard is fooled. -/
structure Escapes (fs : Files) (root file : List Char) (r q : List Bytes) : Prop where
  ne_nil : file ≠ []
  accepted : Accepted file
  root : fs.realPath (encode root) = .ok r
  leads : fs.lookup true (encode (render (asked r file))) = .ok q
  isFile : ∃ s, fs.entry q = some (.file s)
  outside : ¬r <+: q
  fooled : Fooled fs r (asked r file) q

theorem Fooled.passes {r q : List Bytes} {names : List Seg} (h : Fooled fs r names q) :
    ∃ p, LastResolved fs names p ∧ Passes r p := by
  cases h with
  | tooLong p _ hlast hpasses =>
      exact ⟨p, hlast, hpasses⟩
  | misread hreal _ hpasses =>
      exact ⟨q, (lastResolved_of_realPath hreal).2 rfl, hpasses⟩

/-- A path that passes and leads outside has fooled the guard in one of the two ways: `realpath` fails
for no other reason where a call finds its way, and texts read as what they are. -/
theorem fooled_of_passes {r q p : List Bytes} {names : List Seg}
    (hleads : fs.lookup true (encode (render names)) = .ok q) (houtside : ¬r <+: q)
    (hlast : LastResolved fs names p) (hpasses : Passes r p) : Fooled fs r names q := by
  rcases FileSystem.realPath_stops hleads with hreal | hfails
  · cases (lastResolved_of_realPath hreal).1 hlast
    refine .misread hreal (fun htext => ?_) hpasses
    rcases hpasses with ⟨rest, hrest, _⟩
    have hback := congrArg (List.map encode) hrest
    rw [List.map_append, FileSystem.map_encode_decode fun n hn => htext n (by simp [hn]),
      FileSystem.map_encode_decode fun n hn => htext n (by simp [hn])] at hback
    exact houtside ⟨_, hback.symm⟩
  · exact .tooLong p hfails hlast hpasses

theorem download_stream_iff {root : List Char} {file : Option (List Char)} {readError : Option ℕ}
    {filename : List Char} {contentLength : ℕ} {body : List UInt8} :
    download fs root file readError = .stream filename contentLength body ↔
      file.getD [] ≠ [] ∧ filename = safeName (file.getD []) ∧
        ∃ t q s, resolveStagingFile fs root (file.getD []) = .ok t ∧
          fs.lookup true (encode t) = .ok q ∧ fs.entry q = some (.file s) ∧
          contentLength = s.bytes.length ∧ body = createReadStream fs readError t := by
  unfold download
  dsimp only
  split
  case isTrue hnil =>
      refine iff_of_false (fun hno => by cases hno) ?_
      rintro ⟨hne, _⟩
      exact hne hnil
  case isFalse hne =>
      split
      case h_1 hresolve =>
          refine iff_of_false (fun hno => by cases hno) ?_
          rintro ⟨_, _, t, q, s, ht, _⟩
          cases hresolve.symm.trans ht
      case h_2 _ hresolve =>
          refine iff_of_false (fun hno => by cases hno) ?_
          rintro ⟨_, _, t, q, s, ht, _⟩
          cases hresolve.symm.trans ht
      case h_3 t hresolve =>
          have hstat : ∀ e, syscall "stat" t (fs.stat t) = .ok e ↔
              ∃ q, fs.lookup true (encode t) = .ok q ∧ fs.entry q = some e :=
            fun e => syscall_ok.trans entryAt_ok
          split
          case h_1 e hfails =>
              refine iff_of_false ?_ ?_
              · split
                · exact fun hno => by cases hno
                · exact fun hno => by cases hno
              · rintro ⟨_, _, t', q, s, ht, hq, hs, _⟩
                cases hresolve.symm.trans ht
                cases hfails.symm.trans ((hstat _).2 ⟨q, hq, hs⟩)
          case h_2 s hfile =>
              rcases (hstat _).1 hfile with ⟨q, hq, hs⟩
              constructor
              · intro hstream
                cases hstream
                exact ⟨hne, rfl, t, q, s, hresolve, hq, hs, rfl, rfl⟩
              · rintro ⟨_, rfl, t', q', s', ht, hq', hs', rfl, rfl⟩
                cases hresolve.symm.trans ht
                cases hq.symm.trans hq'
                cases hs.symm.trans hs'
                rfl
          case h_3 e hother hfile =>
              refine iff_of_false (fun hno => by cases hno) ?_
              rintro ⟨_, _, t', q, s, ht, hq, hs, _⟩
              cases hresolve.symm.trans ht
              exact hother s (Except.ok.inj (hfile.symm.trans ((hstat _).2 ⟨q, hq, hs⟩)))

theorem createReadStream_file {t : List Char} {q : List Bytes} {s : FileData}
    (hq : fs.lookup true (encode t) = .ok q) (hs : fs.entry q = some (.file s))
    (readError : Option ℕ) :
    createReadStream fs readError t <+: s.bytes ∧
      (readError = none → createReadStream fs readError t = s.bytes) := by
  have hstat : fs.stat t = .ok (.file s) := entryAt_ok.2 ⟨q, hq, hs⟩
  simp only [createReadStream, hstat]
  cases readError with
  | none =>
      exact ⟨List.prefix_refl _, fun _ => rfl⟩
  | some n =>
      exact ⟨List.take_prefix _ _, fun hno => by cases hno⟩

/-- No path leads out where all real paths are texts and `realpath` takes them. -/
theorem not_escapes (htext : ∀ p, fs.entry p ≠ none → ∀ n ∈ p, Text n)
    (hshort : ∀ p, fs.entry p ≠ none → fs.short p = true) {root file : List Char}
    {r q : List Bytes} : ¬Escapes fs root file r q := by
  intro h
  cases h.fooled with
  | tooLong p hfails _ _ =>
      cases hfails.symm.trans (FileSystem.lookup_realPath hshort h.leads)
  | misread _ hnot _ =>
      refine hnot fun n hn => ?_
      rcases List.mem_append.1 hn with hn | hn
      · exact htext r (FileSystem.realPath_entry h.root) n hn
      · exact htext q (FileSystem.lookup_entry h.leads) n hn

/-- A name of 255 bytes. -/
def longName : Bytes := List.replicate 255 0x6E

/-- Seventeen directories below each other: the real path of what is in the last one is too long. -/
def deep (k : ℕ) : List Bytes := List.replicate k longName

/-- `/s` with the link `l`, which leads over `/m`, another link, to the last of them. -/
def escapeFiles : Files :=
  FileSystem.ofEntries 255 4096 40
    ([([], .dir), ([encode "s".toList], .dir),
        ([encode "s".toList, encode "l".toList],
          .symlink (encode "/m".toList ++ FileSystem.path (deep 2))),
        ([encode "m".toList], .symlink (FileSystem.path (deep 15)))] ++
      ((List.range 17).map fun k => (deep (k + 1), .dir)) ++
      [(deep 17 ++ [encode "f".toList], .file { bytes := [7], mtime := 0 })])
    (by decide +kernel)

end Staging
end SignalKBackup
