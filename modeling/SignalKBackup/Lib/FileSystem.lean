import Mathlib.Data.List.Induction
import Mathlib.Data.List.MinMax
import Mathlib.Data.List.Nodup
import SignalKBackup.Lib.PosixPath
import SignalKBackup.Lib.Utf8

/-!
# FileSystem — a file tree with symbolic links, and the system's view of a path

The names of files are bytes.  A tree gives each real path the entry that is there, if any; a
symbolic link is an entry that holds the bytes of a path.  `walk` resolves a path the way the system
does: from directory to directory, each symbolic link replaced by the components of its path.

* The system's calls and the library's `realpath` follow links alike, up to the same number of them.
  The calls take a path of less than `pathMax` bytes, wherever it leads; `realpath` looks at each real
  path on its way, so that these have to stay below `pathMax`, whatever it was given.
* `Leads`: the walks that find their way, one constructor for each way that a name can take them.
* `lookup_entry`: what a path leads to is there, and its real path consists of names.
* `lookup_path`: a real path leads to its own entry; `realPath_lookup` and `realPath_stops`:
  `realpath` leads where the calls lead, or gives up on a path that is too long.
* `nodePath` and `encode_render`: how real paths read as texts, and what the system makes of a text.
* `ofEntries` is the tree of a list of entries.

Access rights are left out.
-/

namespace SignalKBackup
namespace Lib

open Posix
open Utf8 (encode decode Text)

/-- A path, or a name in it, as the system has it. -/
abbrev Bytes := List UInt8

inductive Entry (β : Type)
  | file (data : β)
  | dir
  | symlink (target : Bytes)
  /-- A socket, a pipe or a device. -/
  | other
  deriving DecidableEq

inductive Errno
  | ENOENT
  | ENOTDIR
  | ELOOP
  | EISDIR
  | ENAMETOOLONG
  deriving DecidableEq

/-! ## Names -/

namespace FileSystem

/-- `/` -/
def slash : UInt8 := 0x2F

def dot : Bytes := [0x2E]

def dotdot : Bytes := [0x2E, 0x2E]

/-- A name that a file can have. -/
structure FileName (n : Bytes) : Prop where
  ne_nil : n ≠ []
  ne_dot : n ≠ dot
  ne_dotdot : n ≠ dotdot
  noSlash : slash ∉ n
  noNul : 0 ∉ n

instance (n : Bytes) : Decidable (FileName n) :=
  decidable_of_iff (n ≠ [] ∧ n ≠ dot ∧ n ≠ dotdot ∧ slash ∉ n ∧ 0 ∉ n)
    ⟨fun h => ⟨h.1, h.2.1, h.2.2.1, h.2.2.2.1, h.2.2.2.2⟩,
      fun h => ⟨h.ne_nil, h.ne_dot, h.ne_dotdot, h.noSlash, h.noNul⟩⟩

def components (p : Bytes) : List Bytes :=
  p.splitOn slash

/-- The real path along these names. -/
def path (names : List Bytes) : Bytes :=
  slash :: [slash].intercalate names

end FileSystem

open FileSystem (FileName)

structure FileSystem (β : Type) where
  entry : List Bytes → Option (Entry β)
  /-- How many bytes a name may have, and below how many a path has to stay. -/
  nameMax : ℕ
  pathMax : ℕ
  root : entry [] = some .dir
  parent : ∀ p n, entry (p ++ [n]) ≠ none → entry p = some .dir
  legal : ∀ p, entry p ≠ none → ∀ n ∈ p, FileName n ∧ n.length ≤ nameMax
  /-- The names in a directory, in the order in which the system lists them. -/
  children : List Bytes → List Bytes
  children_nodup : ∀ p, (children p).Nodup
  mem_children : ∀ p n, n ∈ children p ↔ entry (p ++ [n]) ≠ none
  depth : ℕ
  bounded : ∀ p, entry p ≠ none → p.length ≤ depth
  /-- How many symbolic links one path may lead through. -/
  links : ℕ
  cwd : List Bytes
  cwd_dir : entry cwd = some .dir

namespace FileSystem

variable {β : Type}

/-! ## Paths -/

/-- Walks down `names` from the directory `cur`.  `onLink` goes on behind a symbolic link; with
`follow` off the link at the very end is not followed.  `fits` is asked of each real path on the
way. -/
def walk (fs : FileSystem β) (fits : List Bytes → Bool) (follow : Bool)
    (onLink : List Bytes → List Bytes → Except Errno (List Bytes)) :
    List Bytes → List Bytes → Except Errno (List Bytes)
  | cur, [] => .ok cur
  | cur, n :: rest =>
      match fs.entry cur with
      | none => .error .ENOENT
      | some .dir =>
          if n = [] ∨ n = dot then walk fs fits follow onLink cur rest
          else if n = dotdot then walk fs fits follow onLink cur.dropLast rest
          else if fs.nameMax < n.length ∨ fits (cur ++ [n]) = false then .error .ENAMETOOLONG
          else
            match fs.entry (cur ++ [n]) with
            | none => .error .ENOENT
            | some (.symlink target) =>
                if rest = [] ∧ follow = false then .ok (cur ++ [n])
                else onLink (if target.head? = some slash then [] else cur) (components target ++ rest)
            | some _ => walk fs fits follow onLink (cur ++ [n]) rest
      | some _ => .error .ENOTDIR

/-- Walks on behind at most `k` symbolic links. -/
def namei (fs : FileSystem β) (fits : List Bytes → Bool) (follow : Bool) :
    ℕ → List Bytes → List Bytes → Except Errno (List Bytes)
  | 0 => fs.walk fits follow fun _ _ => .error .ELOOP
  | k + 1 => fs.walk fits follow (fs.namei fits follow k)

/-- Where a path starts. -/
def origin (fs : FileSystem β) (p : Bytes) : List Bytes :=
  if p.head? = some slash then [] else fs.cwd

/-- The entry a call of the system finds for a path. -/
def lookup (fs : FileSystem β) (follow : Bool) (p : Bytes) : Except Errno (List Bytes) :=
  if p = [] then .error .ENOENT
  else if fs.pathMax ≤ p.length then .error .ENAMETOOLONG
  else fs.namei (fun _ => true) follow fs.links (fs.origin p) (components p)

/-- This real path can be passed to the system. -/
def short (fs : FileSystem β) (q : List Bytes) : Bool :=
  (path q).length < fs.pathMax

/-- The real path that `realpath` finds. -/
def realPath (fs : FileSystem β) (p : Bytes) : Except Errno (List Bytes) :=
  if p = [] then .error .ENOENT
  else fs.namei fs.short true fs.links (fs.origin p) (components p)

/-- What a path leads to. -/
def entryAt (fs : FileSystem β) (follow : Bool) (p : Bytes) : Except Errno (Entry β) := do
  let q ← fs.lookup follow p
  match fs.entry q with
  | some e => .ok e
  | none => .error .ENOENT

/-- The names in a directory, each with the entry it names. -/
def list (fs : FileSystem β) (p : Bytes) : Except Errno (List (Bytes × Option (Entry β))) := do
  let q ← fs.lookup true p
  match fs.entry q with
  | some .dir => .ok ((fs.children q).map fun n => (n, fs.entry (q ++ [n])))
  | some _ => .error .ENOTDIR
  | none => .error .ENOENT

/-! ## Calls of Node, with texts for paths -/

def realpath (fs : FileSystem β) (p : List Char) : Except Errno (List Char) :=
  (fs.realPath (encode p)).map fun q => decode (path q)

def stat (fs : FileSystem β) (p : List Char) : Except Errno (Entry β) :=
  fs.entryAt true (encode p)

def lstat (fs : FileSystem β) (p : List Char) : Except Errno (Entry β) :=
  fs.entryAt false (encode p)

def readdir (fs : FileSystem β) (p : List Char) : Except Errno (List (Seg × Option (Entry β))) :=
  (fs.list (encode p)).map fun entries => entries.map fun e => (decode e.1, e.2)

/-- `process.cwd()`. -/
def processCwd (fs : FileSystem β) : List Char :=
  decode (path fs.cwd)

/-! ## Real paths -/

variable {fs : FileSystem β}

theorem dropLast_entry {p : List Bytes} (h : fs.entry p ≠ none) : fs.entry p.dropLast ≠ none := by
  rcases List.eq_nil_or_concat p with rfl | ⟨init, n, rfl⟩
  · simp [fs.root]
  · rw [List.concat_eq_append] at h
    simp [fs.parent init n h]

/-- Everything on the way to an entry is a directory. -/
theorem entry_of_append {p q : List Bytes} (h : fs.entry (p ++ q) ≠ none) (hq : q ≠ []) :
    fs.entry p = some .dir := by
  -- from the end of the path upwards
  induction q using List.reverseRecOn with
  | nil =>
      exact absurd rfl hq
  | append_singleton q n ih =>
      rw [← List.append_assoc] at h
      have hdir := fs.parent _ _ h
      by_cases hnil : q = []
      · simpa [hnil] using hdir
      · exact ih (by simp [hdir]) hnil

theorem names {p : List Bytes} (h : fs.entry p ≠ none) : ∀ n ∈ p, FileName n :=
  fun n hn => (fs.legal p h n hn).1

theorem path_append (p q : List Bytes) (hp : p ≠ []) (hq : q ≠ []) :
    path (p ++ q) = path p ++ path q := by
  unfold path
  induction p with
  | nil =>
      exact absurd rfl hp
  | cons n p ih =>
      cases p with
      | nil =>
          cases q with
          | nil => exact absurd rfl hq
          | cons m q =>
              simp [List.intercalate_cons_cons]
      | cons m p =>
          have hrest := ih (by simp)
          simp only [List.cons_append, List.cons.injEq, true_and] at hrest
          simp [List.intercalate_cons_cons, hrest]

/-- A longer way has a longer real path. -/
theorem path_length {p q : List Bytes} (h : p <+: q) : (path p).length ≤ (path q).length := by
  rcases h with ⟨rest, rfl⟩
  by_cases hp : p = []
  · rw [hp]
    simp [path]
  · by_cases hrest : rest = []
    · rw [hrest, List.append_nil]
    · rw [path_append p rest hp hrest, List.length_append]
      exact Nat.le_add_right _ _

theorem length_le_path (p : List Bytes) : p.length ≤ (path p).length := by
  induction p with
  | nil =>
      exact Nat.zero_le _
  | cons n p ih =>
      cases p with
      | nil =>
          simp [path]
      | cons m p =>
          simp only [path, List.intercalate_cons_cons, List.length_cons, List.length_append,
            List.length_nil] at ih ⊢
          omega

theorem short_of_prefix {p q : List Bytes} (h : p <+: q) (hq : fs.short q = true) :
    fs.short p = true := by
  have hlength := path_length h
  simp only [short, decide_eq_true_eq] at hq ⊢
  omega

/-! ## Where a path leads -/

variable {fits : List Bytes → Bool}

/-- The walk goes by this name from the directory it is in. -/
structure Enters (fs : FileSystem β) (fits : List Bytes → Bool) (cur : List Bytes) (n : Bytes) :
    Prop where
  dir : fs.entry cur = some .dir
  notHere : ¬(n = [] ∨ n = dot)
  notUp : n ≠ dotdot
  fits : ¬(fs.nameMax < n.length ∨ fits (cur ++ [n]) = false)

/-- A walk that finds its way to `q`: one constructor for each way that a name can take it. -/
inductive Leads (fs : FileSystem β) (fits : List Bytes → Bool) (follow : Bool)
    (onLink : List Bytes → List Bytes → Except Errno (List Bytes)) (q : List Bytes) :
    List Bytes → List Bytes → Prop
  | here : Leads fs fits follow onLink q q []
  | stays {cur rest : List Bytes} {n : Bytes} : fs.entry cur = some .dir → n = [] ∨ n = dot →
      Leads fs fits follow onLink q cur rest → Leads fs fits follow onLink q cur (n :: rest)
  | up {cur rest : List Bytes} {n : Bytes} : fs.entry cur = some .dir → ¬(n = [] ∨ n = dot) →
      n = dotdot → Leads fs fits follow onLink q cur.dropLast rest →
        Leads fs fits follow onLink q cur (n :: rest)
  | down {cur rest : List Bytes} {n : Bytes} {e : Entry β} : Enters fs fits cur n →
      fs.entry (cur ++ [n]) = some e → (∀ target, e ≠ .symlink target) →
        Leads fs fits follow onLink q (cur ++ [n]) rest →
          Leads fs fits follow onLink q cur (n :: rest)
  /-- A link at the very end, which is not followed. -/
  | ends {cur : List Bytes} {n target : Bytes} : Enters fs fits cur n →
      fs.entry (cur ++ [n]) = some (.symlink target) → follow = false → q = cur ++ [n] →
        Leads fs fits follow onLink q cur [n]
  | link {cur rest : List Bytes} {n target : Bytes} : Enters fs fits cur n →
      fs.entry (cur ++ [n]) = some (.symlink target) → ¬(rest = [] ∧ follow = false) →
        onLink (if target.head? = some slash then [] else cur) (components target ++ rest) = .ok q →
          Leads fs fits follow onLink q cur (n :: rest)

section Walks

variable {follow : Bool} {onLink : List Bytes → List Bytes → Except Errno (List Bytes)}
  {cur names rest q : List Bytes} {n : Bytes}

theorem walk_stays (hdir : fs.entry cur = some .dir) (hstay : n = [] ∨ n = dot) :
    fs.walk fits follow onLink cur (n :: rest) = fs.walk fits follow onLink cur rest := by
  simp only [walk, hdir, if_pos hstay]

theorem walk_up (hdir : fs.entry cur = some .dir) (hstay : ¬(n = [] ∨ n = dot))
    (hup : n = dotdot) :
    fs.walk fits follow onLink cur (n :: rest) = fs.walk fits follow onLink cur.dropLast rest := by
  simp only [walk, hdir, if_neg hstay, if_pos hup]

theorem walk_tooLong (hdir : fs.entry cur = some .dir) (hstay : ¬(n = [] ∨ n = dot))
    (hup : n ≠ dotdot) (hlong : fits (cur ++ [n]) = false) :
    fs.walk fits follow onLink cur (n :: rest) = .error .ENAMETOOLONG := by
  simp only [walk, hdir, if_neg hstay, if_neg hup, if_pos (Or.inr hlong)]

theorem walk_enters (h : Enters fs fits cur n) :
    fs.walk fits follow onLink cur (n :: rest) =
      match fs.entry (cur ++ [n]) with
      | none => .error .ENOENT
      | some (.symlink target) =>
          if rest = [] ∧ follow = false then .ok (cur ++ [n])
          else onLink (if target.head? = some slash then [] else cur) (components target ++ rest)
      | some _ => fs.walk fits follow onLink (cur ++ [n]) rest := by
  rw [walk, h.dir]
  dsimp only
  rw [if_neg h.notHere, if_neg h.notUp, if_neg h.fits]

theorem walk_down_one (h : Enters fs fits cur n) {e : Entry β} (he : fs.entry (cur ++ [n]) = some e)
    (hnot : ∀ target, e ≠ .symlink target) :
    fs.walk fits follow onLink cur (n :: rest) = fs.walk fits follow onLink (cur ++ [n]) rest := by
  rw [walk_enters h, he]
  cases e with
  | symlink target =>
      exact absurd rfl (hnot target)
  | _ =>
      rfl

theorem walk_ends (h : Enters fs fits cur n) {target : Bytes}
    (hlink : fs.entry (cur ++ [n]) = some (.symlink target)) (hoff : follow = false) :
    fs.walk fits follow onLink cur [n] = .ok (cur ++ [n]) := by
  rw [walk_enters h, hlink]
  exact if_pos ⟨rfl, hoff⟩

theorem walk_link (h : Enters fs fits cur n) {target : Bytes}
    (hlink : fs.entry (cur ++ [n]) = some (.symlink target)) (hon : ¬(rest = [] ∧ follow = false)) :
    fs.walk fits follow onLink cur (n :: rest) =
      onLink (if target.head? = some slash then [] else cur) (components target ++ rest) := by
  rw [walk_enters h, hlink]
  exact if_neg hon

theorem leads_of_walk (h : fs.walk fits follow onLink cur names = .ok q) :
    Leads fs fits follow onLink q cur names := by
  induction names generalizing cur with
  | nil =>
      cases h
      exact .here
  | cons n rest ih =>
      cases hcur : fs.entry cur with
      | none =>
          rw [walk, hcur] at h
          cases h
      | some e =>
          cases e with
          | dir =>
              by_cases hstay : n = [] ∨ n = dot
              · exact .stays hcur hstay (ih (walk_stays hcur hstay ▸ h))
              · by_cases hup : n = dotdot
                · exact .up hcur hstay hup (ih (walk_up hcur hstay hup ▸ h))
                · by_cases hlong : fs.nameMax < n.length ∨ fits (cur ++ [n]) = false
                  · simp only [walk, hcur, if_neg hstay, if_neg hup, if_pos hlong] at h
                    cases h
                  · have henters : Enters fs fits cur n := ⟨hcur, hstay, hup, hlong⟩
                    rw [walk_enters henters] at h
                    split at h
                    case h_1 =>
                        cases h
                    case h_2 target hlink =>
                        split at h
                        case isTrue hend =>
                            cases hend.1
                            exact .ends henters hlink hend.2 (Except.ok.inj h).symm
                        case isFalse hon =>
                            exact .link henters hlink hon h
                    case h_3 e hnot he =>
                        exact .down henters he hnot (ih h)
          | _ =>
              rw [walk, hcur] at h
              cases h

end Walks

/-- A walk never leaves the entries of the tree. -/
theorem walk_entry {follow : Bool} {onLink : List Bytes → List Bytes → Except Errno (List Bytes)}
    (hlink : ∀ cur names q, fs.entry cur ≠ none → onLink cur names = .ok q → fs.entry q ≠ none)
    {cur names q : List Bytes} (hcur : fs.entry cur ≠ none)
    (h : fs.walk fits follow onLink cur names = .ok q) : fs.entry q ≠ none := by
  induction leads_of_walk h with
  | here =>
      exact hcur
  | stays hdir hstay _ ih =>
      exact ih hcur (walk_stays hdir hstay ▸ h)
  | up hdir hstay hup _ ih =>
      exact ih (dropLast_entry hcur) (walk_up hdir hstay hup ▸ h)
  | down henters he hnot _ ih =>
      exact ih (by simp [he]) (walk_down_one henters he hnot ▸ h)
  | ends _ he _ hq =>
      rw [hq, he]
      exact nofun
  | link _ _ _ hgoes =>
      refine hlink _ _ q ?_ hgoes
      split
      · simp [fs.root]
      · exact hcur

theorem namei_entry {follow : Bool} (k : ℕ) {cur names q : List Bytes} (hcur : fs.entry cur ≠ none)
    (h : fs.namei fits follow k cur names = .ok q) : fs.entry q ≠ none := by
  -- one more link at a time
  induction k generalizing cur names q with
  | zero =>
      refine walk_entry ?_ hcur h
      intro _ _ _ _ hloop
      cases hloop
  | succ k ih =>
      exact walk_entry (fun _ _ _ hc hq => ih hc hq) hcur h

theorem origin_entry (fs : FileSystem β) (p : Bytes) : fs.entry (fs.origin p) ≠ none := by
  unfold origin
  split
  · simp [fs.root]
  · simp [fs.cwd_dir]

/-- What a path leads to is there. -/
theorem lookup_entry {follow : Bool} {p : Bytes} {q : List Bytes} (h : fs.lookup follow p = .ok q) :
    fs.entry q ≠ none := by
  unfold lookup at h
  split at h
  case isTrue =>
      cases h
  case isFalse =>
      split at h
      case isTrue =>
          cases h
      case isFalse =>
          exact namei_entry fs.links (fs.origin_entry p) h

theorem realPath_entry {p : Bytes} {q : List Bytes} (h : fs.realPath p = .ok q) :
    fs.entry q ≠ none := by
  unfold realPath at h
  split at h
  case isTrue =>
      cases h
  case isFalse =>
      exact namei_entry fs.links (fs.origin_entry p) h

/-- A walk finds the same way under another bound that the entries on it meet. -/
theorem walk_mono {fits' : List Bytes → Bool} {follow : Bool}
    {onLink onLink' : List Bytes → List Bytes → Except Errno (List Bytes)} {q : List Bytes}
    (hfits : ∀ p, fs.entry p ≠ none → fits p = true → fits' p = true)
    (hlink : ∀ cur names, onLink cur names = .ok q → onLink' cur names = .ok q)
    {cur names : List Bytes} (h : fs.walk fits follow onLink cur names = .ok q) :
    fs.walk fits' follow onLink' cur names = .ok q := by
  have henter : ∀ {cur : List Bytes} {n : Bytes} {e : Entry β}, Enters fs fits cur n →
      fs.entry (cur ++ [n]) = some e → Enters fs fits' cur n := by
    intro cur n e h he
    rcases not_or.1 h.fits with ⟨hname, hshort⟩
    refine ⟨h.dir, h.notHere, h.notUp, not_or.2 ⟨hname, ?_⟩⟩
    rw [hfits _ (by simp [he]) (by simpa using hshort)]
    exact nofun
  induction leads_of_walk h with
  | here =>
      rfl
  | stays hdir hstay _ ih =>
      rw [walk_stays hdir hstay] at h ⊢
      exact ih h
  | up hdir hstay hup _ ih =>
      rw [walk_up hdir hstay hup] at h ⊢
      exact ih h
  | down henters he hnot _ ih =>
      rw [walk_down_one (henter henters he) he hnot]
      exact ih (walk_down_one henters he hnot ▸ h)
  | ends henters he hoff hq =>
      rw [hq]
      exact walk_ends (henter henters he) he hoff
  | link henters he hon hgoes =>
      rw [walk_link (henter henters he) he hon]
      exact hlink _ _ hgoes

theorem namei_mono {fits' : List Bytes → Bool} {follow : Bool} {q : List Bytes}
    (hfits : ∀ p, fs.entry p ≠ none → fits p = true → fits' p = true)
    (k : ℕ) {cur names : List Bytes} (h : fs.namei fits follow k cur names = .ok q) :
    fs.namei fits' follow k cur names = .ok q := by
  induction k generalizing cur names with
  | zero =>
      exact walk_mono hfits (fun _ _ hloop => by cases hloop) h
  | succ k ih =>
      exact walk_mono hfits (fun _ _ hq => ih hq) h

/-- Where `realpath` gets to, a call gets to. -/
theorem realPath_lookup {p : Bytes} {q : List Bytes} (h : fs.realPath p = .ok q)
    (hshort : p.length < fs.pathMax) : fs.lookup true p = .ok q := by
  unfold realPath at h
  unfold lookup
  split at h
  case isTrue =>
      cases h
  case isFalse hne =>
      rw [if_neg hne, if_neg (by omega)]
      exact namei_mono (fun _ _ _ => rfl) fs.links h

/-- Where no real path is too long, `realpath` gets to where a call gets to. -/
theorem lookup_realPath (hfits : ∀ q, fs.entry q ≠ none → fs.short q = true) {p : Bytes}
    {q : List Bytes} (h : fs.lookup true p = .ok q) : fs.realPath p = .ok q := by
  unfold lookup at h
  unfold realPath
  split at h
  case isTrue =>
      cases h
  case isFalse hne =>
      rw [if_neg hne]
      split at h
      case isTrue =>
          cases h
      case isFalse =>
          exact namei_mono (fun p hp _ => hfits p hp) fs.links h

/-- A bound on the real paths is the only thing that stops a walk which finds its way without it. -/
theorem walk_stops {follow : Bool}
    {onLink onLink' : List Bytes → List Bytes → Except Errno (List Bytes)} {q : List Bytes}
    (hlink : ∀ cur names, onLink cur names = .ok q →
      onLink' cur names = .ok q ∨ onLink' cur names = .error .ENAMETOOLONG)
    {cur names : List Bytes} (h : fs.walk (fun _ => true) follow onLink cur names = .ok q) :
    fs.walk fits follow onLink' cur names = .ok q ∨
      fs.walk fits follow onLink' cur names = .error .ENAMETOOLONG := by
  have henter : ∀ {cur rest : List Bytes} {n : Bytes}, Enters fs (fun _ => true) cur n →
      Enters fs fits cur n ∨
        fs.walk fits follow onLink' cur (n :: rest) = .error .ENAMETOOLONG := by
    intro cur rest n h
    cases hshort : fits (cur ++ [n]) with
    | false =>
        exact Or.inr (walk_tooLong h.dir h.notHere h.notUp hshort)
    | true =>
        exact Or.inl ⟨h.dir, h.notHere, h.notUp, by simpa [hshort] using h.fits⟩
  induction leads_of_walk h with
  | here =>
      exact Or.inl rfl
  | stays hdir hstay _ ih =>
      rw [walk_stays hdir hstay] at h ⊢
      exact ih h
  | up hdir hstay hup _ ih =>
      rw [walk_up hdir hstay hup] at h ⊢
      exact ih h
  | down henters he hnot _ ih =>
      rcases henter henters with hfits | hlong
      · rw [walk_down_one hfits he hnot]
        exact ih (walk_down_one henters he hnot ▸ h)
      · exact Or.inr hlong
  | ends henters he hoff hq =>
      rcases henter henters with hfits | hlong
      · rw [hq]
        exact Or.inl (walk_ends hfits he hoff)
      · exact Or.inr hlong
  | link henters he hon hgoes =>
      rcases henter henters with hfits | hlong
      · rw [walk_link hfits he hon]
        exact hlink _ _ hgoes
      · exact Or.inr hlong

theorem namei_stops {follow : Bool} {q : List Bytes} (k : ℕ) {cur names : List Bytes}
    (h : fs.namei (fun _ => true) follow k cur names = .ok q) :
    fs.namei fits follow k cur names = .ok q ∨
      fs.namei fits follow k cur names = .error .ENAMETOOLONG := by
  induction k generalizing cur names with
  | zero =>
      exact walk_stops (fun _ _ hloop => by cases hloop) h
  | succ k ih =>
      exact walk_stops (fun _ _ hq => ih hq) h

/-- Behind a call that finds its way `realpath` fails in one way only. -/
theorem realPath_stops {p : Bytes} {q : List Bytes} (h : fs.lookup true p = .ok q) :
    fs.realPath p = .ok q ∨ fs.realPath p = .error .ENAMETOOLONG := by
  unfold lookup at h
  unfold realPath
  split at h
  case isTrue =>
      cases h
  case isFalse hne =>
      rw [if_neg hne]
      split at h
      case isTrue =>
          cases h
      case isFalse =>
          exact namei_stops fs.links h

/-! ### Real paths lead to themselves -/

/-- A walk enters whatever is there. -/
theorem enters_of_entry {cur : List Bytes} {n : Bytes} (h : fs.entry (cur ++ [n]) ≠ none)
    (hfits : fits (cur ++ [n]) = true) : Enters fs fits cur n := by
  rcases fs.legal _ h n (by simp) with ⟨hname, hlength⟩
  refine ⟨fs.parent cur n h, by simp [hname.ne_nil, hname.ne_dot], hname.ne_dotdot, ?_⟩
  rw [hfits]
  simpa using hlength

/-- Names of directories lead down the tree. -/
theorem walk_down {follow : Bool} {onLink : List Bytes → List Bytes → Except Errno (List Bytes)}
    {cur p : List Bytes} (h : fs.entry (cur ++ p) = some .dir)
    (hfits : ∀ q, q <+: cur ++ p → fits q = true) (rest : List Bytes) :
    fs.walk fits follow onLink cur (p ++ rest) = fs.walk fits follow onLink (cur ++ p) rest := by
  induction p generalizing cur with
  | nil =>
      rw [List.append_nil, List.nil_append]
  | cons n p ih =>
      have hthere : fs.entry (cur ++ n :: p) ≠ none := by simp [h]
      have hassoc : cur ++ n :: p = (cur ++ [n]) ++ p := by simp
      rw [hassoc] at h hthere hfits
      have hdir : fs.entry (cur ++ [n]) = some .dir := by
        by_cases hp : p = []
        · rw [hp, List.append_nil] at h
          exact h
        · exact entry_of_append hthere hp
      have henters : Enters fs fits cur n :=
        enters_of_entry (by simp [hdir]) (hfits _ (List.prefix_append _ _))
      rw [hassoc, List.cons_append, walk_down_one henters hdir (fun _ hno => by cases hno)]
      exact ih h hfits

/-- The last name of a path is not followed, or is no link. -/
theorem walk_last {follow : Bool} {onLink : List Bytes → List Bytes → Except Errno (List Bytes)}
    {cur : List Bytes} {n : Bytes} (h : fs.entry (cur ++ [n]) ≠ none)
    (hlink : follow = true → ∀ target, fs.entry (cur ++ [n]) ≠ some (.symlink target))
    (hfits : fits (cur ++ [n]) = true) : fs.walk fits follow onLink cur [n] = .ok (cur ++ [n]) := by
  have henters := enters_of_entry h hfits
  by_cases hsymlink : ∃ target, fs.entry (cur ++ [n]) = some (.symlink target)
  · rcases hsymlink with ⟨target, hsymlink⟩
    have hoff : follow = false := by
      cases follow with
      | false =>
          rfl
      | true =>
          exact absurd hsymlink (hlink rfl target)
    exact walk_ends henters hsymlink hoff
  · rcases Option.ne_none_iff_exists'.1 h with ⟨e, he⟩
    rw [walk_down_one henters he fun target heq => hsymlink ⟨target, heq ▸ he⟩]
    rfl

/-- Where a name leads that is not followed. -/
theorem eq_of_walk_last {onLink : List Bytes → List Bytes → Except Errno (List Bytes)}
    {cur q : List Bytes} {n : Bytes} (hname : FileName n)
    (h : fs.walk fits false onLink cur [n] = .ok q) : q = cur ++ [n] := by
  cases leads_of_walk h with
  | stays _ hstay _ =>
      exact (hstay.elim hname.ne_nil hname.ne_dot).elim
  | up _ _ hup _ =>
      exact absurd hup hname.ne_dotdot
  | down _ _ _ hrest =>
      cases hrest
      rfl
  | ends _ _ _ hq =>
      exact hq
  | link _ _ hon _ =>
      exact absurd ⟨rfl, rfl⟩ hon

theorem namei_of_entry {follow : Bool} (k : ℕ) {p : List Bytes} (h : fs.entry p ≠ none)
    (hlink : follow = true → ∀ target, fs.entry p ≠ some (.symlink target))
    (hfits : ∀ q, q <+: p → fits q = true) : fs.namei fits follow k [] p = .ok p := by
  have hwalk : ∀ onLink, fs.walk fits follow onLink [] p = .ok p := by
    intro onLink
    rcases List.eq_nil_or_concat p with rfl | ⟨init, n, rfl⟩
    · rw [walk]
    · rw [List.concat_eq_append] at h hlink hfits ⊢
      have hdown : fs.walk fits follow onLink [] (init ++ [n]) = fs.walk fits follow onLink init [n] :=
        walk_down (fs.parent init n h) (fun q hq => hfits q (hq.trans (List.prefix_append _ _))) [n]
      rw [hdown]
      exact walk_last h hlink (hfits _ (List.prefix_refl _))
  cases k with
  | zero =>
      exact hwalk _
  | succ k =>
      exact hwalk _

theorem components_path {p : List Bytes} (h : ∀ n ∈ p, slash ∉ n) (hne : p ≠ []) :
    components (path p) = [] :: p := by
  have hnames : ∀ n ∈ [] :: p, slash ∉ n := by
    intro n hn
    rcases List.mem_cons.1 hn with rfl | hn
    · simp
    · exact h n hn
  have hjoined : path p = [slash].intercalate ([] :: p) := by
    cases p with
    | nil => exact absurd rfl hne
    | cons n p =>
        rw [List.intercalate_cons_cons]
        rfl
  rw [components, hjoined, List.splitOn_intercalate slash hnames (List.cons_ne_nil _ _)]

/-- How a path from the root begins. -/
theorem namei_path {follow : Bool} {p : List Bytes} (h : ∀ n ∈ p, slash ∉ n) :
    fs.namei fits follow fs.links (fs.origin (path p)) (components (path p)) =
      fs.namei fits follow fs.links [] p := by
  have horigin : fs.origin (path p) = [] := if_pos rfl
  have hskip : ∀ names, fs.namei fits follow fs.links [] ([] :: names) =
      fs.namei fits follow fs.links [] names := by
    intro names
    cases fs.links with
    | zero =>
        simp [namei, walk, fs.root]
    | succ k =>
        simp [namei, walk, fs.root]
  rw [horigin]
  by_cases hne : p = []
  · have hroot : components (path []) = [[], []] := rfl
    rw [hne, hroot, hskip, hskip]
  · rw [components_path h hne, hskip]

/-- A real path leads to its own entry. -/
theorem lookup_path {follow : Bool} {p : List Bytes} (h : fs.entry p ≠ none)
    (hshort : fs.short p = true)
    (hlink : follow = true → ∀ target, fs.entry p ≠ some (.symlink target)) :
    fs.lookup follow (path p) = .ok p := by
  have hlength : ¬fs.pathMax ≤ (path p).length := by
    simp only [short, decide_eq_true_eq] at hshort
    omega
  have hne : path p ≠ [] := List.cons_ne_nil _ _
  rw [lookup, if_neg hne, if_neg hlength, namei_path fun n hn => (fs.names h n hn).noSlash]
  exact namei_of_entry fs.links h hlink fun _ _ => rfl

theorem realPath_path {p : List Bytes} (h : fs.entry p ≠ none) (hshort : fs.short p = true)
    (hlink : ∀ target, fs.entry p ≠ some (.symlink target)) : fs.realPath (path p) = .ok p := by
  have hne : path p ≠ [] := List.cons_ne_nil _ _
  rw [realPath, if_neg hne, namei_path fun n hn => (fs.names h n hn).noSlash]
  exact namei_of_entry fs.links h (fun _ => hlink) fun _ hq => short_of_prefix hq hshort

/-- A name in a directory leads to the entry of that name. -/
theorem eq_of_lookup_path {p q : List Bytes} {n : Bytes} (hdir : fs.entry p = some .dir)
    (hname : FileName n) (h : fs.lookup false (path (p ++ [n])) = .ok q) : q = p ++ [n] := by
  have hne : path (p ++ [n]) ≠ [] := List.cons_ne_nil _ _
  have hnames : ∀ m ∈ p ++ [n], slash ∉ m := by
    intro m hm
    rcases List.mem_append.1 hm with hm | hm
    · exact (fs.names (by simp [hdir]) m hm).noSlash
    · rw [List.mem_singleton.1 hm]
      exact hname.noSlash
  rw [lookup, if_neg hne] at h
  split at h
  case isTrue =>
      cases h
  case isFalse =>
      rw [namei_path hnames] at h
      have hwalk : ∀ onLink, fs.walk (fun _ => true) false onLink [] (p ++ [n]) = .ok q →
          q = p ++ [n] := by
        intro onLink hq
        have hdown : fs.walk (fun _ => true) false onLink [] (p ++ [n]) =
            fs.walk (fun _ => true) false onLink p [n] :=
          walk_down hdir (fun _ _ => rfl) [n]
        rw [hdown] at hq
        exact eq_of_walk_last hname hq
      cases hlinks : fs.links with
      | zero =>
          rw [hlinks] at h
          exact hwalk _ h
      | succ k =>
          rw [hlinks] at h
          exact hwalk _ h

theorem length_of_lookup {follow : Bool} {p : Bytes} {q : List Bytes}
    (h : fs.lookup follow p = .ok q) : p.length < fs.pathMax := by
  unfold lookup at h
  split at h
  case isTrue =>
      cases h
  case isFalse =>
      split at h
      case isTrue =>
          cases h
      case isFalse hlong =>
          exact Nat.lt_of_not_le hlong

/-! ## Texts for paths -/

theorem encode_intercalate (parts : List Seg) :
    encode (['/'].intercalate parts) = [slash].intercalate (parts.map encode) := by
  induction parts with
  | nil =>
      rfl
  | cons s parts ih =>
      cases parts with
      | nil =>
          simp [List.intercalate]
      | cons t parts =>
          have hmap : (s :: t :: parts).map encode = encode s :: encode t :: parts.map encode := rfl
          rw [hmap, List.intercalate_cons_cons, List.intercalate_cons_cons, Utf8.encode_append,
            Utf8.encode_append, ih]
          rfl

/-- What the system makes of a text. -/
theorem encode_render (names : List Seg) : encode (render names) = path (names.map encode) := by
  show encode ('/' :: ['/'].intercalate names) = _
  rw [Utf8.encode_cons, encode_intercalate]
  rfl

theorem decode_intercalate (parts : List Bytes) :
    decode ([slash].intercalate parts) = ['/'].intercalate (parts.map decode) := by
  induction parts with
  | nil =>
      rfl
  | cons n parts ih =>
      cases parts with
      | nil =>
          simp [List.intercalate]
      | cons m parts =>
          have hslash : slash.toNat < 128 := by decide
          have hcons : decode (n ++ slash :: [slash].intercalate (m :: parts)) = _ :=
            Utf8.decode_append_cons n hslash _
          have hmap : (n :: m :: parts).map decode = decode n :: decode m :: parts.map decode := rfl
          rw [hmap, List.intercalate_cons_cons, List.intercalate_cons_cons, List.append_assoc,
            List.append_assoc, List.singleton_append, hcons, ih]
          rfl

/-- How a real path reads. -/
theorem nodePath (names : List Bytes) : decode (path names) = render (names.map decode) := by
  have hslash : slash.toNat < 128 := by decide
  have hcons : decode ([] ++ slash :: [slash].intercalate names) = _ :=
    Utf8.decode_append_cons [] hslash _
  rw [List.nil_append] at hcons
  rw [path, hcons, decode_intercalate]
  rfl

/-- How a name reads: it is a name of a text path. -/
theorem name_decode {n : Bytes} (h : FileName n) : Name (decode n) where
  ne_nil := Utf8.decode_ne_nil h.ne_nil
  ne_dot := by
    intro hdot
    have hbytes : Utf8.encode (decode n) = n := Utf8.eq_of_decode_ascii (by simp [hdot, Posix.dot])
    rw [hdot] at hbytes
    exact h.ne_dot hbytes.symm
  ne_dotdot := by
    intro hdots
    have hbytes : Utf8.encode (decode n) = n := Utf8.eq_of_decode_ascii (by simp [hdots, Posix.dotdot])
    rw [hdots] at hbytes
    exact h.ne_dotdot hbytes.symm
  noSlash := by
    intro hmem
    exact h.noSlash ((Utf8.mem_decode (by decide)).1 hmem)

theorem noNul_decode {n : Bytes} (h : FileName n) : '\x00' ∉ decode n := by
  intro hmem
  exact h.noNul ((Utf8.mem_decode (by decide)).1 hmem)

/-- What a text names is a name of a file, if the system takes it. -/
theorem fileName_encode {s : Seg} (h : Name s) (hnul : '\x00' ∉ s) : FileName (encode s) where
  ne_nil := by
    intro hnil
    have hback := congrArg decode hnil
    rw [Utf8.decode_encode] at hback
    exact h.ne_nil hback
  ne_dot := by
    intro hdot
    have hback := congrArg decode hdot
    rw [Utf8.decode_encode] at hback
    exact h.ne_dot (hback.trans (by decide))
  ne_dotdot := by
    intro hdots
    have hback := congrArg decode hdots
    rw [Utf8.decode_encode] at hback
    exact h.ne_dotdot (hback.trans (by decide))
  noSlash := by
    intro hmem
    exact h.noSlash ((Utf8.mem_encode (c := '/') (by decide)).1 hmem)
  noNul := by
    intro hmem
    exact hnul ((Utf8.mem_encode (c := '\x00') (by decide)).1 hmem)

theorem map_encode_decode {names : List Bytes} (h : ∀ n ∈ names, Text n) :
    (names.map decode).map encode = names := by
  rw [List.map_map]
  exact (List.map_congr_left h).trans (List.map_id' _)

/-- A text path along texts is a real path. -/
theorem encode_render_decode {names : List Bytes} (h : ∀ n ∈ names, Text n) :
    encode (render (names.map decode)) = path names := by
  rw [encode_render, map_encode_decode h]

/-! ## A tree from a list of its entries -/

/-- Each path has one entry, and lies in a directory. -/
structure Complete (nameMax : ℕ) (entries : List (List Bytes × Entry β)) : Prop where
  once : (entries.map Prod.fst).Nodup
  root : ([], Entry.dir) ∈ entries
  parent : ∀ e ∈ entries, e.1 ≠ [] → (e.1.dropLast, Entry.dir) ∈ entries
  legal : ∀ e ∈ entries, ∀ n ∈ e.1, FileName n ∧ n.length ≤ nameMax

instance [DecidableEq β] (nameMax : ℕ) (entries : List (List Bytes × Entry β)) :
    Decidable (Complete nameMax entries) :=
  decidable_of_iff ((entries.map Prod.fst).Nodup ∧ ([], Entry.dir) ∈ entries ∧
      (∀ e ∈ entries, e.1 ≠ [] → (e.1.dropLast, Entry.dir) ∈ entries) ∧
      ∀ e ∈ entries, ∀ n ∈ e.1, FileName n ∧ n.length ≤ nameMax)
    ⟨fun h => ⟨h.1, h.2.1, h.2.2.1, h.2.2.2⟩, fun h => ⟨h.once, h.root, h.parent, h.legal⟩⟩

def find (entries : List (List Bytes × Entry β)) (p : List Bytes) : Option (Entry β) :=
  (entries.find? fun e => e.1 == p).map Prod.snd

theorem find_ne_none {entries : List (List Bytes × Entry β)} {p : List Bytes} :
    find entries p ≠ none ↔ p ∈ entries.map Prod.fst := by
  simp [find, List.find?_eq_none]

theorem find_of_mem {entries : List (List Bytes × Entry β)} (h : (entries.map Prod.fst).Nodup)
    {e : List Bytes × Entry β} (he : e ∈ entries) : find entries e.1 = some e.2 := by
  have hthere : find entries e.1 ≠ none := find_ne_none.2 (List.mem_map_of_mem he)
  cases hfind : entries.find? fun e' => e'.1 == e.1 with
  | none =>
      simp [find, hfind] at hthere
  | some e' =>
      have hmem := List.mem_of_find?_eq_some hfind
      have hpath : e'.1 = e.1 := by simpa using List.find?_some hfind
      have hsame : e' = e := List.inj_on_of_nodup_map h hmem he hpath
      simp [find, hfind, hsame]

/-- The names in the directory `p`. -/
def namesIn (paths : List (List Bytes)) (p : List Bytes) : List Bytes :=
  paths.filterMap fun q => if q.dropLast = p then q.getLast? else none

theorem mem_namesIn {paths : List (List Bytes)} {p : List Bytes} {n : Bytes} :
    n ∈ namesIn paths p ↔ p ++ [n] ∈ paths := by
  unfold namesIn
  rw [List.mem_filterMap]
  constructor
  · rintro ⟨q, hq, hlast⟩
    split at hlast
    case isTrue hdir =>
        rw [← hdir, List.dropLast_append_getLast? n hlast]
        exact hq
    case isFalse =>
        cases hlast
  · intro hmem
    exact ⟨p ++ [n], hmem, by simp⟩

theorem namesIn_nodup {paths : List (List Bytes)} (h : paths.Nodup) (p : List Bytes) :
    (namesIn paths p).Nodup := by
  refine h.filterMap ?_
  intro q q' n hq hq'
  split at hq
  case isTrue hdir =>
      split at hq'
      case isTrue hdir' =>
          rw [← List.dropLast_append_getLast? n hq, ← List.dropLast_append_getLast? n hq', hdir, hdir']
      case isFalse =>
          cases hq'
  case isFalse =>
      cases hq

/-- The tree of these entries, seen from its root. -/
def ofEntries (nameMax pathMax links : ℕ) (entries : List (List Bytes × Entry β))
    (h : Complete nameMax entries) : FileSystem β where
  entry := find entries
  nameMax := nameMax
  pathMax := pathMax
  root := find_of_mem h.once h.root
  parent := by
    intro p n hthere
    rcases List.mem_map.1 (find_ne_none.1 hthere) with ⟨e, he, hpath⟩
    have hdir := h.parent e he (by simp [hpath])
    rw [hpath, List.dropLast_concat] at hdir
    exact find_of_mem h.once hdir
  legal := by
    intro p hthere
    rcases List.mem_map.1 (find_ne_none.1 hthere) with ⟨e, he, rfl⟩
    exact h.legal e he
  children := namesIn (entries.map Prod.fst)
  children_nodup := namesIn_nodup h.once
  mem_children := fun _ _ => mem_namesIn.trans find_ne_none.symm
  depth := (entries.map fun e => e.1.length).foldr max 0
  bounded := by
    intro p hthere
    rcases List.mem_map.1 (find_ne_none.1 hthere) with ⟨e, he, rfl⟩
    exact List.le_max_of_le' 0 (List.mem_map_of_mem he) (Nat.le_refl _)
  links := links
  cwd := []
  cwd_dir := find_of_mem h.once h.root

end FileSystem

end Lib
end SignalKBackup
