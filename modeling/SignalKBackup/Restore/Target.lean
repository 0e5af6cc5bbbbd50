import SignalKBackup.Lib.FileTree
import SignalKBackup.Lib.PosixPath

/-!
# Target — where a host restore writes

`resolveHostTarget` turns a request into the target and the path its stash is renamed to, and
`resolveZipEntryPath` an entry of the archive into a path under the target.

* `safety_location`: the stash is a sibling of the target, or it lies below it (when the target's
  path string ends in a slash, `.` or `..`), where no rename can put it.
* `zipEntry_location`: an accepted entry is the target or lies below it.
-/

namespace SignalKBackup
namespace Restore

open Lib
open Posix

/-- The clock's ISO text with `:` and `.` replaced, as `makeSafetyPath` appends it. -/
structure Stamp where
  text : List Char
  noSlash : '/' ∉ text

structure ResolvedHostTarget where
  absoluteTarget : List Char
  safetyPath : List Char
  deriving DecidableEq

def SAFETY_MARK : List Char := ".partial-restore-backup-".toList

def safetySuffix (stamp : Stamp) : List Char :=
  SAFETY_MARK ++ stamp.text

def makeSafetyPath (targetAbs : List Char) (stamp : Stamp) : List Char :=
  targetAbs ++ safetySuffix stamp

def isSeparator (c : Char) : Bool :=
  c == '/' || c == '\\'

def resolveHostTarget (cwd : List Char) (stamp : Stamp) (customPath : List Char) (_isDir : Bool)
    (sourcePath : List Char) : ResolvedHostTarget :=
  -- a trailing separator asks for the source name inside the directory
  let explicitDir := customPath.getLast?.any isSeparator
  let stripped :=
    if explicitDir then (customPath.reverse.dropWhile isSeparator).reverse else customPath
  -- nothing but separators: the root itself
  let baseCustom :=
    if explicitDir && stripped == [] && isAbsolute customPath then customPath else stripped
  let joined := if isAbsolute baseCustom then baseCustom else resolve cwd [baseCustom]
  let absoluteTarget := if explicitDir then join [joined, basename sourcePath] else joined
  { absoluteTarget, safetyPath := makeSafetyPath absoluteTarget stamp }

/-- The path an entry of the archive is written to; `none` when it is refused. -/
def resolveZipEntryPath (cwd entryPath targetDir : List Char) : Option (List Char) :=
  let resolvedTarget := resolve cwd [targetDir]
  let parts := (entryPath.splitOnP isSeparator).filter fun p => p != []
  if parts = [] then none
  else if dotdot ∈ parts then none
  else
    let dest := resolve cwd [resolvedTarget, ['/'].intercalate parts]
    let rel := relative cwd resolvedTarget dest
    if dotdot.isPrefixOf rel || isAbsolute rel then none else some dest

/-! ## The safety path -/

theorem safetyMark_noSlash : '/' ∉ SAFETY_MARK := by decide

theorem safetyMark_length : SAFETY_MARK.length = 24 := by decide

theorem safetySuffix_noSlash (stamp : Stamp) : '/' ∉ safetySuffix stamp := by
  intro h
  rcases List.mem_append.1 h with hmark | htext
  · exact safetyMark_noSlash hmark
  · exact stamp.noSlash htext

theorem safetySuffix_length (stamp : Stamp) : 24 ≤ (safetySuffix stamp).length := by
  rw [safetySuffix, List.length_append, safetyMark_length]
  exact Nat.le_add_right _ _

theorem suffix_ne_self (s : Seg) (stamp : Stamp) : s ≠ s ++ safetySuffix stamp := by
  intro h
  have hlen := congrArg List.length h
  have hsuffix := safetySuffix_length stamp
  rw [List.length_append] at hlen
  omega

/-- The last segment of the target, and where the segments before it lead: the stash is there, under
that segment with the suffix. -/
theorem safety_segment (t : List Char) (stamp : Stamp) :
    ∃ (base : List Seg) (s : Seg), '/' ∉ s ∧ s = lastSegment t ∧
      locate t = (push false base.reverse s).reverse ∧
      locate (makeSafetyPath t stamp) = base ++ [s ++ safetySuffix stamp] ∧
        (Name s → locate (dirname t) = base) :=
  locate_suffix t (safetySuffix_noSlash stamp)
    (Nat.le_trans (by decide) (safetySuffix_length stamp))

/-- The stash lies below the target, or both are names of one directory. -/
theorem safety_location (t : List Char) (stamp : Stamp) :
    locate t <+: locate (makeSafetyPath t stamp) ∨
      ∃ dir a b, a ≠ b ∧ locate t = dir ++ [a] ∧ locate (makeSafetyPath t stamp) = dir ++ [b] ∧
        locate (dirname t) = dir := by
  rcases safety_segment t stamp with ⟨base, s, hs, _, ht, hsafety, hdirname⟩
  by_cases hn : Name s
  · refine Or.inr ⟨base, s, s ++ safetySuffix stamp, suffix_ne_self s stamp, ?_, hsafety,
      hdirname hn⟩
    simp [ht, push_name hn]
  · -- an empty last segment, `.` or `..`: the suffix turns it into a name below
    have hbelow : locate t <+: base := ht ▸ push_of_not_name base hs hn
    exact Or.inl (hbelow.trans (by simp [hsafety]))

/-! ## The entries of the archive -/

theorem noSeparator_iff {s : Seg} : (∀ c ∈ s, isSeparator c = false) ↔ '/' ∉ s ∧ '\\' ∉ s := by
  simp only [isSeparator, Bool.or_eq_false_iff, beq_eq_false_iff_ne]
  constructor
  · intro h
    exact ⟨fun hmem => (h _ hmem).1 rfl, fun hmem => (h _ hmem).2 rfl⟩
  · rintro ⟨hslash, hback⟩ c hc
    exact ⟨fun heq => hslash (heq ▸ hc), fun heq => hback (heq ▸ hc)⟩

/-- The parts of an entry's name, at either slash. -/
def entryParts (entryPath : List Char) : List Seg :=
  (entryPath.splitOnP isSeparator).filter fun p => p != []

theorem entryParts_filled {entryPath : List Char} :
    ∀ s ∈ entryParts entryPath, s ≠ [] ∧ '/' ∉ s ∧ '\\' ∉ s := by
  intro s hs
  rcases List.mem_filter.1 hs with ⟨hmem, hne⟩
  exact ⟨by simpa using hne, noSeparator_iff.1 (splitOnP_parts hmem)⟩

theorem entryParts_noSlash {entryPath : List Char} :
    ∀ s ∈ entryParts entryPath, s ≠ [] ∧ '/' ∉ s :=
  fun s hs => ⟨(entryParts_filled s hs).1, (entryParts_filled s hs).2.1⟩

/-- Legal names without a backslash are the parts of their joined string. -/
theorem entryParts_intercalate {names : List Seg} (hne : names ≠ []) (hnames : ∀ s ∈ names, Name s)
    (hback : ∀ s ∈ names, '\\' ∉ s) : entryParts (['/'].intercalate names) = names := by
  have hsep : ∀ s ∈ names, ∀ c ∈ s, isSeparator c = false :=
    fun s hs => noSeparator_iff.2 ⟨(hnames s hs).noSlash, hback s hs⟩
  have hfilled : names.filter (fun p => p != []) = names :=
    List.filter_eq_self.2 fun s hs => by simpa using (hnames s hs).ne_nil
  rw [entryParts, splitOnP_intercalate (show isSeparator '/' = true from rfl) hsep hne, hfilled]

/-- Where an entry with these parts is resolved to. -/
theorem locate_resolve_parts (cwd : List Char) {targetDir : List Char} {parts : List Seg}
    (habs : isAbsolute targetDir = true) (hparts : ∀ s ∈ parts, s ≠ [] ∧ '/' ∉ s)
    (hne : parts ≠ []) (hup : dotdot ∉ parts) :
    locate (resolve cwd [resolve cwd [targetDir], ['/'].intercalate parts]) =
      locate targetDir ++ parts.filter fun s => s != dot := by
  -- the target is absolute, so `resolve` puts the parts behind it
  have hpath : resolvedPath cwd [['/'].intercalate parts, resolve cwd [targetDir]] [] =
      resolve cwd [targetDir] ++ '/' :: (['/'].intercalate parts ++ ['/']) := by
    have hnil : isAbsolute [] = false := rfl
    have hroot : resolve cwd [targetDir] ≠ [] := List.cons_ne_nil _ _
    have habs' : ∀ y, isAbsolute (resolve cwd [targetDir] ++ y) = true := fun _ => rfl
    rcases not_absolute_intercalate hne hparts ['/'] with ⟨hjoin, hrel⟩
    simp only [resolvedPath, hnil, hjoin, hrel, hroot, habs', if_true, if_false,
      Bool.false_eq_true]
  have hfilter : (parts.filter fun s => s != [] && s != dot) = parts.filter fun s => s != dot := by
    refine List.filter_congr fun s hs => ?_
    simp [(hparts s hs).1]
  rw [locate_resolve]
  simp only [List.reverse_cons, List.reverse_nil, List.nil_append, List.singleton_append]
  rw [hpath, locate_below (fun s hs => (hparts s hs).2) hne hup, resolve_one cwd habs, hfilter]

/-- An accepted entry has parts, none of them `..`, and is resolved to them below the target. -/
theorem zipEntry_parts {cwd entryPath targetDir dest : List Char}
    (habs : isAbsolute targetDir = true)
    (h : resolveZipEntryPath cwd entryPath targetDir = some dest) :
    locate dest = locate targetDir ++ (entryParts entryPath).filter (fun s => s != dot) ∧
      locate (dirname dest) = (locate dest).dropLast := by
  simp only [resolveZipEntryPath] at h
  split at h
  · cases h
  · rename_i hne
    split at h
    · cases h
    · rename_i hup
      split at h
      · cases h
      · cases h
        exact ⟨locate_resolve_parts cwd habs entryParts_noSlash hne hup, locate_dirname_resolve cwd _⟩

/-- An accepted entry is the target, or it lies below it. -/
theorem zipEntry_location {cwd entryPath targetDir dest : List Char}
    (habs : isAbsolute targetDir = true)
    (h : resolveZipEntryPath cwd entryPath targetDir = some dest) :
    locate targetDir <+: locate dest := by
  rw [(zipEntry_parts habs h).1]
  exact List.prefix_append _ _

/-- The directory of an entry is on the way to the target, or at or below it. -/
theorem zipEntry_dirname {cwd entryPath targetDir dest : List Char}
    (habs : isAbsolute targetDir = true)
    (h : resolveZipEntryPath cwd entryPath targetDir = some dest) :
    locate (dirname dest) <+: locate targetDir ∨ locate targetDir <+: locate (dirname dest) := by
  -- without its last name a place below the target is on one line with it
  rw [(zipEntry_parts habs h).2]
  exact List.prefix_or_prefix_of_prefix (List.dropLast_prefix _) (zipEntry_location habs h)

/-! ## The target of a request -/

theorem resolveHostTarget_isAbsolute (cwd : List Char) (stamp : Stamp) (customPath : List Char)
    (isDir : Bool) (sourcePath : List Char) :
    isAbsolute (resolveHostTarget cwd stamp customPath isDir sourcePath).absoluteTarget = true := by
  have hjoined : ∀ b, isAbsolute (if isAbsolute b then b else resolve cwd [b]) = true := by
    intro b
    split
    · assumption
    · rfl
  simp only [resolveHostTarget]
  split
  · exact isAbsolute_join (hjoined _) _
  · exact hjoined _

end Restore
end SignalKBackup
