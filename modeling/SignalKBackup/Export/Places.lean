import Mathlib.Data.List.Induction
import SignalKBackup.Export.Atomic

/-!
# Places — where joined path strings lead

`place` reads a path string from the working directory on.  Normalising a path string, relative or
not, does not change its place, so joining names to a directory leads to its place with the names
behind it, and `dirname` leads one name back.
-/

namespace SignalKBackup
namespace Export

open Lib
open Posix

variable {cwd p : List Char}

/-! ## Stacks that may go above the root -/

theorem push_true_up (top : Seg) (rest : List Seg) :
    push true (top :: rest) dotdot = if top = dotdot then dotdot :: top :: rest else rest :=
  rfl

/-- What stays on the stack of a relative path: names, and `..` below them. -/
theorem push_true_names {stack : List Seg} {s : Seg} (hstack : ∀ t ∈ stack, t = dotdot ∨ Name t)
    (hs : '/' ∉ s) : ∀ t ∈ push true stack s, t = dotdot ∨ Name t := by
  by_cases hskip : s = [] ∨ s = dot
  · simpa [push, hskip] using hstack
  · by_cases hup : s = dotdot
    · subst hup
      cases stack with
      | nil =>
          have hpush : push true [] dotdot = [dotdot] := rfl
          simp [hpush]
      | cons top rest =>
          rw [push_true_up]
          intro t ht
          split at ht
          case isTrue =>
              rcases List.mem_cons.1 ht with rfl | hmem
              · exact Or.inl rfl
              · exact hstack t hmem
          case isFalse =>
              exact hstack t (List.mem_cons_of_mem _ ht)
    · have hname : Name s := ⟨fun h => hskip (Or.inl h), fun h => hskip (Or.inr h), hup, hs⟩
      rw [push_name hname]
      intro t ht
      rcases List.mem_cons.1 ht with rfl | hmem
      · exact Or.inr hname
      · exact hstack t hmem

theorem foldl_push_true_names {segs : List Seg} (hsegs : ∀ s ∈ segs, '/' ∉ s) :
    ∀ t ∈ segs.foldl (push true) [], t = dotdot ∨ Name t := by
  induction segs using List.reverseRecOn with
  | nil =>
      simp
  | append_singleton segs s ih =>
      rw [List.foldl_append]
      exact push_true_names (ih fun t ht => hsegs t (by simp [ht])) (hsegs s (by simp))

/-- Walking down a normalised path is one step less, or one more, behind each segment. -/
theorem foldl_push_step {stack : List Seg} (hstack : ∀ t ∈ stack, t = dotdot ∨ Name t)
    (base : List Seg) (s : Seg) :
    (push true stack s).reverse.foldl (push false) base =
      push false (stack.reverse.foldl (push false) base) s := by
  by_cases hskip : s = [] ∨ s = dot
  · simp [push, hskip]
  · by_cases hup : s = dotdot
    · subst hup
      cases stack with
      | nil =>
          rfl
      | cons top rest =>
          rw [push_true_up]
          split
          case isTrue =>
              rw [List.reverse_cons, List.foldl_append]
              rfl
          case isFalse htop =>
              -- the name that `..` pops has just been pushed
              have hname : Name top := (hstack top (by simp)).resolve_left htop
              rw [List.reverse_cons, List.foldl_append, List.foldl_cons, List.foldl_nil,
                push_name hname, push, if_neg hskip, if_pos rfl]
              simp [htop]
    · have hpush : push true stack s = s :: stack := by simp [push, hskip, hup]
      rw [hpush, List.reverse_cons, List.foldl_append]
      rfl

theorem foldl_push_normalize {segs : List Seg} (hsegs : ∀ s ∈ segs, '/' ∉ s) (base : List Seg) :
    (normalizeSegments true segs).foldl (push false) base = segs.foldl (push false) base := by
  unfold normalizeSegments
  induction segs using List.reverseRecOn with
  | nil =>
      rfl
  | append_singleton segs s ih =>
      have hinit : ∀ t ∈ segs, '/' ∉ t := fun t ht => hsegs t (by simp [ht])
      have hstep := foldl_push_step (foldl_push_true_names hinit) base s
      rw [ih hinit] at hstep
      simpa [List.foldl_append] using hstep

/-- The segments of a normalised path string are filled, and hold no slash. -/
theorem normalizeSegments_filled (b : Bool) {segs : List Seg} (hsegs : ∀ s ∈ segs, '/' ∉ s) :
    ∀ s ∈ normalizeSegments b segs, s ≠ [] ∧ '/' ∉ s := by
  intro s hs
  have hmem : s ∈ segs.foldl (push b) [] := List.mem_reverse.1 hs
  cases b with
  | false =>
      have hname := foldl_push_names (by simp) hsegs s hmem
      exact ⟨hname.ne_nil, hname.noSlash⟩
  | true =>
      rcases foldl_push_true_names hsegs s hmem with rfl | hname
      · exact ⟨by decide, by decide⟩
      · exact ⟨hname.ne_nil, hname.noSlash⟩

/-! ## Places of normalised paths -/

theorem place_of_absolute (habs : isAbsolute p = true) : place cwd p = locate p := by
  rw [place, if_pos habs]

theorem place_of_relative (hrel : isAbsolute p = false) :
    place cwd p = ((segments p).foldl (push false) (locate cwd).reverse).reverse := by
  rw [place, hrel, if_neg Bool.false_ne_true, locate_cons_slash]

theorem segments_concat_slash (p : List Char) : segments (p ++ ['/']) = segments p ++ [[]] :=
  segments_cons_slash p []

/-- A slash at the end does not count. -/
theorem foldl_push_concat_slash (p : List Char) (b : Bool) (base : List Seg) :
    (segments (p ++ ['/'])).foldl (push b) base = (segments p).foldl (push b) base := by
  rw [segments_concat_slash, List.foldl_append]
  simp

theorem isAbsolute_concat (hne : p ≠ []) (q : List Char) : isAbsolute (p ++ q) = isAbsolute p := by
  cases p with
  | nil =>
      exact absurd rfl hne
  | cons c p =>
      rfl

theorem place_concat_slash (hne : p ≠ []) : place cwd (p ++ ['/']) = place cwd p := by
  cases habs : isAbsolute p with
  | false =>
      have habs' : isAbsolute (p ++ ['/']) = false := by rw [isAbsolute_concat hne, habs]
      rw [place_of_relative habs', place_of_relative habs, foldl_push_concat_slash]
  | true =>
      have habs' : isAbsolute (p ++ ['/']) = true := by rw [isAbsolute_concat hne, habs]
      rw [place_of_absolute habs', place_of_absolute habs]
      simp only [locate, normalizeSegments, foldl_push_concat_slash]

/-- A normalised path string has the segments that are left, between its slashes. -/
theorem segments_normalize (hne : p ≠ [])
    (hsegs : normalizeSegments (!isAbsolute p) (segments p) ≠ []) :
    (segments (Posix.normalize p)).filter (fun s => s != []) =
        normalizeSegments (!isAbsolute p) (segments p) ∧
      isAbsolute (Posix.normalize p) = isAbsolute p := by
  have hslashes : ∀ s ∈ segments p, '/' ∉ s := fun s hs => noSlash_of_mem_segments hs
  have hfilled := normalizeSegments_filled (!isAbsolute p) hslashes
  unfold Posix.normalize normalizeString
  generalize normalizeSegments (!isAbsolute p) (segments p) = segs at hsegs hfilled ⊢
  rcases not_absolute_intercalate hsegs hfilled [] with ⟨hbody, _⟩
  have hall : segs.filter (fun s => s != []) = segs :=
    List.filter_eq_self.2 fun s hs => by simpa using (hfilled s hs).1
  have hsplit : segments (['/'].intercalate segs) = segs :=
    segments_intercalate (fun s hs => (hfilled s hs).2) hsegs
  have hslash : ∀ q, segments ('/' :: q) = [] :: segments q := fun q => segments_cons_slash [] q
  have hrel : ∀ q, isAbsolute (['/'].intercalate segs ++ q) = false :=
    fun q => (not_absolute_intercalate hsegs hfilled q).2
  have habsolute : ∀ q, isAbsolute ('/' :: q) = true := fun q => rfl
  -- with a slash at the end, at the front, at both or at neither
  cases htrailing : p.getLast? == some '/' with
  | true =>
      cases habs : isAbsolute p with
      | true =>
          simp [hne, hbody, hslash, segments_concat_slash, hsplit, hall, habsolute]
      | false =>
          simp [hne, hbody, segments_concat_slash, hsplit, hall, hrel]
  | false =>
      cases habs : isAbsolute p with
      | true =>
          simp [hne, hbody, hslash, hsplit, hall, habsolute]
      | false =>
          have hnil := hrel []
          rw [List.append_nil] at hnil
          simp [hne, hbody, hsplit, hall, hnil]

/-- Empty segments do not count. -/
theorem foldl_push_filter (segs : List Seg) (b : Bool) (base : List Seg) :
    (segs.filter fun s => s != []).foldl (push b) base = segs.foldl (push b) base := by
  induction segs generalizing base with
  | nil =>
      rfl
  | cons s segs ih =>
      by_cases hs : s = []
      · simp [hs, ih]
      · simp [hs, ih]

theorem place_normalize (hne : p ≠ []) : place cwd (Posix.normalize p) = place cwd p := by
  cases habs : isAbsolute p with
  | true =>
      rw [place_of_absolute (isAbsolute_normalize habs), place_of_absolute habs,
        locate_normalize habs]
  | false =>
      have hslashes : ∀ s ∈ segments p, '/' ∉ s := fun s hs => noSlash_of_mem_segments hs
      have hsegs := foldl_push_normalize hslashes
      by_cases hnil : normalizeSegments true (segments p) = []
      · -- nothing is left but the working directory
        have hdot : Posix.normalize p = dot ∨ Posix.normalize p = dot ++ ['/'] := by
          have hbody : normalizeString p true = [] := by simp [normalizeString, hnil]
          unfold Posix.normalize
          simp only [hne, habs, Bool.not_false, hbody, if_false, if_true, Bool.false_eq_true]
          split
          case isTrue =>
              exact Or.inr rfl
          case isFalse =>
              exact Or.inl rfl
        have hplace : place cwd dot = locate cwd := by
          have hstay : (segments dot).foldl (push false) (locate cwd).reverse =
            (locate cwd).reverse := rfl
          rw [place_of_relative rfl, hstay, List.reverse_reverse]
        have hstart := hsegs (locate cwd).reverse
        rw [hnil, List.foldl_nil] at hstart
        rw [place_of_relative habs, ← hstart, List.reverse_reverse]
        rcases hdot with hdot | hdot
        · rw [hdot, hplace]
        · rw [hdot, place_concat_slash (by decide), hplace]
      · have hbnot : normalizeSegments (!isAbsolute p) (segments p) ≠ [] := by
          rw [habs]
          exact hnil
        rcases segments_normalize hne hbnot with ⟨hfilter, hrel⟩
        rw [habs] at hfilter hrel
        rw [place_of_relative hrel, place_of_relative habs, ← foldl_push_filter, hfilter]
        exact congrArg List.reverse (hsegs _)

/-! ## Joined path strings -/

theorem place_cons_slash {dir : List Char} (hdir : dir ≠ []) (rel : List Char) :
    place cwd (dir ++ '/' :: rel) =
      ((segments rel).foldl (push false) (place cwd dir).reverse).reverse := by
  have habs := isAbsolute_concat hdir ('/' :: rel)
  cases hdirabs : isAbsolute dir with
  | true =>
      rw [place_of_absolute (habs.trans hdirabs), place_of_absolute hdirabs, locate_cons_slash]
  | false =>
      rw [place_of_relative (habs.trans hdirabs), place_of_relative hdirabs, segments_cons_slash,
        List.foldl_append, List.reverse_reverse]

theorem join_eq {dir : List Char} (hdir : dir ≠ []) {rel : List Char} (hrel : rel ≠ []) :
    join [dir, rel] = Posix.normalize (dir ++ '/' :: rel) := by
  simp [join, hdir, hrel, List.intercalate]

/-- The names in a path string without `..`. -/
def namesIn (rel : List Char) : List Seg :=
  (segments rel).filter fun s => s != [] && s != dot

theorem place_join {dir rel : List Char} (hdir : dir ≠ []) (hrel : rel ≠ [])
    (hup : dotdot ∉ segments rel) : place cwd (join [dir, rel]) = place cwd dir ++ namesIn rel := by
  have hne : dir ++ '/' :: rel ≠ [] := by simp
  rw [join_eq hdir hrel, place_normalize hne, place_cons_slash hdir, foldl_push_keeps hup]
  simp [namesIn]

theorem place_nil : place cwd [] = locate cwd := by
  have hstay : (segments []).foldl (push false) (locate cwd).reverse = (locate cwd).reverse := rfl
  rw [place_of_relative rfl, hstay, List.reverse_reverse]

theorem isAbsolute_noSlash {s : List Char} (hs : '/' ∉ s) : isAbsolute s = false := by
  cases s with
  | nil =>
      rfl
  | cons c s =>
      have hc : c ≠ '/' := by
        rintro rfl
        exact hs (by simp)
      simpa [isAbsolute] using hc

theorem place_join_name (dir : List Char) {s : Seg} (hs : Name s) :
    place cwd (join [dir, s]) = place cwd dir ++ [s] := by
  have hsegs := segments_noSlash hs.noSlash
  by_cases hdir : dir = []
  · have hjoin : join [dir, s] = Posix.normalize s := by
      simp [join, hdir, hs.ne_nil, List.intercalate]
    rw [hjoin, hdir, place_normalize hs.ne_nil, place_of_relative (isAbsolute_noSlash hs.noSlash),
      hsegs, place_nil]
    simp [push_name hs]
  · have hup : dotdot ∉ segments s := by
      rw [hsegs, List.mem_singleton]
      exact fun h => hs.ne_dotdot h.symm
    rw [place_join hdir hs.ne_nil hup]
    simp [namesIn, hsegs, hs.ne_nil, hs.ne_dot]

theorem normalize_ne_nil (p : List Char) : Posix.normalize p ≠ [] := by
  unfold Posix.normalize
  split
  case isTrue =>
      decide
  case isFalse =>
      dsimp only
      split
      case isTrue =>
          split
          · decide
          · split
            · decide
            · decide
      case isFalse hbody =>
          split
          · split
            · simp
            · simp
          · split
            · simp
            · exact hbody

theorem join_ne_nil (paths : List (List Char)) : join paths ≠ [] := by
  unfold join
  dsimp only
  split
  case isTrue =>
      decide
  case isFalse =>
      exact normalize_ne_nil _

/-! ## Directories -/

theorem dirname_concat_slash (hne : p ≠ []) : dirname (p ++ ['/']) = dirname p := by
  simp only [dirname, List.reverse_append, List.reverse_singleton, List.singleton_append,
    List.dropWhile_cons, beq_self_eq_true, if_true, isAbsolute_concat hne]

theorem basename_concat_slash (p : List Char) : basename (p ++ ['/']) = basename p := by
  simp [basename, segments_concat_slash]

/-- The directory a path string of one name is in, or a directory and a name. -/
theorem place_dirname_cons_slash (dir : List Char) {s : Seg} (hs : Name s) :
    place cwd (dirname (dir ++ '/' :: s)) = (place cwd (dir ++ '/' :: s)).dropLast := by
  rw [dirname_cons_slash dir hs.ne_nil hs.noSlash]
  by_cases hdir : dir = []
  · have hroot : locate ('/' :: s) = [s] := by
      have hcons := locate_cons_slash [] s
      have hnil : locate [] = [] := rfl
      rw [segments_noSlash hs.noSlash, hnil] at hcons
      simpa [push_name hs] using hcons
    rw [if_pos hdir, hdir, List.nil_append, place_of_absolute rfl, place_of_absolute rfl, hroot]
    rfl
  · have hplace : place cwd (dir ++ '/' :: s) = place cwd dir ++ [s] := by
      rw [place_cons_slash hdir, segments_noSlash hs.noSlash]
      simp [push_name hs]
    rw [if_neg hdir, hplace, List.dropLast_concat]
    split
    case isTrue hroot =>
        rw [hroot]
        rfl
    case isFalse =>
        rfl

/-- `dirname` leads one name back, when the path string ends in a name. -/
theorem place_dirname (hname : Name (basename p)) :
    place cwd (dirname p) = (place cwd p).dropLast := by
  -- from the end of the string: slashes there do not count
  induction p using List.reverseRecOn with
  | nil =>
      exact absurd rfl hname.ne_nil
  | append_singleton p c ih =>
      by_cases hc : c = '/'
      · subst hc
        rw [basename_concat_slash] at hname
        have hne : p ≠ [] := by
          rintro rfl
          exact hname.ne_nil rfl
        rw [dirname_concat_slash hne, place_concat_slash hne]
        exact ih hname
      · rcases exists_last_segment (p ++ [c]) with ⟨s, hs, hcase⟩
        have hfilled : s ≠ [] := by
          rintro rfl
          rcases hcase with ⟨hnil, _⟩ | ⟨dir, hslash, _⟩
          · exact absurd hnil (by simp)
          · exact hc (by simpa using (List.append_inj' hslash rfl).2)
        rcases hcase with ⟨hone, hsegs⟩ | ⟨dir, hslash, hsegs⟩
        · have hbase : basename (p ++ [c]) = s := by simp [basename, hsegs, hfilled]
          rw [hbase] at hname
          rw [hone, dirname_noSlash hname, place_of_relative (isAbsolute_noSlash hs),
            segments_noSlash hs, place_of_relative rfl]
          have hstay : (segments ['.']).foldl (push false) (locate cwd).reverse =
            (locate cwd).reverse := rfl
          simp [hstay, push_name hname]
        · have hbase : basename (p ++ [c]) = s := by simp [basename, hsegs, hfilled]
          rw [hbase] at hname
          rw [hslash]
          exact place_dirname_cons_slash dir hname

/-- A path joined to a directory ends in the last of its names. -/
theorem basename_join {dir rel : List Char} (hdir : dir ≠ []) (hrel : rel ≠ [])
    (hup : dotdot ∉ segments rel) {names : List Seg} {s : Seg} (hnames : namesIn rel = names ++ [s]) :
    basename (join [dir, rel]) = s := by
  have hne : dir ++ '/' :: rel ≠ [] := by simp
  have hlast : ∃ init, normalizeSegments (!isAbsolute (dir ++ '/' :: rel))
      (segments (dir ++ '/' :: rel)) = init ++ [s] := by
    have hbelow : ((segments rel).filter fun s => s != [] && s != dot) = names ++ [s] := hnames
    rw [normalizeSegments, segments_cons_slash, List.foldl_append, foldl_push_keeps hup, hbelow,
      List.reverse_append, List.reverse_reverse]
    exact ⟨_, (List.append_assoc _ _ _).symm⟩
  rcases hlast with ⟨init, hinit⟩
  have hfilled : normalizeSegments (!isAbsolute (dir ++ '/' :: rel))
      (segments (dir ++ '/' :: rel)) ≠ [] := by simp [hinit]
  rw [join_eq hdir hrel, basename, (segments_normalize hne hfilled).1, hinit, List.getLastD_concat]

/-! ## Suffixes -/

/-- Below a place, a path string with a suffix leads to the same directory. -/
theorem prefix_place_suffix {root : List Seg} {w : Seg} (hw : '/' ∉ w) (hlong : 3 ≤ w.length)
    (h : root <+: place cwd p) (hbelow : place cwd p ≠ root) : root <+: place cwd (p ++ w) := by
  rcases place_suffix cwd p hw hlong with ⟨base, s, hs, _, hplace, hsuffix⟩
  rw [hsuffix]
  refine List.IsPrefix.trans ?_ (List.prefix_append _ _)
  rw [hplace] at h hbelow
  by_cases hn : Name s
  · rw [push_name hn, List.reverse_cons, List.reverse_reverse] at h hbelow
    rcases List.prefix_concat_iff.1 h with hself | hbase
    · exact absurd hself.symm hbelow
    · exact hbase
  · exact h.trans (push_of_not_name base hs hn)

theorem place_join_suffix (cwd dir : List Char) {s w : Seg} (hs : Name s) (hw : '/' ∉ w)
    (hlong : 3 ≤ w.length) : place cwd (join [dir, s] ++ w) = place cwd dir ++ [s ++ w] := by
  rcases place_suffix cwd (join [dir, s]) hw hlong with ⟨base, t, _, hlast, hplace, hsuffix⟩
  have hjoin : lastSegment (join [dir, s]) = s := lastSegment_join [dir] hs
  rw [hlast, hjoin] at hplace hsuffix
  rw [place_join_name dir hs, push_name hs, List.reverse_cons, List.reverse_reverse] at hplace
  -- the name is the same, so the directory is
  rw [hsuffix, (List.append_inj_left' hplace rfl)]

end Export
end SignalKBackup
