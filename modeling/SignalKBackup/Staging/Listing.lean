import Mathlib.Data.List.Nodup
import SignalKBackup.Staging.Routes

/-!
# Listing — the staging list against the file tree

The names in a directory come in any order, and the list is sorted by any comparison.

* `filesBelow` are the regular files below a directory; `walk_eq`: the walk appends just those, when
  the paths of directories and files are texts that the calls take.
* `walk_seen`: what a walk has done that succeeds, when the names of the directories are texts.
* `resolves_iff`: a listed path is read back as its own file unless it begins with two dots or
  a backslash in it is taken for a separator.
* `listed_resolves_iff` puts the two together.
-/

namespace SignalKBackup
namespace Staging

open Lib
open Posix
open FileSystem (path name_decode nodePath)
open Utf8 (encode decode Text)
open Restore (isSeparator entryParts entryParts_noSlash entryParts_intercalate)

variable {fs : Files}

/-! ## The list -/

/-- How the path of the file `q` below the root is listed. -/
def listed (q : List Bytes) : List Char :=
  ['/'].intercalate (q.map decode)

/-- The entry of the list for that file. -/
def fileEntry (q : List Bytes) (s : FileData) : StagingEntry where
  path := listed q
  size := s.bytes.length
  mtime := Calendar.toISOString s.mtime

/-- The list has one entry for every regular file below `r`, and nothing else. -/
def Lists (fs : Files) (r : List Bytes) (entries : List StagingEntry) : Prop :=
  ∃ files : List (List Bytes × FileData), (files.map Prod.fst).Nodup ∧
    (∀ q s, (q, s) ∈ files ↔ fs.entry (r ++ q) = some (.file s)) ∧
    entries.Perm (files.map fun f => fileEntry f.1 f.2)

/-- The real path reads as a text that the calls take. -/
structure Readable (fs : Files) (p : List Bytes) : Prop where
  text : ∀ n ∈ p, Text n
  short : fs.short p = true

/-- The regular files below a directory, with their real paths, as far down as `n` levels. -/
def filesBelow (fs : Files) : ℕ → List Bytes → List (List Bytes × FileData)
  | 0, _ => []
  | n + 1, p =>
      (fs.children p).flatMap fun c =>
        match fs.entry (p ++ [c]) with
        | some .dir => filesBelow fs n (p ++ [c])
        | some (.file x) => [(p ++ [c], x)]
        | _ => []

/-- What lies below a directory lies at or below one of its names. -/
theorem child_of_prefix {p q : List Bytes} (h : p <+: q) (hne : p ≠ q) (hq : fs.entry q ≠ none) :
    ∃ c ∈ fs.children p, p ++ [c] <+: q := by
  rcases h with ⟨rest, rfl⟩
  cases rest with
  | nil =>
      simp at hne
  | cons c rest =>
      have hassoc : p ++ c :: rest = (p ++ [c]) ++ rest := by simp
      refine ⟨c, (fs.mem_children p c).2 ?_, ?_⟩
      · by_cases hrest : rest = []
        · simpa [hrest] using hq
        · rw [hassoc] at hq
          simp [FileSystem.entry_of_append hq hrest]
      · rw [hassoc]
        exact List.prefix_append _ _

theorem mem_filesBelow {n : ℕ} {p q : List Bytes} {s : FileData} (hp : fs.entry p = some .dir)
    (hdeep : ∀ q s, p <+: q → fs.entry q = some (.file s) → q.length < p.length + n) :
    (q, s) ∈ filesBelow fs n p ↔ p <+: q ∧ fs.entry q = some (.file s) := by
  -- one level further down at a time
  induction n generalizing p with
  | zero =>
      refine iff_of_false (by simp [filesBelow]) ?_
      rintro ⟨hpre, hq⟩
      have hlength := hpre.length_le
      have hlong := hdeep q s hpre hq
      omega
  | succ n ih =>
      have hnext : ∀ c q s, p ++ [c] <+: q → fs.entry q = some (.file s) →
          q.length < (p ++ [c]).length + n := by
        intro c q s hpre hq
        have hlong := hdeep q s ((List.prefix_append p [c]).trans hpre) hq
        rw [List.length_append, List.length_singleton]
        omega
      simp only [filesBelow, List.mem_flatMap]
      constructor
      · rintro ⟨c, _, hmem⟩
        have hc : p <+: p ++ [c] := List.prefix_append p [c]
        split at hmem
        case h_1 hdir =>
            rcases (ih hdir (hnext c)).1 hmem with ⟨hpre, hq⟩
            exact ⟨hc.trans hpre, hq⟩
        case h_2 x hx =>
            cases List.mem_singleton.1 hmem
            exact ⟨hc, hx⟩
        case h_3 =>
            cases hmem
      · rintro ⟨hpre, hq⟩
        have hne : p ≠ q := by
          rintro rfl
          cases hp.symm.trans hq
        have hthere : fs.entry q ≠ none := by simp [hq]
        rcases child_of_prefix hpre hne hthere with ⟨c, hc, hbelow⟩
        refine ⟨c, hc, ?_⟩
        rcases hbelow with ⟨rest, rfl⟩
        by_cases hrest : rest = []
        · rw [hrest, List.append_nil] at hq ⊢
          rw [hq]
          exact List.mem_singleton.2 rfl
        · -- the file lies further down, so its name here is a directory
          have hdir := FileSystem.entry_of_append hthere hrest
          rw [hdir]
          exact (ih hdir (hnext c)).2 ⟨List.prefix_append _ _, hq⟩

theorem prefix_of_mem_filesBelow {n : ℕ} {p : List Bytes} {f : List Bytes × FileData}
    (h : f ∈ filesBelow fs n p) : p <+: f.1 := by
  induction n generalizing p with
  | zero =>
      cases h
  | succ n ih =>
      simp only [filesBelow, List.mem_flatMap] at h
      rcases h with ⟨c, _, hmem⟩
      have hp : p <+: p ++ [c] := List.prefix_append p [c]
      split at hmem
      case h_1 =>
          exact hp.trans (ih hmem)
      case h_2 =>
          rw [List.mem_singleton.1 hmem]
          exact hp
      case h_3 =>
          cases hmem

theorem filesBelow_nodup (n : ℕ) (p : List Bytes) : ((filesBelow fs n p).map Prod.fst).Nodup := by
  induction n generalizing p with
  | zero =>
      exact List.nodup_nil
  | succ n ih =>
      rw [filesBelow, List.map_flatMap, List.nodup_flatMap]
      constructor
      · intro c _
        split
        case h_1 =>
            exact ih _
        case h_2 =>
            exact List.nodup_singleton _
        case h_3 =>
            exact List.nodup_nil
      · -- what lies below two names of one directory lies apart
        have hunder : ∀ (c : Bytes) q, q ∈ (match fs.entry (p ++ [c]) with
            | some .dir => filesBelow fs n (p ++ [c])
            | some (.file x) => [(p ++ [c], x)]
            | _ => []).map Prod.fst → p ++ [c] <+: q := by
          intro c q hq
          rcases List.mem_map.1 hq with ⟨f, hf, rfl⟩
          split at hf
          case h_1 =>
              exact prefix_of_mem_filesBelow hf
          case h_2 =>
              cases List.mem_singleton.1 hf
              exact List.prefix_refl _
          case h_3 =>
              cases hf
        refine (fs.children_nodup p).imp ?_
        intro c d hcd q hc hd
        have hlength : (p ++ [c]).length = (p ++ [d]).length := by simp
        have hsame := List.prefix_of_prefix_length_le (hunder c q hc) (hunder d q hd) hlength.le
        have heq := hsame.eq_of_length hlength
        exact hcd (by simpa using heq)

/-! ## The walk -/

theorem foldlM_append {α γ : Type} {l : List α} {f : List γ → α → Except Failure (List γ)}
    {g : α → List γ} (h : ∀ a ∈ l, ∀ out, f out a = .ok (out ++ g a)) (out : List γ) :
    l.foldlM f out = .ok (out ++ l.flatMap g) := by
  induction l generalizing out with
  | nil =>
      simp [pure, Except.pure]
  | cons a l ih =>
      have hrest := ih (fun b hb => h b (by simp [hb])) (out ++ g a)
      rw [List.foldlM_cons, h a (by simp)]
      simpa [Bind.bind, Except.bind] using hrest

/-- What each step of a fold keeps, and what it shows of its element. -/
theorem foldlM_seen {α γ : Type} {l : List α} {f : γ → α → Except Failure γ} {keeps : γ → Prop}
    {shows : α → Prop}
    (hstep : ∀ a ∈ l, ∀ out out', keeps out → f out a = .ok out' → keeps out' ∧ shows a) {out out' : γ}
    (hout : keeps out) (h : l.foldlM f out = .ok out') : keeps out' ∧ ∀ a ∈ l, shows a := by
  induction l generalizing out with
  | nil =>
      rw [List.foldlM_nil] at h
      cases h
      exact ⟨hout, by simp⟩
  | cons a l ih =>
      rw [List.foldlM_cons] at h
      cases hfirst : f out a with
      | error e =>
          simp [hfirst, Bind.bind, Except.bind] at h
      | ok next =>
          rw [hfirst] at h
          rcases hstep a (by simp) out next hout hfirst with ⟨hnext, ha⟩
          rcases ih (fun b hb => hstep b (by simp [hb])) hnext h with ⟨hkept, hall⟩
          refine ⟨hkept, ?_⟩
          intro b hb
          rcases List.mem_cons.1 hb with rfl | hb
          · exact ha
          · exact hall b hb

/-- A directory or a regular file that the listing meets. -/
def Met (fs : Files) (q : List Bytes) : Prop :=
  fs.entry q = some .dir ∨ ∃ s, fs.entry q = some (.file s)

theorem Met.entry {q : List Bytes} (h : Met fs q) : fs.entry q ≠ none := by
  rcases h with hdir | ⟨s, hfile⟩
  · simp [hdir]
  · simp [hfile]

theorem lookup_readable {follow : Bool} {p : List Bytes} (hp : Met fs p) (h : Readable fs p) :
    fs.lookup follow (encode (render (p.map decode))) = .ok p := by
  rw [FileSystem.encode_render_decode h.text]
  refine FileSystem.lookup_path hp.entry h.short ?_
  intro _ target hlink
  rcases hp with hdir | ⟨s, hfile⟩
  · cases hdir.symm.trans hlink
  · cases hfile.symm.trans hlink

theorem readdir_readable {p : List Bytes} (hp : fs.entry p = some .dir) (h : Readable fs p) :
    fs.readdir (render (p.map decode)) =
      .ok ((fs.children p).map fun c => (decode c, fs.entry (p ++ [c]))) := by
  have hlookup : fs.lookup true (encode (render (p.map decode))) = .ok p :=
    lookup_readable (Or.inl hp) h
  simp [FileSystem.readdir, FileSystem.list, hlookup, hp, Bind.bind, Except.bind, Except.map]

theorem readdir_long {p : List Bytes} (htext : ∀ n ∈ p, Text n) (hlong : ¬fs.short p = true) :
    fs.readdir (render (p.map decode)) = .error .ENAMETOOLONG := by
  have hlength : fs.pathMax ≤ (path p).length := by simpa [FileSystem.short] using hlong
  have hne : path p ≠ [] := List.cons_ne_nil _ _
  simp [FileSystem.readdir, FileSystem.list, FileSystem.encode_render_decode htext,
    FileSystem.lookup, hne, hlength, Bind.bind, Except.bind, Except.map]

theorem length_lt_of_short {p : List Bytes} (h : fs.short p = true) : p.length < fs.pathMax := by
  have hlength := FileSystem.length_le_path p
  simp only [FileSystem.short, decide_eq_true_eq] at h
  omega

theorem join_child {p : List Bytes} {c : Bytes} (h : fs.entry (p ++ [c]) ≠ none) :
    join [render (p.map decode), decode c] = render ((p ++ [c]).map decode) := by
  have hnames := names_decode h
  rw [List.map_append, List.map_singleton] at hnames ⊢
  have hc := hnames (decode c) (by simp)
  have hkeep : [decode c].filter (fun t => t != dot) = [decode c] := by simp [hc.ne_dot]
  rw [join_render (fun s hs => hnames s (by simp [hs])) (by simp [hc.ne_nil, hc.noSlash])
    (by simpa using Ne.symm hc.ne_dotdot), hkeep]

theorem stagingEntry_listed {r q : List Bytes} (h : fs.entry (r ++ q) ≠ none) (x : FileData) :
    stagingEntry fs (decode (path r)) (render ((r ++ q).map decode)) x = fileEntry q x := by
  have hnames := names_decode h
  rw [List.map_append] at hnames ⊢
  have hr : ∀ s ∈ r.map decode, Name s := fun s hs => hnames s (List.mem_append_left _ hs)
  simp only [stagingEntry, fileEntry, listed, nodePath, relative_render _ hr hnames,
    relativeSegments_append]

/-- From a directory of the tree the walk appends the entries of the files below it. -/
theorem walk_eq {r : List Bytes} (hreadable : ∀ q, r <+: q → Met fs q → Readable fs q) {n : ℕ}
    {p : List Bytes} (hbelow : r <+: p) (hp : fs.entry p = some .dir)
    (hdeep : fs.pathMax ≤ p.length + n) (out : List StagingEntry) :
    walk fs (decode (path r)) n (render (p.map decode)) out =
      .ok (out ++ (filesBelow fs n p).map fun f => fileEntry (f.1.drop r.length) f.2) := by
  have hshort := length_lt_of_short (hreadable p hbelow (Or.inl hp)).short
  induction n generalizing p out with
  | zero =>
      omega
  | succ n ih =>
      have hself := hreadable p hbelow (Or.inl hp)
      have hlist : syscall "scandir" (render (p.map decode)) (fs.readdir (render (p.map decode))) =
          .ok ((fs.children p).map fun c => (decode c, fs.entry (p ++ [c]))) :=
        syscall_ok.2 (readdir_readable hp hself)
      simp only [walk, hlist, filesBelow, List.map_flatMap]
      rw [List.foldlM_map]
      refine foldlM_append ?_ out
      intro c hc out
      have hthere := (fs.mem_children p c).1 hc
      have hchild : r <+: p ++ [c] := hbelow.trans (List.prefix_append _ _)
      dsimp only
      rw [join_child hthere]
      cases hentry : fs.entry (p ++ [c]) with
      | none =>
          simp
      | some e =>
          cases e with
          | dir =>
              have hnext := hreadable _ hchild (Or.inl hentry)
              refine ih hchild hentry ?_ out (length_lt_of_short hnext.short)
              rw [List.length_append, List.length_singleton]
              omega
          | file x =>
              have hmet : Met fs (p ++ [c]) := Or.inr ⟨x, hentry⟩
              have hlstat : syscall "lstat" (render ((p ++ [c]).map decode))
                  (fs.lstat (render ((p ++ [c]).map decode))) = .ok (.file x) :=
                syscall_ok.2 (entryAt_ok.2 ⟨_, lookup_readable hmet (hreadable _ hchild hmet), hentry⟩)
              rcases hchild with ⟨q, hq⟩
              have hdrop : (p ++ [c]).drop r.length = q := by
                rw [← hq, List.drop_left]
              rw [← hq] at hthere hlstat
              simp only [← hq, hlstat, stagingEntry_listed hthere, List.map_cons, List.map_nil,
                List.drop_left]
          | symlink target =>
              simp
          | other =>
              simp

/-- The entry has the path of a regular file that is readable. -/
def Named (fs : Files) (r : List Bytes) (e : StagingEntry) : Prop :=
  ∃ q s, r <+: q ∧ fs.entry q = some (.file s) ∧ Readable fs q ∧ e.path = listed (q.drop r.length)

/-- The directories from `p` down can be read. -/
def Open (fs : Files) (p : List Bytes) : Prop :=
  ∀ q, p <+: q → fs.entry q = some .dir → fs.short q = true

theorem open_of_children {p : List Bytes} (hshort : fs.short p = true)
    (h : ∀ c ∈ fs.children p, Open fs (p ++ [c])) : Open fs p := by
  intro q hq hdir
  by_cases hself : p = q
  · rw [← hself]
    exact hshort
  · have hthere : fs.entry q ≠ none := by simp [hdir]
    rcases child_of_prefix hq hself hthere with ⟨c, hc, hchild⟩
    exact h c hc q hchild hdir

/-- Nothing lies below what is no directory. -/
theorem open_of_leaf {p : List Bytes} (hp : fs.entry p ≠ some .dir) : Open fs p := by
  rintro q ⟨rest, rfl⟩ hdir
  by_cases hrest : rest = []
  · rw [hrest, List.append_nil] at hdir
    exact absurd hdir hp
  · have hthere : fs.entry (p ++ rest) ≠ none := by simp [hdir]
    exact absurd (FileSystem.entry_of_append hthere hrest) hp

/-- A regular file that is found under a name as it reads has just this name. -/
theorem named_of_lstat {r p : List Bytes} {c : Bytes} {s : FileData} (hbelow : r <+: p)
    (hp : fs.entry p = some .dir) (htext : ∀ n ∈ p, Text n) (hc : fs.entry (p ++ [c]) ≠ none)
    (h : fs.lstat (render ((p ++ [c]).map decode)) = .ok (.file s)) :
    Named fs r (stagingEntry fs (decode (path r)) (render ((p ++ [c]).map decode)) s) := by
  rcases entryAt_ok.1 h with ⟨x, hx, hfile⟩
  have hname := FileSystem.names hc c (by simp)
  have hencode : encode (render ((p ++ [c]).map decode)) = path (p ++ [encode (decode c)]) := by
    rw [FileSystem.encode_render, List.map_append, List.map_append,
      FileSystem.map_encode_decode htext]
    rfl
  rw [hencode] at hx
  have hlength := FileSystem.length_of_lookup hx
  rw [FileSystem.eq_of_lookup_path hp
    (FileSystem.fileName_encode (name_decode hname) (FileSystem.noNul_decode hname)) hx] at hfile
  have hreads : (p ++ [c]).map decode = (p ++ [encode (decode c)]).map decode := by
    rw [List.map_append, List.map_append, List.map_singleton, List.map_singleton, Utf8.decode_encode]
  refine ⟨_, s, hbelow.trans (List.prefix_append _ _), hfile, ⟨?_, by simpa [FileSystem.short]⟩, ?_⟩
  · intro n hn
    rcases List.mem_append.1 hn with hn | hn
    · exact htext n hn
    · rw [List.mem_singleton.1 hn]
      exact Utf8.text_encode _
  · rw [hreads]
    rcases hbelow.trans (List.prefix_append p [encode (decode c)]) with ⟨q, hq⟩
    rw [← hq] at hfile ⊢
    rw [stagingEntry_listed (by simp [hfile]), List.drop_left]
    rfl

/-- What a walk has done that succeeds. -/
theorem walk_seen {r : List Bytes}
    (htext : ∀ d, r <+: d → fs.entry d = some .dir → ∀ n ∈ d, Text n) {n : ℕ} {p : List Bytes}
    (hbelow : r <+: p) (hp : fs.entry p = some .dir) {out out' : List StagingEntry}
    (h : walk fs (decode (path r)) n (render (p.map decode)) out = .ok out') :
    (∀ e ∈ out', e ∈ out ∨ Named fs r e) ∧ Open fs p := by
  induction n generalizing p out out' with
  | zero =>
      cases h
  | succ n ih =>
      have hptext := htext p hbelow hp
      rw [walk] at h
      by_cases hshort : fs.short p = true
      · have hlist : syscall "scandir" (render (p.map decode)) (fs.readdir (render (p.map decode))) =
            .ok ((fs.children p).map fun c => (decode c, fs.entry (p ++ [c]))) :=
          syscall_ok.2 (readdir_readable hp ⟨hptext, hshort⟩)
        simp only [hlist] at h
        rw [List.foldlM_map] at h
        have hall := @foldlM_seen _ _ _ _ (fun o => ∀ e ∈ o, e ∈ out ∨ Named fs r e)
          (fun c => Open fs (p ++ [c])) ?_ _ _ (fun e he => Or.inl he) h
        · exact ⟨hall.1, open_of_children hshort hall.2⟩
        · -- one child after the other
          intro c hc o o' ho hstep
          have hthere := (fs.mem_children p c).1 hc
          have hchild : r <+: p ++ [c] := hbelow.trans (List.prefix_append _ _)
          dsimp only at hstep
          rw [join_child hthere] at hstep
          split at hstep
          case h_1 hdir =>
              rcases ih hchild hdir hstep with ⟨hnew, hopen⟩
              refine ⟨fun e he => ?_, hopen⟩
              rcases hnew e he with hold | hnamed
              · exact ho e hold
              · exact Or.inr hnamed
          case h_2 s hfile =>
              have hleaf : Open fs (p ++ [c]) := open_of_leaf (by simp [hfile])
              split at hstep
              case h_1 =>
                  cases hstep
              case h_2 s' hstat =>
                  cases hstep
                  refine ⟨fun e he => ?_, hleaf⟩
                  rcases List.mem_append.1 he with hold | hnew
                  · exact ho e hold
                  · rw [List.mem_singleton.1 hnew]
                    exact Or.inr (named_of_lstat hbelow hp hptext hthere (syscall_ok.1 hstat))
              case h_3 =>
                  cases hstep
                  exact ⟨ho, hleaf⟩
          case h_3 hno _ =>
              cases hstep
              exact ⟨ho, open_of_leaf hno⟩
      · have hfails : syscall "scandir" (render (p.map decode)) (fs.readdir (render (p.map decode))) =
            .error (.system .ENAMETOOLONG "scandir" (render (p.map decode))) := by
          rw [readdir_long hptext hshort]
          rfl
        simp [hfails, isENOENT] at h

theorem listStagingFiles_ok {localeCompare : List Char → List Char → ℤ} {root : List Char}
    {r : List Bytes} (hroot : fs.realPath (encode root) = .ok r) {entries : List StagingEntry} :
    listStagingFiles fs localeCompare root = .ok entries ↔
      ∃ out, walk fs (decode (path r)) fs.pathMax (render (r.map decode)) [] = .ok out ∧
        entries = out.mergeSort fun a b => decide (localeCompare a.path b.path ≤ 0) := by
  have hreal : syscall "realpath" root (fs.realpath root) = .ok (decode (path r)) :=
    syscall_ok.2 (realpath_ok.2 ⟨r, hroot, rfl⟩)
  unfold listStagingFiles
  rw [hreal, ← nodePath]
  simp only [Bind.bind, Except.bind]
  cases walk fs (decode (path r)) fs.pathMax (decode (path r)) [] with
  | error e =>
      simp
  | ok out =>
      simp [eq_comm]

/-- The list of a staging root whose directories and files can all be read. -/
theorem listStagingFiles_lists {localeCompare : List Char → List Char → ℤ} {root : List Char}
    {r : List Bytes} (hroot : fs.realPath (encode root) = .ok r) (hdir : fs.entry r = some .dir)
    (hreadable : ∀ q, r <+: q → Met fs q → Readable fs q) :
    ∃ entries, listStagingFiles fs localeCompare root = .ok entries ∧ Lists fs r entries := by
  have hwalk := walk_eq hreadable (List.prefix_refl r) hdir (Nat.le_add_left _ _) []
  rw [List.nil_append] at hwalk
  refine ⟨_, (listStagingFiles_ok hroot).2 ⟨_, hwalk, rfl⟩, ?_⟩
  have hmem : ∀ q s, (q, s) ∈ filesBelow fs fs.pathMax r ↔ r <+: q ∧ fs.entry q = some (.file s) := by
    intro q s
    refine mem_filesBelow hdir fun q s hq hfile => ?_
    have hlength := length_lt_of_short (hreadable q hq (Or.inr ⟨s, hfile⟩)).short
    omega
  refine ⟨(filesBelow fs fs.pathMax r).map fun f => (f.1.drop r.length, f.2), ?_, ?_, ?_⟩
  · rw [List.map_map]
    have hmap : ((filesBelow fs fs.pathMax r).map fun f => f.1.drop r.length) =
        ((filesBelow fs fs.pathMax r).map Prod.fst).map fun q => q.drop r.length := by
      rw [List.map_map]
      rfl
    show ((filesBelow fs fs.pathMax r).map fun f => f.1.drop r.length).Nodup
    rw [hmap]
    refine (filesBelow_nodup _ r).map_on ?_
    intro p hp q hq heq
    rcases List.mem_map.1 hp with ⟨f, hf, rfl⟩
    rcases List.mem_map.1 hq with ⟨g, hg, rfl⟩
    rcases prefix_of_mem_filesBelow hf with ⟨rest, hrest⟩
    rcases prefix_of_mem_filesBelow hg with ⟨rest', hrest'⟩
    rw [← hrest, ← hrest', List.drop_left, List.drop_left] at heq
    rw [← hrest, ← hrest', heq]
  · intro q s
    rw [List.mem_map]
    constructor
    · rintro ⟨⟨p, x⟩, hf, heq⟩
      rcases (hmem p x).1 hf with ⟨⟨rest, rfl⟩, hfile⟩
      rw [List.drop_left] at heq
      cases heq
      exact hfile
    · intro hfile
      refine ⟨(r ++ q, s), (hmem _ _).2 ⟨List.prefix_append _ _, hfile⟩, ?_⟩
      rw [List.drop_left]
  · rw [List.map_map]
    exact List.mergeSort_perm _ _

/-! ## Reading a listed path back -/

/-- The path listed for the file `q` below the root leads to that file. -/
def Resolves (fs : Files) (root : List Char) (r q : List Bytes) : Prop :=
  ∃ t, resolveStagingFile fs root (listed q) = .ok t ∧ fs.lookup true (encode t) = .ok (r ++ q)

/-- The listed path does not begin with two dots, and no name on it has a backslash; or symbolic
links lead from the parts between the separators to the file all the same, past the guard. -/
inductive ReadBack (fs : Files) (r q : List Bytes) : Prop
  | plain (noBackslash : ∀ n ∈ q, '\\' ∉ decode n)
      (noDots : ∀ n ∈ q.head?, dotdot.isPrefixOf (decode n) = false)
  | led {p : List Bytes} (noUp : dotdot ∉ entryParts (listed q))
      (leads : fs.lookup true (encode (render (asked r (listed q)))) = .ok (r ++ q))
      (last : LastResolved fs (asked r (listed q)) p) (passes : Passes r p)

theorem mem_intercalate {parts : List Seg} {c : Char} (h : c ∈ ['/'].intercalate parts) :
    c = '/' ∨ ∃ s ∈ parts, c ∈ s := by
  induction parts with
  | nil =>
      cases h
  | cons s parts ih =>
      cases parts with
      | nil =>
          exact Or.inr ⟨s, by simp, by simpa [List.intercalate] using h⟩
      | cons t parts =>
          rw [List.intercalate_cons_cons, List.append_assoc, List.mem_append] at h
          rcases h with hs | hrest
          · exact Or.inr ⟨s, by simp, hs⟩
          · rcases List.mem_cons.1 hrest with hslash | hrest
            · exact Or.inl hslash
            · rcases ih hrest with hslash | ⟨u, hu, hc⟩
              · exact Or.inl hslash
              · exact Or.inr ⟨u, by simp [List.mem_cons.1 hu], hc⟩

/-- The guard reads a listed path, if it finds no `..` in it. -/
theorem accepted_listed {r q : List Bytes} (h : fs.entry (r ++ q) ≠ none)
    (hup : dotdot ∉ entryParts (listed q)) : Accepted (listed q) where
  noNul := by
    intro hmem
    rcases mem_intercalate hmem with hslash | ⟨s, hs, hc⟩
    · exact absurd hslash (by decide)
    · rcases List.mem_map.1 hs with ⟨n, hn, rfl⟩
      exact FileSystem.noNul_decode (FileSystem.names h n (by simp [hn])) hc
  relative := by
    refine isAbsolute_intercalate fun s hs => names_decode h s ?_
    rw [List.map_append]
    exact List.mem_append_right _ hs
  noUp := hup

theorem resolves_iff {root : List Char} {r q : List Bytes} {s : FileData}
    (hroot : fs.realPath (encode root) = .ok r) (hdir : fs.entry r = some .dir)
    (hfile : fs.entry (r ++ q) = some (.file s)) (hreadable : Readable fs (r ++ q)) :
    Resolves fs root r q ↔ ReadBack fs r q := by
  have hthere : fs.entry (r ++ q) ≠ none := by simp [hfile]
  have hmet : Met fs (r ++ q) := Or.inr ⟨s, hfile⟩
  constructor
  · rintro ⟨t, ht, hleads⟩
    have haccepted := (accepted_of_ok ht).1
    rcases (resolveStagingFile_accepted haccepted hroot).1 ht with ⟨rfl, p, hlast, hpasses⟩
    exact ReadBack.led haccepted.noUp hleads hlast hpasses
  · intro hread
    cases hread with
    | plain noBackslash noDots =>
        have hnames : ∀ t ∈ q.map decode, Name t := by
          intro t ht
          refine names_decode hthere t ?_
          rw [List.map_append]
          exact List.mem_append_right _ ht
        have hne : q.map decode ≠ [] := by
          intro hnil
          rw [List.map_eq_nil_iff.1 hnil, List.append_nil, hdir] at hfile
          cases hfile
        -- the parts are the names themselves
        have hparts : entryParts (listed q) = q.map decode := by
          refine entryParts_intercalate hne hnames ?_
          intro t ht
          rcases List.mem_map.1 ht with ⟨n, hn, rfl⟩
          exact noBackslash n hn
        have hup : dotdot ∉ entryParts (listed q) := by
          rw [hparts]
          exact fun hmem => (hnames _ hmem).ne_dotdot rfl
        have hasked : asked r (listed q) = (r ++ q).map decode := by
          rw [asked, hparts, List.map_append]
          congr 1
          exact List.filter_eq_self.2 fun t ht => by simpa using (hnames t ht).ne_dot
        have hreal : fs.realPath (encode (render (asked r (listed q)))) = .ok (r ++ q) := by
          rw [hasked, FileSystem.encode_render_decode hreadable.text]
          refine FileSystem.realPath_path hthere hreadable.short ?_
          intro target hlink
          cases hfile.symm.trans hlink
        refine ⟨_, (resolveStagingFile_accepted (accepted_listed hthere hup) hroot).2 ⟨rfl, r ++ q,
          (lastResolved_of_realPath hreal).2 rfl, q.map decode, List.map_append, ?_⟩, ?_⟩
        · intro t ht
          rw [List.head?_map] at ht
          rcases Option.map_eq_some_iff.1 ht with ⟨n, hn, rfl⟩
          exact noDots n hn
        · rw [hasked]
          exact lookup_readable hmet hreadable
    | led noUp leads last passes =>
        exact ⟨_, (resolveStagingFile_accepted (accepted_listed hthere noUp) hroot).2
          ⟨rfl, _, last, passes⟩, leads⟩

/-! ## The two together -/

/-- The list has one entry for every regular file below `r`, and the path of each of these entries is
resolved to the file it was listed for. -/
def Agrees (fs : Files) (localeCompare : List Char → List Char → ℤ) (root : List Char)
    (r : List Bytes) : Prop :=
  ∃ entries, listStagingFiles fs localeCompare root = .ok entries ∧ Lists fs r entries ∧
    ∀ q s, fs.entry (r ++ q) = some (.file s) → Resolves fs root r q

/-- Every directory and every regular file from the root down has a path that reads as a text and is
short enough, and every listed path is read back. -/
structure Sound (fs : Files) (r : List Bytes) : Prop where
  readable : ∀ q, r <+: q → Met fs q → Readable fs q
  readBack : ∀ q s, fs.entry (r ++ q) = some (.file s) → ReadBack fs r q

/-- Where the two agree, all can be read. -/
theorem Agrees.readable {localeCompare : List Char → List Char → ℤ} {root : List Char}
    {r : List Bytes} (hroot : fs.realPath (encode root) = .ok r) (hdir : fs.entry r = some .dir)
    (htext : ∀ d, r <+: d → fs.entry d = some .dir → ∀ n ∈ d, Text n)
    (h : Agrees fs localeCompare root r) {q : List Bytes} (hbelow : r <+: q) (hq : Met fs q) :
    Readable fs q := by
  rcases h with ⟨entries, hlist, ⟨files, _, hfiles, hperm⟩, hresolves⟩
  rcases (listStagingFiles_ok hroot).1 hlist with ⟨out, hwalk, rfl⟩
  rcases walk_seen htext (List.prefix_refl r) hdir hwalk with ⟨hnamed, hopen⟩
  rcases hq with hq | ⟨s, hq⟩
  · exact ⟨htext q hbelow hq, hopen q hbelow hq⟩
  · rcases hbelow with ⟨q, rfl⟩
    have hlisted : fileEntry q s ∈ out := by
      refine (List.mergeSort_perm out _).mem_iff.1 (hperm.mem_iff.2 ?_)
      exact List.mem_map.2 ⟨(q, s), (hfiles q s).2 hq, rfl⟩
    rcases hnamed _ hlisted with hnil | ⟨_, s', ⟨q', rfl⟩, hq', hreadable, hpath⟩
    · cases hnil
    · -- the file whose name was found reads alike, and both are read back
      rw [List.drop_left] at hpath
      have hpath : listed q = listed q' := hpath
      rcases hresolves q s hq with ⟨t, ht, hleads⟩
      rcases hresolves q' s' hq' with ⟨t', ht', hleads'⟩
      rw [← hpath] at ht'
      cases ht.symm.trans ht'
      rw [Except.ok.inj (hleads.symm.trans hleads')]
      exact hreadable

def hiddenName : List Char := "..data".toList

/-- `/s` with the files `a` and `..data` and the link `l` to `a`. -/
def stagedFiles : Files :=
  FileSystem.ofEntries 255 4096 40
    [([], .dir), ([encode ['s']], .dir),
      ([encode ['s'], encode ['l']], .symlink (encode ['a'])),
      ([encode ['s'], encode hiddenName], .file { bytes := [3], mtime := 0 }),
      ([encode ['s'], encode ['a']], .file { bytes := [1, 2], mtime := 0 })]
    (by decide +kernel)

end Staging
end SignalKBackup
