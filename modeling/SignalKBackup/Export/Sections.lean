import SignalKBackup.Export.Round

/-!
# Sections — the directories of the Grafana export never mix two rounds

`exportDashboards` and `exportProvisioning` ask for the list of files, empty their directory, and write
the files of the list one by one.  Each of these calls can fail, and the process can stop at any of
them.

* `Gathering` records the files and the lists that came in a round, and the files of the rounds before.
* `IsOld` describes a directory before it is emptied, `Renewed` behind that: every file that is not
  `.partial` came in this round and counts as done, and the files that count as done are there.
* `Counted`: what a section leaves that has not failed; the files that are done are those of entries of
  the list that came.
* `Renewed.count`: where the entries are for different places, they are the entries whose file is
  there.
-/

namespace SignalKBackup
namespace Export

open Lib
open Posix
open FileTree
open GrafanaExporter

variable {β : Type}

/-! ## Rounds with a record -/

/-- A disk with a record of what came, which no step reads. -/
structure Gathering (β : Type) where
  disk : Disk β
  /-- The tree when the round began. -/
  start : FileTree Seg β
  /-- The files that came in this round, with the places they are for. -/
  fetched : List (List Seg × β)
  /-- Those of the rounds before. -/
  past : List (List (List Seg × β))
  /-- What was asked last and answered. -/
  asking : Option Request
  /-- The values that were read of the answers in this round, with what was asked. -/
  answers : List (Request × Json)

/-- Where the file that is asked for goes to. -/
def destination (cwd stagingDir : List Char) : Request → Option (List Seg)
  | .dashboard name => some (place cwd (join [join [stagingDir, "dashboards".toList], name]))
  | .provisioningFile relPath =>
      some (place cwd (join [join [stagingDir, "provisioning".toList], relPath]))
  | _ => none

/-- A file that comes. -/
def fileOf (cwd stagingDir : List Char) : Op β → Outcome β → List (List Seg × β)
  | .fetch request, .responds res =>
      match destination cwd stagingDir request, res.ok, res.body with
      | some p, true, some body => [(p, body)]
      | _, _, _ => []
  | _, _ => []

/-- What has been asked last, behind a step. -/
def askingAfter (asking : Option Request) : Op β → Outcome β → Option Request
  | .fetch request, .responds _ => some request
  | _, _ => asking

/-- A value that is read of the answer. -/
def valueOf (asking : Option Request) : Op β → Outcome β → List (Request × Json)
  | .json, .parses value => (asking.map fun request => (request, value)).toList
  | _, _ => []

def Gathering.settle (cwd stagingDir : List Char) (s : Gathering β) (op : Op β) (o : Outcome β) :
    Option (Gathering β × Option (Res op)) :=
  (Export.settle cwd s.disk op o).map fun (disk, r) =>
    ({ s with
        disk
        fetched := s.fetched ++ fileOf cwd stagingDir op o
        asking := askingAfter s.asking op o
        answers := s.answers ++ valueOf s.asking op o }, r)

/-- A round begins. -/
def Gathering.enter (s : Gathering β) : Gathering β :=
  { s with
    start := s.disk.fs
    fetched := []
    past := s.fetched :: s.past
    asking := none
    answers := [] }

abbrev grafanaStaging (signalkConfigRoot : List Char) : List Char :=
  stagingDirOf signalkConfigRoot pluginId

def sectionRounds (c : Codec β) (cwd signalkConfigRoot : List Char) :
    Calling (Gathering β) Enabled (Outcome β) (Op β) Res (Except String (List ExportResult)) :=
  rounds c signalkConfigRoot Gathering.enter (Gathering.settle cwd (grafanaStaging signalkConfigRoot))

/-- A call goes on, in any way. -/
def gathers (cwd stagingDir : List Char) : Steps (Op β) Res (Gathering β) :=
  fun s op t r => ∃ o, Export.settle cwd s.disk op o = some (t.disk, r) ∧
    t.fetched = s.fetched ++ fileOf cwd stagingDir op o ∧ t.start = s.start ∧ t.past = s.past ∧
    t.asking = askingAfter s.asking op o ∧ t.answers = s.answers ++ valueOf s.asking op o

theorem answers_kept {cwd stagingDir : List Char} {x : Request × Json} (s : Gathering β) (op : Op β)
    (t : Gathering β) (r : Option (Res op)) (hx : x ∈ s.answers) (h : gathers cwd stagingDir s op t r) :
    x ∈ t.answers := by
  rcases h with ⟨o, _, _, _, _, _, hanswers⟩
  rw [hanswers]
  exact List.mem_append_left _ hx

/-! ## Directories -/

/-- The directories that are emptied before they are written. -/
inductive Directory
  | dashboards
  | provisioning
  deriving DecidableEq

/-- Its name, which is the table of its row too. -/
def Directory.table : Directory → List Char
  | .dashboards => "dashboards".toList
  | .provisioning => "provisioning".toList

def Directory.root (cwd stagingDir : List Char) (d : Directory) : List Seg :=
  place cwd (join [stagingDir, d.table])

/-- The request for the list of its files. -/
def Directory.request : Directory → Request
  | .dashboards => .dashboards
  | .provisioning => .provisioning

/-- The list in the answer. -/
def Directory.list (d : Directory) (body : Json) : Option (List Json) :=
  match body.field (match d with | .dashboards => "dashboards" | .provisioning => "files") with
  | some (.array items) => some items
  | _ => none

/-- Where the file of an entry of the list goes to, if the entry is accepted. -/
def Directory.placeOf (cwd stagingDir : List Char) (d : Directory) (raw : Json) : Option (List Seg) :=
  match d with
  | .dashboards =>
      (parseDashboardEntry raw).bind fun entry => destination cwd stagingDir (.dashboard entry.name)
  | .provisioning =>
      (parseProvisioningEntry raw).bind fun entry =>
        destination cwd stagingDir (.provisioningFile entry.relPath)

/-- Every file of the directory that is not `.partial` is one that `ok` describes. -/
def FilesIn (dir : List Seg) (ok : List Seg → β → Prop) (fs : FileTree Seg β) : Prop :=
  ∀ p bytes, dir <+: p → fs p = some (.file bytes) → IsPartial p ∨ ok p bytes

/-- The directories between `dir` and `p` are there. -/
def Led (dir p : List Seg) (fs : FileTree Seg β) : Prop :=
  ∀ x, dir <+: x → x <+: p → x ≠ p → fs x = some .dir

/-- The directory has been emptied in this round, and since then filled with the files that count as
done. -/
structure Renewed (dir : List Seg) (fetched : List (List Seg × β)) (done : List (List Seg))
    (fs : FileTree Seg β) : Prop where
  noLinks : NoLinks fs []
  there : fs dir = some .dir
  files : FilesIn dir (fun p bytes => (p, bytes) ∈ fetched ∧ p ∈ done) fs
  led : ∀ p ∈ done, dir <+: p ∧ Led dir p fs
  done : ∀ p ∈ done, ¬IsPartial p → ∃ bytes, fs p = some (.file bytes)

section Trees

variable {dir p q : List Seg} {fs fs' : FileTree Seg β} {fetched : List (List Seg × β)}
  {done : List (List Seg)} {ok : List Seg → β → Prop}

theorem FilesIn.mono {ok' : List Seg → β → Prop} (h : FilesIn dir ok fs)
    (himp : ∀ p bytes, ok p bytes → ok' p bytes) : FilesIn dir ok' fs := by
  intro p bytes hp hfile
  rcases h p bytes hp hfile with hsuffix | hok
  · exact Or.inl hsuffix
  · exact Or.inr (himp p bytes hok)

/-- Every file was there before, or has a `.partial` name. -/
theorem FilesIn.of_files (h : FilesIn dir ok fs)
    (hfiles : ∀ p bytes, dir <+: p → fs' p = some (.file bytes) → fs p = some (.file bytes) ∨ IsPartial p) :
    FilesIn dir ok fs' := by
  intro p bytes hp hfile
  rcases hfiles p bytes hp hfile with hold | hsuffix
  · exact h p bytes hp hold
  · exact Or.inl hsuffix

theorem FilesIn.mkdirs (h : FilesIn dir ok fs) (q : List Seg) : FilesIn dir ok (fs.mkdirs q) := by
  refine h.of_files fun p bytes _ hfile => Or.inl ?_
  simp only [FileTree.mkdirs] at hfile
  split at hfile
  · cases hfile
  · exact hfile

theorem FilesIn.remove (h : FilesIn dir ok fs) (q : List Seg) : FilesIn dir ok (fs.remove q) := by
  refine h.of_files fun p bytes _ hfile => Or.inl ?_
  simp only [FileTree.remove] at hfile
  split at hfile
  · cases hfile
  · exact hfile

theorem FilesIn.put (h : FilesIn dir ok fs) (hq : IsPartial q) (node : Node Seg β) :
    FilesIn dir ok (fs.put q node) := by
  refine h.of_files fun p bytes _ hfile => ?_
  by_cases hpq : p = q
  · exact Or.inr (hpq ▸ hq)
  · simp only [FileTree.put, hpq, if_false] at hfile
    exact Or.inl hfile

theorem filesIn_empty (fs : FileTree Seg β) : FilesIn dir ok (fs.remove dir) := by
  intro p bytes hp hfile
  rw [FileTree.remove, if_pos hp] at hfile
  cases hfile

theorem Led.mkdirs (h : Led dir p fs) (q : List Seg) : Led dir p (fs.mkdirs q) := by
  intro x hx hxp hne
  have hdir := h x hx hxp hne
  simp [FileTree.mkdirs, hdir]

/-- A file is not on the way, so it can go. -/
theorem Led.remove (h : Led dir p fs) {bytes : β} (hfile : fs q = some (.file bytes)) (hq : dir <+: q) :
    Led dir p (fs.remove q) := by
  intro x hx hxp hne
  rw [FileTree.remove, if_neg, h x hx hxp hne]
  intro hqx
  -- `q` would be on the way itself
  have hqp : q ≠ p := by
    rintro rfl
    exact hne (hxp.eq_of_length (Nat.le_antisymm hxp.length_le hqx.length_le))
  rw [h q hq (hqx.trans hxp) hqp] at hfile
  cases hfile

theorem Led.put (h : Led dir p fs) (hq : fs q ≠ some .dir) (node : Node Seg β) :
    Led dir p (fs.put q node) := by
  intro x hx hxp hne
  have hdir := h x hx hxp hne
  have hxq : x ≠ q := by
    rintro rfl
    exact hq hdir
  rw [FileTree.put, if_neg hxq, hdir]

theorem Renewed.mkdirs (h : Renewed dir fetched done fs) (q : List Seg) :
    Renewed dir fetched done (fs.mkdirs q) where
  noLinks := h.noLinks.mkdirs q
  there := by simp [FileTree.mkdirs, h.there]
  files := h.files.mkdirs q
  led p hp := ⟨(h.led p hp).1, (h.led p hp).2.mkdirs q⟩
  done p hp hsuffix := by
    rcases h.done p hp hsuffix with ⟨bytes, hfile⟩
    exact ⟨bytes, by simp [FileTree.mkdirs, hfile]⟩

/-- A file with a `.partial` name is written. -/
theorem Renewed.put (h : Renewed dir fetched done fs) (hq : IsPartial q) (hdir : fs q ≠ some .dir)
    (bytes : β) : Renewed dir fetched done (fs.put q (.file bytes)) where
  noLinks := h.noLinks.put (by simp)
  there := by
    have hne : dir ≠ q := by
      rintro rfl
      exact hdir h.there
    rw [FileTree.put, if_neg hne, h.there]
  files := h.files.put hq _
  led p hp := ⟨(h.led p hp).1, (h.led p hp).2.put hdir _⟩
  done p hp hsuffix := by
    have hne : p ≠ q := by
      rintro rfl
      exact hsuffix hq
    rcases h.done p hp hsuffix with ⟨b, hfile⟩
    exact ⟨b, by rw [FileTree.put, if_neg hne, hfile]⟩

/-- A file with a `.partial` name is removed. -/
theorem Renewed.remove (h : Renewed dir fetched done fs) (hq : IsPartial q) {bytes : β}
    (hfile : fs q = some (.file bytes)) (hbelow : dir <+: q) : Renewed dir fetched done (fs.remove q) where
  noLinks := h.noLinks.remove q
  there := by
    rw [FileTree.remove, if_neg, h.there]
    intro hqd
    -- `q` would be the directory
    have heq : dir = q := hbelow.eq_of_length (Nat.le_antisymm hbelow.length_le hqd.length_le)
    rw [← heq, h.there] at hfile
    cases hfile
  files := h.files.remove q
  led p hp := ⟨(h.led p hp).1, (h.led p hp).2.remove hfile hbelow⟩
  done p hp hsuffix := by
    rcases h.done p hp hsuffix with ⟨b, hp'⟩
    refine ⟨b, ?_⟩
    rw [FileTree.remove, if_neg, hp']
    intro hqp
    by_cases heq : q = p
    · exact hsuffix (heq ▸ hq)
    · rw [(h.led p hp).2 q hbelow hqp heq] at hfile
      cases hfile

/-- A file that came is renamed to its place. -/
theorem Renewed.rename {src dst : List Seg} {body : β} (h : Renewed dir fetched done fs)
    (hsrc : IsPartial src) (hbelow : dir <+: src) (hfile : fs src = some (.file body))
    (hbody : (dst, body) ∈ fetched) (hdst : dir <+: dst) (hled : Led dir dst fs)
    (hrename : fs.rename src dst = some fs') : Renewed dir fetched (done ++ [dst]) fs' := by
  have hfree : fs dst ≠ some .dir := rename_file hfile hrename
  rcases rename_eq_some hrename with ⟨hapart, ⟨bytes, hbytes, rfl⟩ | ⟨hdir, _⟩⟩
  · rw [hfile] at hbytes
    cases hbytes
    have hremoved := h.remove hsrc hfile hbelow
    have hfree' : fs.remove src dst ≠ some .dir := by
      rw [FileTree.remove, if_neg hapart.1]
      exact hfree
    refine ⟨hremoved.noLinks.put (by simp), ?_, fun p bytes hp hput => ?_, fun p hp => ?_,
      fun p hp hsuffix => ?_⟩
    · have hne : dir ≠ dst := by
        rintro rfl
        exact hfree h.there
      rw [FileTree.put, if_neg hne, hremoved.there]
    · by_cases hpd : p = dst
      · subst hpd
        simp only [FileTree.put, if_true, Option.some.injEq, Node.file.injEq] at hput
        exact Or.inr ⟨hput ▸ hbody, by simp⟩
      · simp only [FileTree.put, hpd, if_false] at hput
        rcases hremoved.files p bytes hp hput with hpartial | ⟨hcame, hdone⟩
        · exact Or.inl hpartial
        · exact Or.inr ⟨hcame, List.mem_append_left _ hdone⟩
    · rcases List.mem_append.1 hp with hp | hp
      · exact ⟨(h.led p hp).1, (hremoved.led p hp).2.put hfree' _⟩
      · rw [List.mem_singleton.1 hp]
        exact ⟨hdst, (hled.remove hfile hbelow).put hfree' _⟩
    · by_cases hpd : p = dst
      · exact ⟨body, by simp [FileTree.put, hpd]⟩
      · rcases List.mem_append.1 hp with hp | hp
        · rcases hremoved.done p hp hsuffix with ⟨b, hb⟩
          exact ⟨b, by rw [FileTree.put, if_neg hpd, hb]⟩
        · exact absurd (List.mem_singleton.1 hp) hpd
  · rw [hfile] at hdir
    cases hdir

theorem Renewed.more (h : Renewed dir fetched done fs) (more : List (List Seg × β)) :
    Renewed dir (fetched ++ more) done fs :=
  { h with files := h.files.mono fun _ _ hmem => ⟨List.mem_append_left _ hmem.1, hmem.2⟩ }

theorem Renewed.of_same (h : Renewed dir fetched done fs) (hlinks : NoLinks fs' [])
    (hsame : ∀ p, dir <+: p → fs' p = fs p) : Renewed dir fetched done fs' where
  noLinks := hlinks
  there := by rw [hsame dir (List.prefix_refl _), h.there]
  files p bytes hp hfile := h.files p bytes hp (by rw [← hsame p hp, hfile])
  led p hp := ⟨(h.led p hp).1, fun x hx hxp hne => by rw [hsame x hx, (h.led p hp).2 x hx hxp hne]⟩
  done p hp hsuffix := by
    rw [hsame p (h.led p hp).1]
    exact h.done p hp hsuffix

theorem renewed_empty {fs : FileTree Seg β} (hlinks : NoLinks fs []) (hempty : FilesIn dir ok fs)
    (hthere : fs dir = some .dir) (hok : ∀ p bytes, ¬ok p bytes) : Renewed dir fetched [] fs where
  noLinks := hlinks
  there := hthere
  files := hempty.mono fun p bytes hno => absurd hno (hok p bytes)
  led p hp := by cases hp
  done p hp := by cases hp

theorem opens_free (h : Restore.opens fs p = some q) : fs q ≠ some .dir := by
  intro hdir
  unfold Restore.opens at h
  split at h
  case h_1 q' _ =>
      split at h
      case h_1 =>
          cases h
      case h_2 hnot =>
          cases h
          exact hnot hdir
  case h_2 =>
      cases h

end Trees

/-! ## Steps of a section -/

section Steps

variable {cwd stagingDir : List Char} {dir : List Seg} {ok : List Seg → β → Prop}
  {done : List (List Seg)} {s t : Gathering β} {op : Op β} {r : Option (Res op)}

/-- The directory before it is emptied. -/
def IsOld (dir : List Seg) (ok : List Seg → β → Prop) (s : Gathering β) : Prop :=
  NoLinks s.disk.fs [] ∧ FilesIn dir ok s.disk.fs

def IsRenewed (dir : List Seg) (done : List (List Seg)) (s : Gathering β) : Prop :=
  Renewed dir s.fetched done s.disk.fs

/-- Calls that only read leave a directory as it was, and so do calls apart from it. -/
def Beside (cwd : List Char) (dir : List Seg) (op : Op β) : Prop :=
  ∀ p, dir <+: p → Apart cwd p op

theorem gathers_same (hlinks : NoLinks s.disk.fs []) (hop : Beside cwd dir op)
    (h : gathers cwd stagingDir s op t r) :
    NoLinks t.disk.fs [] ∧ ∀ p, dir <+: p → t.disk.fs p = s.disk.fs p := by
  rcases h with ⟨o, hsettle, _⟩
  have heffect := Effect.of_settle hsettle
  exact ⟨heffect.noLinks hlinks, fun p hp => heffect.apart hlinks (hop p hp)⟩

theorem IsOld.beside (hs : IsOld dir ok s) (hop : Beside cwd dir op)
    (h : gathers cwd stagingDir s op t r) : IsOld dir ok t := by
  rcases gathers_same hs.1 hop h with ⟨hlinks, hsame⟩
  exact ⟨hlinks, fun p bytes hp hfile => hs.2 p bytes hp (by rw [← hsame p hp, hfile])⟩

theorem IsRenewed.beside (hs : IsRenewed dir done s) (hop : Beside cwd dir op)
    (h : gathers cwd stagingDir s op t r) : IsRenewed dir done t := by
  rcases gathers_same hs.noLinks hop h with ⟨hlinks, hsame⟩
  rcases h with ⟨o, _, hfetched, _⟩
  unfold IsRenewed
  rw [hfetched]
  exact (hs.of_same hlinks hsame).more _

/-- Calls in a directory that has been emptied: only `.partial` names are written and removed. -/
def Careful (cwd : List Char) (dir : List Seg) : Op β → Prop
  | .mkdir _ => True
  | .write path _ => IsPartial (place cwd path)
  | .unlink path => IsPartial (place cwd path) ∧ dir <+: place cwd path
  | op => op.reads = true

theorem IsRenewed.careful (hs : IsRenewed dir done s) (hop : Careful cwd dir op)
    (h : gathers cwd stagingDir s op t r) : IsRenewed dir done t := by
  rcases h with ⟨o, hsettle, hfetched, _⟩
  unfold IsRenewed
  rw [hfetched]
  refine Renewed.more ?_ _
  cases op with
  | mkdir path =>
      have heffect := Effect.of_settle hsettle
      generalize t.disk.fs = fs' at heffect
      cases heffect with
      | same =>
          exact hs
      | mkdirs _ =>
          exact hs.mkdirs _
  | write path body =>
      have heffect := Effect.of_settle hsettle
      generalize t.disk.fs = fs' at heffect
      cases heffect with
      | same =>
          exact hs
      | puts bytes hopens =>
          exact hs.put (opens_self hs.noLinks hopens ▸ hop) (opens_free hopens) bytes
  | unlink path =>
      cases o with
      | resolves =>
          simp only [Export.settle] at hsettle
          split at hsettle
          case h_1 bytes hfile =>
              simp only [Option.some.injEq, Prod.mk.injEq] at hsettle
              rw [← hsettle.1]
              exact hs.remove hop.1 hfile hop.2
          case h_2 =>
              cases hsettle
      | rejects message =>
          simp only [Export.settle, Option.some.injEq, Prod.mk.injEq] at hsettle
          rw [← hsettle.1]
          exact hs
      | _ =>
          cases hsettle
  | rm path =>
      cases hop
  | rename src dst =>
      cases hop
  | _ =>
      rw [settle_reads rfl hsettle]
      exact hs

theorem IsRenewed.perform (hs : IsRenewed dir done s) (hop : Careful cwd dir op) :
    Program.Ensures (gathers cwd stagingDir) (fun _ t => IsRenewed dir done t) (Program.perform op) s :=
  .perform (IsRenewed dir done) hs (fun _ _ ht hstep => ht.careful hop hstep)
    fun _ _ _ ht hstep => ht.careful hop hstep

end Steps

/-! ## Triples of a section -/

section Triples

variable {cwd stagingDir : List Char} {dir : List Seg} {ok : List Seg → β → Prop}
  {done : List (List Seg)}

/-- A file comes, for the place it is asked for. -/
theorem fetch_renewed (request : Request) {p : List Seg} (hp : destination cwd stagingDir request = some p) :
    Triple (gathers cwd stagingDir) (IsRenewed dir done) (fetch request : Async β (Response β))
      (fun res s => IsRenewed dir done s ∧
        ∀ body : β, res.ok = true → res.body = some body → (p, body) ∈ s.fetched) (IsRenewed dir done) := by
  intro s hs
  have hop : Careful cwd dir (.fetch request : Op β) := rfl
  refine .perform (IsRenewed dir done) hs (fun t t' ht hstep => ht.careful hop hstep) ?_
  intro t t' x ht hstep
  have hrenewed := ht.careful hop hstep
  rcases hstep with ⟨o, hsettle, hfetched, _⟩
  cases o with
  | responds res =>
      simp only [Export.settle, Option.some.injEq, Prod.mk.injEq] at hsettle
      rw [← hsettle.2]
      refine ⟨hrenewed, fun body hok hbody => ?_⟩
      have hcame : fileOf cwd stagingDir (.fetch request) (.responds res) = [(p, body)] := by
        simp [fileOf, hp, hok, hbody]
      rw [hfetched, hcame]
      simp
  | rejects message =>
      simp only [Export.settle, Option.some.injEq, Prod.mk.injEq] at hsettle
      rw [← hsettle.2]
      exact hrenewed
  | _ =>
      cases hsettle

/-- What a writer needs: the file has come, and the directory it goes to is there. -/
def Comes (dir : List Seg) (done : List (List Seg)) (p : List Seg) (body : β) (s : Gathering β) : Prop :=
  IsRenewed dir done s ∧ (p, body) ∈ s.fetched ∧ dir <+: p ∧ Led dir p s.disk.fs

/-- The file is whole under its other name. -/
def Ready (dir : List Seg) (done : List (List Seg)) (p q : List Seg) (body : β) (s : Gathering β) : Prop :=
  Comes dir done p body s ∧ s.disk.fs q = some (.file body)

theorem write_renewed {finalPath : List Char} (body : β) :
    Triple (gathers cwd stagingDir) (Comes dir done (place cwd finalPath) body)
      (write (finalPath ++ PARTIAL) body)
      (fun _ => Ready dir done (place cwd finalPath) (place cwd (finalPath ++ PARTIAL)) body)
      (IsRenewed dir done) := by
  intro s hs
  have hop : Careful cwd dir (.write (finalPath ++ PARTIAL) body) := isPartial_place cwd finalPath
  -- the way to the file stays as it is
  have hstep : ∀ t t' r, Comes dir done (place cwd finalPath) body t →
      gathers cwd stagingDir t (.write (finalPath ++ PARTIAL) body) t' r →
        Comes dir done (place cwd finalPath) body t' := by
    rintro t t' r ⟨ht, hbody, hdir, hled⟩ hgathers
    refine ⟨ht.careful hop hgathers, ?_, hdir, ?_⟩
    · rcases hgathers with ⟨o, _, hfetched, _⟩
      rw [hfetched]
      exact List.mem_append_left _ hbody
    · rcases hgathers with ⟨o, hsettle, _⟩
      have heffect := Effect.of_settle hsettle
      generalize t'.disk.fs = fs' at heffect
      cases heffect with
      | same =>
          exact hled
      | puts bytes hopens =>
          exact hled.put (opens_free hopens) _
  refine .perform (Comes dir done (place cwd finalPath) body) hs (fun t t' => hstep t t' none) ?_
  intro t t' x ht hgathers
  have hcomes := hstep t t' (some x) ht hgathers
  rcases hgathers with ⟨o, hsettle, _⟩
  rcases write_settles hsettle with ⟨q, rfl, hq, hfs⟩ | ⟨e, rfl, _⟩
  · refine ⟨hcomes, ?_⟩
    rw [hfs, opens_self ht.1.noLinks hq]
    simp [FileTree.put]
  · exact hcomes.1

theorem rename_renewed {finalPath : List Char} (body : β)
    (hbelow : dir <+: place cwd (finalPath ++ PARTIAL)) :
    Triple (gathers cwd stagingDir)
      (Ready dir done (place cwd finalPath) (place cwd (finalPath ++ PARTIAL)) body)
      (rename (finalPath ++ PARTIAL) finalPath)
      (fun _ => IsRenewed dir (done ++ [place cwd finalPath])) (IsRenewed dir done) := by
  intro s hs
  refine .perform (Ready dir done (place cwd finalPath) (place cwd (finalPath ++ PARTIAL)) body) hs ?_ ?_
  · rintro t t' _ ⟨o, hsettle, _⟩
    rcases rename_settles hsettle with ⟨fs, hr, _⟩ | ⟨e, hr, _⟩
    · cases hr
    · cases hr
  · rintro t t' x ⟨⟨ht, hbody, hdir, hled⟩, hfile⟩ ⟨o, hsettle, hfetched, _⟩
    rcases rename_settles hsettle with ⟨fs, hr, hfs, hdisk⟩ | ⟨e, hr, hdisk⟩
    · cases hr
      have hrenewed := Renewed.rename ht (isPartial_place cwd finalPath) hbelow hfile hbody hdir hled hfs
      have hnext : IsRenewed dir (done ++ [place cwd finalPath]) t' := by
        unfold IsRenewed
        rw [hfetched, hdisk]
        exact hrenewed.more _
      exact hnext
    · cases hr
      have hsame : IsRenewed dir done t' := by
        unfold IsRenewed
        rw [hfetched, hdisk]
        exact Renewed.more ht _
      exact hsame

theorem unlinkQuietly_renewed {path : List Char} (h : IsPartial (place cwd path))
    (hbelow : dir <+: place cwd path) {E : Gathering β → Prop} :
    Triple (gathers cwd stagingDir) (IsRenewed dir done) (unlinkQuietly path : Async β Unit)
      (fun _ => IsRenewed dir done) E :=
  .catches (.of_ensures fun _ hs => hs.perform ⟨h, hbelow⟩) fun _ => .returns fun _ hs => hs

theorem atomicWrite_renewed (c : Codec β) (body : β) {finalPath : List Char}
    (hbelow : dir <+: place cwd (finalPath ++ PARTIAL)) :
    Triple (gathers cwd stagingDir) (Comes dir done (place cwd finalPath) body)
      (atomicWrite c body finalPath)
      (fun _ => IsRenewed dir (done ++ [place cwd finalPath])) (IsRenewed dir done) := by
  refine .catches (H := IsRenewed dir done) ?_ fun err => ?_
  · refine .andThen (write_renewed body) fun _ => ?_
    exact .andThen (rename_renewed body hbelow) fun _ => .returns fun _ hs => hs
  · refine .andThen (unlinkQuietly_renewed (isPartial_place cwd finalPath) hbelow) fun _ => ?_
    exact .throws fun _ hs => hs

/-! ### The files of a directory -/

/-- The files that are counted are done, and they are files of entries of the list that came, each of
another entry. -/
def Counted (cwd stagingDir : List Char) (d : Directory) (count : ℕ) (s : Gathering β) : Prop :=
  ∃ body raws done, (d.request, body) ∈ s.answers ∧ d.list body = some raws ∧
    done.Sublist (raws.filterMap (d.placeOf cwd stagingDir)) ∧ done.length = count ∧
    IsRenewed (d.root cwd stagingDir) done s

/-- The loop over the entries of a list. -/
theorem exportEntries_renewed {ε : Type} {parse : Json → Option ε} {fetchFile : ε → Async β ℕ}
    {placeOf : Json → Option (List Seg)} {final : ε → List Seg}
    (hplace : ∀ raw entry, parse raw = some entry → placeOf raw = some (final entry))
    (hfetch : ∀ raw entry, parse raw = some entry → ∀ done, Triple (gathers cwd stagingDir)
      (IsRenewed dir done) (fetchFile entry) (fun _ s => IsRenewed dir (done ++ [final entry]) s)
      (IsRenewed dir done)) (raws : List Json) {E : Gathering β → Prop} :
    Triple (gathers cwd stagingDir) (IsRenewed dir []) (exportEntries parse fetchFile raws)
      (fun counts s => ∃ done, (done.Sublist (raws.filterMap placeOf) ∧ done.length = counts.count) ∧
        IsRenewed dir done s) E := by
  refine .consequence (.foldlM_done (I := fun before (counts : Counts) s =>
    ∃ done, (done.Sublist (before.filterMap placeOf) ∧ done.length = counts.count) ∧
      IsRenewed dir done s) (fun before raw after counts _ => ?_) {})
    (fun s hs => ⟨[], ⟨List.Sublist.refl _, rfl⟩, hs⟩) (fun _ _ hs => hs) fun _ hs => hs
  have hmore : ∀ {done : List (List Seg)}, done.Sublist (before.filterMap placeOf) →
      done.Sublist ((before ++ [raw]).filterMap placeOf) := by
    intro done hdone
    rw [List.filterMap_append]
    exact hdone.trans (List.sublist_append_left _ _)
  split
  case h_1 =>
      refine .returns fun s hs => ?_
      rcases hs with ⟨done, ⟨hsub, hlength⟩, hs⟩
      exact ⟨done, ⟨hmore hsub, hlength⟩, hs⟩
  case h_2 entry hparse =>
      refine .of_exists fun done => .of_fact fun ⟨hsub, hlength⟩ => ?_
      -- an entry that fails is not counted, and nothing of it is done
      refine .catches (.andThen (hfetch raw entry hparse done) fun bytes => .returns fun s hs => ?_)
        fun _ => .returns fun s hs => ⟨done, ⟨hmore hsub, hlength⟩, hs⟩
      refine ⟨done ++ [final entry], ⟨?_, by simp [hlength]⟩, hs⟩
      rw [List.filterMap_append, List.filterMap_cons_some (hplace raw entry hparse)]
      exact hsub.append (List.Sublist.refl _)

theorem fetchDashboardFile_renewed (c : Codec β) {entry : DashboardEntry} (hname : Name entry.name) :
    Triple (gathers cwd stagingDir)
      (IsRenewed (place cwd (join [stagingDir, "dashboards".toList])) done)
      (fetchDashboardFile c entry (join [stagingDir, "dashboards".toList]))
      (fun _ => IsRenewed (place cwd (join [stagingDir, "dashboards".toList]))
        (done ++ [place cwd (join [join [stagingDir, "dashboards".toList], entry.name])]))
      (IsRenewed (place cwd (join [stagingDir, "dashboards".toList])) done) := by
  have hfinal : place cwd (join [join [stagingDir, "dashboards".toList], entry.name]) =
      place cwd (join [stagingDir, "dashboards".toList]) ++ [entry.name] := place_join_name _ hname
  have hsuffix := place_join_suffix cwd (join [stagingDir, "dashboards".toList]) hname
    (w := PARTIAL) (by decide) (by decide)
  refine .andThen (fetch_renewed (.dashboard entry.name) rfl) fun res => ?_
  split
  case h_1 body hok hbody =>
      refine .consequence (atomicWrite_renewed c body (hsuffix ▸ List.prefix_append _ _)) (fun s hs => ?_)
        (fun _ s hs => hs) fun _ hs => hs
      refine ⟨hs.1, hs.2 body hok hbody, hfinal ▸ List.prefix_append _ _, fun x hx hxp hne => ?_⟩
      -- nothing but the directory itself is on the way
      rw [hfinal] at hxp hne
      rcases List.prefix_concat_iff.1 hxp with heq | hup
      · exact absurd heq hne
      · rw [hup.eq_of_length (Nat.le_antisymm hup.length_le hx.length_le)]
        exact hs.1.there
  case h_2 =>
      exact .throws fun s hs => hs.1

/-- Behind `mkdir` every directory on the way is there. -/
theorem mkdirs_dir {fs : FileTree Seg β} {q x : List Seg} (hlinks : NoLinks fs [])
    (hmakes : Restore.makes fs q = true) (hx : x <+: q) : fs.mkdirs q x = some .dir := by
  have hway := List.all_eq_true.1 hmakes x.length (by
    have hle := hx.length_le
    simp only [List.mem_range]
    omega)
  rw [← List.prefix_iff_eq_take.1 hx] at hway
  simp only [FileTree.mkdirs, hx, true_and]
  cases hnode : fs x with
  | none =>
      rfl
  | some node =>
      cases node with
      | dir =>
          rfl
      | file bytes =>
          rw [hnode] at hway
          cases hway
      | link dest =>
          exact absurd hnode (hlinks x List.nil_prefix dest)

/-- The directories of a file are made. -/
theorem mkdir_comes {path : List Char} {p : List Seg} {body : β} (hpath : place cwd path = p.dropLast)
    (hp : dir <+: p) : Triple (gathers cwd stagingDir)
      (fun s => IsRenewed dir done s ∧ (p, body) ∈ s.fetched) (mkdir path)
      (fun _ => Comes dir done p body) (IsRenewed dir done) := by
  intro s hs
  have hstep : ∀ t t' r, IsRenewed dir done t ∧ (p, body) ∈ t.fetched →
      gathers cwd stagingDir t (.mkdir path) t' r → IsRenewed dir done t' ∧ (p, body) ∈ t'.fetched := by
    rintro t t' r ⟨ht, hbody⟩ hgathers
    have hop : Careful cwd dir (.mkdir path : Op β) := trivial
    refine ⟨ht.careful hop hgathers, ?_⟩
    rcases hgathers with ⟨o, _, hfetched, _⟩
    rw [hfetched]
    exact List.mem_append_left _ hbody
  refine .perform (fun s => IsRenewed dir done s ∧ (p, body) ∈ s.fetched) hs
    (fun t t' => hstep t t' none) fun t t' x ht hgathers => ?_
  have hnext := hstep t t' (some x) ht hgathers
  rcases hgathers with ⟨o, hsettle, _⟩
  rcases mkdir_settles hsettle with ⟨rfl, hmakes, hfs⟩ | ⟨e, rfl, _⟩
  · refine ⟨hnext.1, hnext.2, hp, fun x hx hxp hne => ?_⟩
    rw [hfs]
    refine mkdirs_dir ht.1.noLinks hmakes ?_
    -- what is on the way to the file is on the way to its directory
    rw [hpath]
    rcases List.eq_nil_or_concat p with rfl | ⟨init, name, rfl⟩
    · exact absurd (List.prefix_nil.1 hxp) hne
    · rw [List.concat_eq_append] at hxp hne ⊢
      rw [List.dropLast_concat]
      exact (List.prefix_concat_iff.1 hxp).resolve_left hne
  · exact hnext.1

/-- Where a provisioning file goes to: below the directory, whose part above it is made first. -/
theorem provisioning_below (cwd stagingDir : List Char) {entry : ProvisioningEntry}
    (haccepted : (Request.provisioningFile entry.relPath).accepted = true) :
    Below cwd (place cwd (join [stagingDir, "provisioning".toList]))
        (join [join [stagingDir, "provisioning".toList], entry.relPath]) ∧
      place cwd (dirname (join [join [stagingDir, "provisioning".toList], entry.relPath])) =
        (place cwd (join [join [stagingDir, "provisioning".toList], entry.relPath])).dropLast := by
  rcases names_of_accepted haccepted with ⟨hup, hne, hnames⟩
  have hfilled : entry.relPath ≠ [] := by
    intro hnil
    rw [hnil] at hne
    exact hne rfl
  rcases List.eq_nil_or_concat (namesIn entry.relPath) with hnil | ⟨init, name, hlast⟩
  · exact absurd hnil hne
  rw [List.concat_eq_append] at hlast
  have hfinal : place cwd (join [join [stagingDir, "provisioning".toList], entry.relPath]) =
      place cwd (join [stagingDir, "provisioning".toList]) ++ (init ++ [name]) := by
    rw [place_join (join_ne_nil _) hfilled hup, hlast]
  have hbase := basename_join (join_ne_nil [stagingDir, "provisioning".toList]) hfilled hup hlast
  exact ⟨.of_append _ (by simp) hfinal, place_dirname (hbase.symm ▸ hnames name (by simp [hlast]))⟩

theorem fetchProvisioningFile_renewed (c : Codec β) {entry : ProvisioningEntry}
    (haccepted : (Request.provisioningFile entry.relPath).accepted = true) :
    Triple (gathers cwd stagingDir)
      (IsRenewed (place cwd (join [stagingDir, "provisioning".toList])) done)
      (fetchProvisioningFile c entry (join [stagingDir, "provisioning".toList]))
      (fun _ => IsRenewed (place cwd (join [stagingDir, "provisioning".toList]))
        (done ++ [place cwd (join [join [stagingDir, "provisioning".toList], entry.relPath])]))
      (IsRenewed (place cwd (join [stagingDir, "provisioning".toList])) done) := by
  rcases provisioning_below cwd stagingDir haccepted with ⟨hbelow, hdir⟩
  refine .andThen (fetch_renewed (.provisioningFile entry.relPath) rfl) fun res => ?_
  split
  case h_1 body hok hbody =>
      refine .andThen (M := fun _ => Comes (place cwd (join [stagingDir, "provisioning".toList])) done
        (place cwd (join [join [stagingDir, "provisioning".toList], entry.relPath])) body) ?_ fun _ => ?_
      · exact (mkdir_comes hdir hbelow.1).consequence (fun s hs => ⟨hs.1, hs.2 body hok hbody⟩)
          (fun _ _ hs => hs) fun _ hs => hs
      · exact (atomicWrite_renewed c body hbelow.partialPath).consequence (fun _ hs => hs)
          (fun _ s hs => hs) fun _ hs => hs
  case h_2 =>
      exact .throws fun s hs => hs.1

/-! ### A section -/

theorem IsOld.mono {ok' : List Seg → β → Prop} {s : Gathering β} (h : IsOld dir ok s)
    (himp : ∀ p bytes, ok p bytes → ok' p bytes) : IsOld dir ok' s :=
  ⟨h.1, h.2.mono himp⟩

theorem IsOld.mkdir {s t : Gathering β} {path : List Char} {r : Option (Res (.mkdir path : Op β))}
    (hs : IsOld dir ok s) (h : gathers cwd stagingDir s (.mkdir path) t r) : IsOld dir ok t := by
  rcases h with ⟨o, hsettle, _⟩
  have heffect := Effect.of_settle hsettle
  unfold IsOld
  generalize t.disk.fs = fs' at heffect
  cases heffect with
  | same =>
      exact hs
  | mkdirs _ =>
      exact ⟨hs.1.mkdirs _, hs.2.mkdirs _⟩

theorem IsOld.rm {s t : Gathering β} {path : List Char} {r : Option (Res (.rm path : Op β))}
    (hs : IsOld dir ok s) (h : gathers cwd stagingDir s (.rm path) t r) : IsOld dir ok t := by
  rcases h with ⟨o, hsettle, _⟩
  have heffect := Effect.of_settle hsettle
  unfold IsOld
  generalize t.disk.fs = fs' at heffect
  cases heffect with
  | same =>
      exact hs
  | rm _ =>
      exact ⟨hs.1.remove _, hs.2.remove _⟩

/-- Once the directory has been emptied nothing in it is old. -/
theorem resetStagingDir_renewed {path : List Char} (hpath : place cwd path = dir) :
    Triple (gathers cwd stagingDir) (IsOld dir ok) (resetStagingDir path)
      (fun _ => IsRenewed dir []) (IsOld dir ok) := by
  refine .andThen (M := fun _ => IsOld dir fun _ _ => False) (fun s hs => ?_) fun _ s hs => ?_
  · refine .perform (IsOld dir ok) hs (fun _ _ ht hstep => ht.rm hstep) fun t t' x ht hstep => ?_
    have hold := ht.rm hstep
    rcases hstep with ⟨o, hsettle, _⟩
    rcases rm_settles hsettle with ⟨rfl, hfs⟩ | ⟨e, rfl, _⟩
    · refine ⟨hold.1, ?_⟩
      rw [hfs, hpath]
      exact filesIn_empty _
    · exact hold
  · refine .perform (IsOld dir fun _ _ => False) hs (fun _ _ ht hstep => ht.mkdir hstep)
      fun t t' x ht hstep => ?_
    have hempty := ht.mkdir hstep
    rcases hstep with ⟨o, hsettle, _⟩
    rcases mkdir_settles hsettle with ⟨rfl, hmakes, hfs⟩ | ⟨e, rfl, _⟩
    · refine renewed_empty hempty.1 hempty.2 ?_ fun _ _ => id
      rw [hfs, hpath]
      exact mkdirs_dir ht.1 (hpath ▸ hmakes) (List.prefix_refl _)
    · exact hempty.mono fun _ _ hno => hno.elim

theorem quiet_beside {I : Gathering β → Prop} (h : ∀ op : Op β, Beside cwd dir op → ∀ s t r, I s →
    gathers cwd stagingDir s op t r → I t) : Quiet (gathers cwd stagingDir) I := by
  intro op hop s t r hs hstep
  refine h op (fun p _ => apart_of_disjoint fun path hmem => ?_) s t r hs hstep
  rw [hop] at hmem
  cases hmem

theorem quiet_old : Quiet (gathers cwd stagingDir) (IsOld (β := β) dir ok) :=
  quiet_beside fun _ hop _ _ _ hs hstep => hs.beside hop hstep

theorem fetch_asks (request : Request) :
    Triple (gathers cwd stagingDir) (IsOld dir ok) (fetch request : Async β (Response β))
      (fun _ s => s.asking = some request ∧ IsOld dir ok s) (IsOld dir ok) := by
  intro s hs
  refine .perform (IsOld dir ok) hs (fun t t' ht hstep => quiet_old _ rfl t t' none ht hstep) ?_
  intro t t' x ht hstep
  have hold := quiet_old _ rfl t t' (some x) ht hstep
  rcases hstep with ⟨o, hsettle, _, _, _, hasking, _⟩
  cases o with
  | responds res =>
      simp only [Export.settle, Option.some.injEq, Prod.mk.injEq] at hsettle
      rw [← hsettle.2]
      exact ⟨hasking, hold⟩
  | rejects message =>
      simp only [Export.settle, Option.some.injEq, Prod.mk.injEq] at hsettle
      rw [← hsettle.2]
      exact hold
  | _ =>
      cases hsettle

theorem json_answers (request : Request) :
    Triple (gathers cwd stagingDir) (fun s => s.asking = some request ∧ IsOld dir ok s)
      (json : Async β Json) (fun body s => (request, body) ∈ s.answers ∧ IsOld dir ok s)
      (IsOld dir ok) := by
  intro s hs
  have hpending : ∀ t t' : Gathering β, t.asking = some request ∧ IsOld dir ok t →
      gathers cwd stagingDir t (.json : Op β) t' none → t'.asking = some request ∧ IsOld dir ok t' := by
    rintro t t' ⟨hasking, ht⟩ hstep
    have hold := quiet_old _ rfl t t' none ht hstep
    rcases hstep with ⟨o, _, _, _, _, hnext, _⟩
    exact ⟨hnext.trans hasking, hold⟩
  refine .perform (fun s => s.asking = some request ∧ IsOld dir ok s) hs hpending ?_
  rintro t t' x ⟨hasking, ht⟩ hstep
  have hold := quiet_old _ rfl t t' (some x) ht hstep
  rcases hstep with ⟨o, hsettle, _, _, _, _, hanswers⟩
  cases o with
  | parses body =>
      simp only [Export.settle, Option.some.injEq, Prod.mk.injEq] at hsettle
      rw [← hsettle.2]
      refine ⟨?_, hold⟩
      rw [hanswers, hasking]
      exact List.mem_append_right _ (List.mem_singleton.2 rfl)
  | rejects message =>
      simp only [Export.settle, Option.some.injEq, Prod.mk.injEq] at hsettle
      rw [← hsettle.2]
      exact hold
  | _ =>
      cases hsettle

/-- The list comes, is read, and its files are fetched into the emptied directory. -/
theorem exportList_counted {d : Directory} {ε : Type} {parse : Json → Option ε}
    {fetchFile : ε → Async β ℕ} {final : ε → List Seg} {name missing : String}
    {failed : Response β → String}
    (hlist : ∀ body items, body.field name = some (.array items) → d.list body = some items)
    (hplace : ∀ raw entry, parse raw = some entry → d.placeOf cwd stagingDir raw = some (final entry))
    (hfetch : ∀ raw entry, parse raw = some entry → ∀ done, Triple (gathers cwd stagingDir)
      (IsRenewed (d.root cwd stagingDir) done) (fetchFile entry)
      (fun _ => IsRenewed (d.root cwd stagingDir) (done ++ [final entry]))
      (IsRenewed (d.root cwd stagingDir) done)) :
    Triple (gathers cwd stagingDir) (IsOld (d.root cwd stagingDir) ok)
      (do
        let res ← fetch d.request
        if !res.ok then
          throw (failed res)
        else
          let body ← json
          let raws ← arrayField body name missing
          resetStagingDir (join [stagingDir, d.table])
          exportEntries parse fetchFile raws)
      (fun counts => Counted cwd stagingDir d counts.count) (IsOld (d.root cwd stagingDir) ok) := by
  refine .andThen (fetch_asks d.request) fun res => ?_
  split
  · exact .throws fun _ hs => hs.2
  · refine .andThen (json_answers d.request) fun body => ?_
    refine .andThen (M := fun raws s => d.list body = some raws ∧ (d.request, body) ∈ s.answers ∧
      IsOld (d.root cwd stagingDir) ok s) ?_ fun raws => .of_fact fun hraws => ?_
    · unfold arrayField
      split
      case h_1 items hfield =>
          exact .returns fun _ hs => ⟨hlist body items hfield, hs⟩
      case h_2 =>
          exact .throws fun _ hs => hs.2
    · -- the list stays the one that came
      refine .consequence (.frame (answers_kept (x := (d.request, body)))
        (.andThen (resetStagingDir_renewed rfl) fun _ => exportEntries_renewed hplace hfetch raws))
        (fun _ hs => hs) ?_ fun _ hs => hs
      rintro counts s ⟨hanswer, done, ⟨hsub, hlength⟩, hs⟩
      exact ⟨body, raws, done, hanswer, hraws, hsub, hlength, hs⟩

theorem exportDashboards_counted (c : Codec β) :
    Triple (gathers cwd stagingDir) (IsOld (Directory.dashboards.root cwd stagingDir) ok)
      (exportDashboards c stagingDir)
      (fun counts => Counted cwd stagingDir .dashboards counts.count)
      (IsOld (Directory.dashboards.root cwd stagingDir) ok) := by
  refine exportList_counted (d := .dashboards) (fun body items h => ?_) (fun raw entry h => ?_)
    fun raw entry hparse done => fetchDashboardFile_renewed c (parseDashboardEntry_accepted hparse).2
  · simp only [Directory.list, h]
  · simp only [Directory.placeOf, h, Option.bind_some]
    rfl

theorem exportProvisioning_counted (c : Codec β) :
    Triple (gathers cwd stagingDir) (IsOld (Directory.provisioning.root cwd stagingDir) ok)
      (exportProvisioning c stagingDir)
      (fun counts => Counted cwd stagingDir .provisioning counts.count)
      (IsOld (Directory.provisioning.root cwd stagingDir) ok) := by
  refine exportList_counted (d := .provisioning) (fun body items h => ?_) (fun raw entry h => ?_)
    fun raw entry hparse done => fetchProvisioningFile_renewed c (parseProvisioningEntry_accepted hparse)
  · simp only [Directory.list, h]
  · simp only [Directory.placeOf, h, Option.bind_some]
    rfl

end Triples

/-! ## The files of a directory and the entries of its list -/

def holdsFile (fs : FileTree Seg β) (p : List Seg) : Bool :=
  match fs p with
  | some (.file _) => true
  | _ => false

theorem placeOf_below {cwd stagingDir : List Char} {d : Directory} {raw : Json} {p : List Seg}
    (h : d.placeOf cwd stagingDir raw = some p) : d.root cwd stagingDir <+: p := by
  cases d with
  | dashboards =>
      rcases Option.bind_eq_some_iff.1 h with ⟨entry, hparse, hplace⟩
      cases hplace
      have hname := (parseDashboardEntry_accepted hparse).2
      exact place_join_name (join [stagingDir, "dashboards".toList]) hname ▸ List.prefix_append _ _
  | provisioning =>
      rcases Option.bind_eq_some_iff.1 h with ⟨entry, hparse, hplace⟩
      cases hplace
      exact (provisioning_below cwd stagingDir (parseProvisioningEntry_accepted hparse)).1.1

/-- Where no two entries are for one place, the files that are done are the entries whose file is
there. -/
theorem Renewed.count {dir : List Seg} {fetched : List (List Seg × β)} {done places : List (List Seg)}
    {fs : FileTree Seg β} (h : Renewed dir fetched done fs) (hsub : done.Sublist places)
    (hbelow : ∀ p ∈ places, dir <+: p) (hnodup : places.Nodup) (hwhole : ∀ p ∈ places, ¬IsPartial p) :
    done.length = places.countP (holdsFile fs) := by
  have hiff : ∀ p ∈ places, (holdsFile fs p = true ↔ p ∈ done) := by
    intro p hp
    unfold holdsFile
    constructor
    · intro hfile
      split at hfile
      case h_1 bytes hnode =>
          exact ((h.files p bytes (hbelow p hp) hnode).resolve_left (hwhole p hp)).2
      case h_2 =>
          cases hfile
    · intro hdone
      rcases h.done p hdone (hwhole p hp) with ⟨bytes, hnode⟩
      rw [hnode]
  have hperm : done.Perm (places.filter (holdsFile fs)) := by
    refine (List.perm_ext_iff_of_nodup (hsub.nodup hnodup) (hnodup.filter _)).2 fun p => ?_
    rw [List.mem_filter]
    constructor
    · intro hdone
      exact ⟨hsub.mem hdone, (hiff p (hsub.mem hdone)).2 hdone⟩
    · rintro ⟨hp, hfile⟩
      exact (hiff p hp).1 hfile
  rw [List.countP_eq_length_filter]
  exact hperm.length_eq

end Export
end SignalKBackup
