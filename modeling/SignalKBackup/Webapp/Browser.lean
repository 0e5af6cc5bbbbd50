import Mathlib.Data.List.Nodup
import Mathlib.Logic.Function.Basic
import SignalKBackup.Lib.Machine
import SignalKBackup.Webapp.Exclusions

/-!
# Browser — the tree of a backup, folder by folder

`BackupBrowser` asks the server for the entries of a folder when the user opens it, and keeps them
in a cache by path.  The answers come in any order; one that belongs to a backup or a root that is
no longer shown is dropped by its generation.  React runs the effects of a change before the user
can do anything else, so a change of the props is one step with them.

* `Sound` is the invariant of the cache, the calls under way and the restore dialog.
* `reachable_honest`: whatever is shown or offered for a restore was listed by the server for the
  backup that is open now, and a folder is loading just when one call for it is under way.

The cache is an object, so `cache[path]` is also defined for the keys of `Object.prototype`; a
folder of such a name is never asked for.
-/

namespace SignalKBackup
namespace Webapp

open Lib

/-! ## The component -/

structure BackupTreeEntry where
  name : String
  size : String
  mtime : String
  isDir : Bool
  objectId : String
  deriving DecidableEq

structure FolderState where
  entries : Option (List BackupTreeEntry)
  error : Option String
  errorCode : Option String

def FolderState.loading : FolderState where
  entries := none
  error := none
  errorCode := none

def joinPath (folder name : String) : String :=
  if folder = "" then name else folder ++ "/" ++ name

/-- A call of `listBackupTree` under way. -/
structure TreeCall where
  generation : ℕ
  backupId : String
  folder : String
  deriving DecidableEq

/-- What the server has answered. -/
structure TreeListing where
  backupId : String
  folder : String
  entries : List BackupTreeEntry

structure BrowserProps where
  backupId : String
  isOpen : Bool
  initialPath : Option String
  restoreLocked : Bool

structure Browser where
  backupId : String
  isOpen : Bool
  rootPath : String
  restoreLocked : Bool
  /-- The own properties of `cache`. -/
  cache : String → Option FolderState := fun _ => none
  expanded : List String
  restoreTarget : Option (BackupTreeEntry × String) := none
  requestGen : ℕ := 0
  calls : List TreeCall := []
  /-- Every listing that the server has answered; nothing reads it. -/
  answers : List TreeListing := []

/-- `path.replace(/^\/+|\/+$/g, '')` -/
def stripSlashes (path : String) : String :=
  String.ofList ((((path.toList.dropWhile (· = '/')).reverse.dropWhile (· = '/')).reverse))

namespace Browser

/-- `cache[path] !== undefined` -/
def known (s : Browser) (path : String) : Bool :=
  (s.cache path).isSome || INHERITED.contains path

/-- `loadFolder`, up to its await. -/
def loadFolder (s : Browser) (path : String) : Browser :=
  { s with
    cache := Function.update s.cache path (some .loading)
    calls := s.calls ++ [{ generation := s.requestGen, backupId := s.backupId, folder := path }] }

/-- The first effect, while the browser is open. -/
def reset (s : Browser) : Browser :=
  { s with
    requestGen := s.requestGen + 1
    cache := fun _ => none
    expanded := [s.rootPath]
    restoreTarget := none }

/-- The second effect. -/
def loadRoot (s : Browser) : Browser :=
  if s.isOpen && !s.known s.rootPath then s.loadFolder s.rootPath else s

/-- New props, and the effects they cause. -/
def render (s : Browser) (props : BrowserProps) : Browser :=
  let rootPath := stripSlashes (props.initialPath.getD "")
  let changed := s.isOpen != props.isOpen || s.backupId != props.backupId || s.rootPath != rootPath
  let s :=
    { s with
      backupId := props.backupId, isOpen := props.isOpen, rootPath
      restoreLocked := props.restoreLocked }
  (if changed && s.isOpen then s.reset else s).loadRoot

/-- The component before its first effects. -/
def unmounted (props : BrowserProps) : Browser where
  backupId := props.backupId
  isOpen := false
  rootPath := stripSlashes (props.initialPath.getD "")
  restoreLocked := props.restoreLocked
  expanded := [stripSlashes (props.initialPath.getD "")]

def mount (props : BrowserProps) : Browser :=
  (unmounted props).render props

/-- `setCache` with what a call came out with. -/
def settled (res : Except (String × Option String) (List BackupTreeEntry)) : FolderState :=
  match res with
  | .ok entries => { entries := some entries, error := none, errorCode := none }
  | .error (message, code) => { entries := none, error := some message, errorCode := code }

/-- The entries that the node of a folder shows. -/
def shown (s : Browser) (folder : String) : List BackupTreeEntry :=
  match s.cache folder with
  | some { entries := some entries, .. } => entries
  | _ => []

/-- From the root down to a folder, through expanded directories. -/
def folderAt (s : Browser) : String → List BackupTreeEntry → Option String
  | folder, [] => some folder
  | folder, e :: way =>
      if e ∈ s.shown folder ∧ e.isDir = true ∧ joinPath folder e.name ∈ s.expanded then
        s.folderAt (joinPath folder e.name) way
      else none

/-- `isScopedRootMissing` -/
def scopedRootMissing (s : Browser) (f : FolderState) (way : List BackupTreeEntry) : Bool :=
  f.errorCode == some "ENTRY_NOT_FOUND" && way.isEmpty && s.rootPath != ""

/-- The user can reach the tree: no dialog is over it. -/
def active (s : Browser) : Bool :=
  s.isOpen && s.restoreTarget.isNone

end Browser

/-- `way` leads from the root to a folder that is shown. -/
inductive BrowserEvent
  | renders (props : BrowserProps)
  /-- The call at this position comes out. -/
  | answers (k : ℕ) (res : Except (String × Option String) (List BackupTreeEntry))
  | toggle (way : List BackupTreeEntry) (e : BackupTreeEntry)
  | retry (way : List BackupTreeEntry)
  | restore (way : List BackupTreeEntry) (e : BackupTreeEntry)
  /-- The restore dialog is closed, or its request is accepted. -/
  | leaves

namespace Browser

def answered (s : Browser) (k : ℕ) (call : TreeCall)
    (res : Except (String × Option String) (List BackupTreeEntry)) : Browser :=
  let s :=
    { s with
      calls := s.calls.eraseIdx k
      answers := s.answers ++
        (res.toOption.map fun entries =>
          { backupId := call.backupId, folder := call.folder, entries }).toList }
  if call.generation = s.requestGen then
    { s with cache := Function.update s.cache call.folder (some (settled res)) }
  else s

def toggleFolder (s : Browser) (folderPath : String) : Browser :=
  if folderPath ∈ s.expanded then { s with expanded := s.expanded.filter (· ≠ folderPath) }
  else
    let s := { s with expanded := s.expanded ++ [folderPath] }
    if s.known folderPath then s else s.loadFolder folderPath

def step (s : Browser) : BrowserEvent → Option Browser
  | .renders props => some (s.render props)
  | .answers k res => s.calls[k]?.map fun call => s.answered k call res
  | .toggle way e =>
      (s.folderAt s.rootPath way).bind fun folder =>
        if s.active = true ∧ e ∈ s.shown folder ∧ e.isDir = true then
          some (s.toggleFolder (joinPath folder e.name))
        else none
  | .retry way =>
      (s.folderAt s.rootPath way).bind fun folder => (s.cache folder).bind fun f =>
        if s.active = true ∧ f.error.any (· ≠ "") ∧ s.scopedRootMissing f way = false then
          some (s.loadFolder folder)
        else none
  | .restore way e =>
      (s.folderAt s.rootPath way).bind fun folder =>
        if s.active = true ∧ e ∈ s.shown folder ∧ s.restoreLocked = false then
          some { s with restoreTarget := some (e, joinPath folder e.name) }
        else none
  | .leaves => if s.restoreTarget.isSome then some { s with restoreTarget := none } else none

end Browser

def browser : Machine Browser BrowserEvent where
  step := Browser.step

def Mounted (s : Browser) : Prop :=
  ∃ props, s = Browser.mount props

/-! ## What the server has listed -/

/-- A folder of the backup, on a way of directories from the root that the server has listed. -/
inductive Reaches (answers : List TreeListing) (backupId root : String) : String → Prop
  | root : Reaches answers backupId root root
  | child {folder : String} {entries : List BackupTreeEntry} {e : BackupTreeEntry} :
      Reaches answers backupId root folder → { backupId, folder, entries } ∈ answers → e ∈ entries →
        e.isDir = true → Reaches answers backupId root (joinPath folder e.name)

theorem Reaches.mono {answers answers' : List TreeListing} {backupId root folder : String}
    (h : Reaches answers backupId root folder) (hsub : ∀ l ∈ answers, l ∈ answers') :
    Reaches answers' backupId root folder := by
  induction h with
  | root =>
      exact .root
  | child _ hlisted he hdir ih =>
      exact .child ih (hsub _ hlisted) he hdir

/-! ## The invariant -/

structure Browser.Sound (s : Browser) : Prop where
  gens : ∀ call ∈ s.calls, call.generation ≤ s.requestGen
  /-- A call of this generation is for the backup, and for a folder that is loading. -/
  current : s.isOpen = true → ∀ call ∈ s.calls, call.generation = s.requestGen →
    call.backupId = s.backupId ∧ s.cache call.folder = some .loading
  loading : s.isOpen = true → ∀ path, s.cache path = some .loading →
    ∃ call ∈ s.calls, call.generation = s.requestGen ∧ call.folder = path
  once : s.isOpen = true → s.calls.Pairwise fun a b =>
    a.generation = s.requestGen → b.generation = s.requestGen → a.folder ≠ b.folder
  listed : s.isOpen = true → ∀ path f entries, s.cache path = some f → f.entries = some entries →
    { backupId := s.backupId, folder := path, entries } ∈ s.answers
  reached : s.isOpen = true → ∀ path, (s.cache path).isSome = true →
    Reaches s.answers s.backupId s.rootPath path ∧ INHERITED.contains path = false
  target : s.isOpen = true → ∀ e path, s.restoreTarget = some (e, path) → ∃ folder entries,
    Reaches s.answers s.backupId s.rootPath folder ∧
      { backupId := s.backupId, folder, entries } ∈ s.answers ∧ e ∈ entries ∧
        path = joinPath folder e.name

/-- An open browser has asked for its root. -/
def Rooted (s : Browser) : Prop :=
  s.isOpen = true → s.known s.rootPath = true

section Steps

variable {s s' : Browser}

theorem known_eq_false {path : String} (h : s.known path = false) :
    s.cache path = none ∧ INHERITED.contains path = false := by
  unfold Browser.known at h
  rcases Bool.or_eq_false_iff.1 h with ⟨hcache, hown⟩
  exact ⟨by simpa using hcache, hown⟩

theorem loadFolder_self (s : Browser) (path : String) :
    (s.loadFolder path).cache path = some .loading :=
  Function.update_self _ _ _

theorem loadFolder_other {p path : String} (hne : p ≠ path) :
    (s.loadFolder path).cache p = s.cache p :=
  Function.update_of_ne hne _ _

/-- A folder that is not loading is asked for. -/
theorem sound_loadFolder (h : Browser.Sound s) {path : String} (hidle : s.cache path ≠ some .loading)
    (hreaches : Reaches s.answers s.backupId s.rootPath path)
    (hown : INHERITED.contains path = false) : Browser.Sound (s.loadFolder path) := by
  refine ⟨fun call hcall => ?_, fun hopen call hcall hgen => ?_, fun hopen p hp => ?_, fun hopen => ?_,
    fun hopen p f entries hp hentries => ?_, fun hopen p hp => ?_, h.target⟩
  · rcases List.mem_append.1 hcall with hold | hnew
    · exact h.gens call hold
    · cases List.mem_singleton.1 hnew
      exact le_rfl
  · rcases List.mem_append.1 hcall with hold | hnew
    · rcases h.current hopen call hold hgen with ⟨hbackup, hloading⟩
      refine ⟨hbackup, ?_⟩
      have hne : call.folder ≠ path := by
        rintro rfl
        exact hidle hloading
      exact (loadFolder_other hne).trans hloading
    · cases List.mem_singleton.1 hnew
      exact ⟨rfl, loadFolder_self s path⟩
  · rcases eq_or_ne p path with rfl | hne
    · exact ⟨_, List.mem_append_right _ List.mem_cons_self, rfl, rfl⟩
    · rw [loadFolder_other hne] at hp
      rcases h.loading hopen p hp with ⟨call, hcall, hrest⟩
      exact ⟨call, List.mem_append_left _ hcall, hrest⟩
  · refine List.pairwise_append.2 ⟨h.once hopen, List.pairwise_singleton _ _, ?_⟩
    intro a ha b hb hgen _ hfolder
    cases List.mem_singleton.1 hb
    have hloading := (h.current hopen a ha hgen).2
    rw [hfolder] at hloading
    exact hidle hloading
  · rcases eq_or_ne p path with rfl | hne
    · rw [loadFolder_self] at hp
      cases hp
      cases hentries
    · rw [loadFolder_other hne] at hp
      exact h.listed hopen p f entries hp hentries
  · rcases eq_or_ne p path with rfl | hne
    · exact ⟨hreaches, hown⟩
    · rw [loadFolder_other hne] at hp
      exact h.reached hopen p hp

theorem sound_reset (hgens : ∀ call ∈ s.calls, call.generation ≤ s.requestGen) :
    Browser.Sound s.reset := by
  -- every call under way is of an older generation
  have hold : ∀ call ∈ s.calls, call.generation ≠ s.requestGen + 1 := fun call hcall =>
    (Nat.lt_succ_of_le (hgens call hcall)).ne
  exact ⟨fun call hcall => (hgens call hcall).trans (Nat.le_succ _),
    fun _ call hcall hgen => absurd hgen (hold call hcall), nofun,
    fun _ => List.Pairwise.imp_of_mem (fun ha _ _ hgen => absurd hgen (hold _ ha))
      (List.pairwise_of_forall fun _ _ => trivial), nofun, nofun, nofun⟩

theorem sound_loadRoot (h : Browser.Sound s) : Browser.Sound s.loadRoot ∧ Rooted s.loadRoot := by
  unfold Browser.loadRoot
  split
  case isTrue hload =>
      simp only [Bool.and_eq_true, Bool.not_eq_true'] at hload
      rcases known_eq_false hload.2 with ⟨hnone, hown⟩
      refine ⟨sound_loadFolder h (by rw [hnone]; exact nofun) .root hown, fun _ => ?_⟩
      have hself : (s.loadFolder s.rootPath).cache (s.loadFolder s.rootPath).rootPath = some .loading :=
        loadFolder_self s s.rootPath
      simp [Browser.known, hself]
  case isFalse hnot =>
      refine ⟨h, fun hopen => ?_⟩
      simpa [hopen] using hnot

theorem sound_render (h : Browser.Sound s) (props : BrowserProps) :
    Browser.Sound (s.render props) ∧ Rooted (s.render props) := by
  unfold Browser.render
  refine sound_loadRoot ?_
  dsimp only
  split
  case isTrue hchanged =>
      exact sound_reset h.gens
  case isFalse hsame =>
      cases hopen : props.isOpen with
      | false =>
          exact ⟨h.gens, nofun, nofun, nofun, nofun, nofun, nofun⟩
      | true =>
          -- open as before, on the same backup and root
          rw [hopen] at hsame
          simp only [Bool.and_true, Bool.or_eq_true, bne_iff_ne, ne_eq, not_or, not_not] at hsame
          rcases hsame with ⟨⟨hwas, hbackup⟩, hroot⟩
          refine ⟨h.gens, fun _ call hcall hgen => ?_, fun _ => h.loading hwas, fun _ => h.once hwas,
            fun _ path f entries hp hentries => ?_, fun _ path hp => ?_, fun _ e path htarget => ?_⟩
          · exact hbackup ▸ h.current hwas call hcall hgen
          · exact hbackup ▸ h.listed hwas path f entries hp hentries
          · exact hbackup ▸ hroot ▸ h.reached hwas path hp
          · exact hbackup ▸ hroot ▸ h.target hwas e path htarget

theorem shown_listed (h : Browser.Sound s) (hopen : s.isOpen = true) {folder : String} {e : BackupTreeEntry}
    (he : e ∈ s.shown folder) :
    ∃ entries, { backupId := s.backupId, folder, entries } ∈ s.answers ∧ e ∈ entries := by
  unfold Browser.shown at he
  split at he
  case h_1 entries error code hcache =>
      exact ⟨entries, h.listed hopen folder _ entries hcache rfl, he⟩
  case h_2 =>
      cases he

theorem folderAt_reaches (h : Browser.Sound s) (hopen : s.isOpen = true) {way : List BackupTreeEntry}
    {top folder : String} (htop : Reaches s.answers s.backupId s.rootPath top)
    (hway : s.folderAt top way = some folder) :
    Reaches s.answers s.backupId s.rootPath folder := by
  induction way generalizing top with
  | nil =>
      cases hway
      exact htop
  | cons e way ih =>
      rw [Browser.folderAt] at hway
      split at hway
      case isTrue hshown =>
          rcases shown_listed h hopen hshown.1 with ⟨entries, hlisted, he⟩
          exact ih (.child htop hlisted he hshown.2.1) hway
      case isFalse =>
          cases hway

/-- The calls that are left are for other folders. -/
theorem apart_eraseIdx (h : Browser.Sound s) (hopen : s.isOpen = true) {k : ℕ} {call other : TreeCall}
    (hcall : s.calls[k]? = some call) (hgen : call.generation = s.requestGen)
    (hother : other ∈ s.calls.eraseIdx k) (hgen' : other.generation = s.requestGen) :
    other.folder ≠ call.folder := by
  rcases List.mem_eraseIdx_iff_getElem?.1 hother with ⟨i, hne, hi⟩
  rcases List.getElem?_eq_some_iff.1 hcall with ⟨hk, rfl⟩
  rcases List.getElem?_eq_some_iff.1 hi with ⟨hlen, rfl⟩
  have honce := List.pairwise_iff_getElem.1 (h.once hopen)
  rcases Nat.lt_or_gt_of_ne hne with hlt | hgt
  · exact honce i k hlen hk hlt hgen' hgen
  · exact (honce k i hk hlen hgt hgen hgen').symm

theorem mem_eraseIdx_of_ne {k : ℕ} {call other : TreeCall} (hcall : s.calls[k]? = some call)
    (hother : other ∈ s.calls) (hne : other ≠ call) : other ∈ s.calls.eraseIdx k := by
  rcases List.mem_iff_getElem?.1 hother with ⟨i, hi⟩
  refine List.mem_eraseIdx_iff_getElem?.2 ⟨i, ?_, hi⟩
  rintro rfl
  exact hne (Option.some.inj (hi.symm.trans hcall))

/-- Nothing is forgotten of what the server has answered. -/
theorem target_mono (h : Browser.Sound s) {answers : List TreeListing} (hsub : ∀ l ∈ s.answers, l ∈ answers)
    (hopen : s.isOpen = true) {e : BackupTreeEntry} {path : String}
    (htarget : s.restoreTarget = some (e, path)) : ∃ folder entries,
      Reaches answers s.backupId s.rootPath folder ∧
        { backupId := s.backupId, folder, entries } ∈ answers ∧ e ∈ entries ∧
          path = joinPath folder e.name := by
  rcases h.target hopen e path htarget with ⟨folder, entries, hreaches, hlisted, hrest⟩
  exact ⟨folder, entries, hreaches.mono hsub, hsub _ hlisted, hrest⟩

theorem sound_answered (h : Browser.Sound s) {k : ℕ} {call : TreeCall} (hcall : s.calls[k]? = some call)
    (res : Except (String × Option String) (List BackupTreeEntry)) :
    Browser.Sound (s.answered k call res) := by
  have hmem : ∀ c ∈ s.calls.eraseIdx k, c ∈ s.calls := fun c hc => List.mem_of_mem_eraseIdx hc
  have hsub : ∀ l ∈ s.answers, l ∈ s.answers ++ (res.toOption.map fun entries =>
      ({ backupId := call.backupId, folder := call.folder, entries } : TreeListing)).toList :=
    fun l hl => List.mem_append_left _ hl
  have honce := fun hopen : s.isOpen = true => (h.once hopen).sublist (List.eraseIdx_sublist _ k)
  unfold Browser.answered
  dsimp only
  split
  case isFalse hstale =>
      refine ⟨fun c hc => h.gens c (hmem c hc), fun hopen c hc => h.current hopen c (hmem c hc),
        fun hopen path hpath => ?_, honce,
        fun hopen path f entries hf hentries => hsub _ (h.listed hopen path f entries hf hentries),
        fun hopen path hpath => ?_, fun hopen e path htarget => target_mono h hsub hopen htarget⟩
      · rcases h.loading hopen path hpath with ⟨c, hc, hgen, hfolder⟩
        refine ⟨c, mem_eraseIdx_of_ne hcall hc ?_, hgen, hfolder⟩
        rintro rfl
        exact hstale hgen
      · exact ⟨(h.reached hopen path hpath).1.mono hsub, (h.reached hopen path hpath).2⟩
  case isTrue hgen =>
      have hwritten : Function.update s.cache call.folder (some (Browser.settled res)) call.folder =
          some (Browser.settled res) := Function.update_self _ _ _
      have hcurrent := fun hopen : s.isOpen = true =>
        h.current hopen call (List.mem_of_getElem? hcall) hgen
      refine ⟨fun c hc => h.gens c (hmem c hc), fun hopen c hc hgen' => ?_, fun hopen path hpath => ?_,
        honce, fun hopen path f entries hf hentries => ?_, fun hopen path hpath => ?_,
        fun hopen e path htarget => target_mono h hsub hopen htarget⟩
      · rcases h.current hopen c (hmem c hc) hgen' with ⟨hbackup, hloading⟩
        have hne := apart_eraseIdx h hopen hcall hgen hc hgen'
        exact ⟨hbackup, (Function.update_of_ne hne _ _).trans hloading⟩
      · rcases eq_or_ne path call.folder with rfl | hne
        · -- it has been answered
          have hself : some (Browser.settled res) = some FolderState.loading :=
            hwritten.symm.trans hpath
          cases res with
          | ok entries =>
              cases hself
          | error e =>
              cases hself
        · rcases h.loading hopen path ((Function.update_of_ne hne _ _).symm.trans hpath) with
            ⟨c, hc, hgen', hfolder⟩
          refine ⟨c, mem_eraseIdx_of_ne hcall hc ?_, hgen', hfolder⟩
          rintro rfl
          exact hne hfolder.symm
      · rcases eq_or_ne path call.folder with rfl | hne
        · cases hwritten.symm.trans hf
          cases res with
          | ok es =>
              cases hentries
              refine List.mem_append_right _ (List.mem_singleton.2 ?_)
              rw [(hcurrent hopen).1]
          | error e =>
              cases hentries
        · exact hsub _ (h.listed hopen path f entries ((Function.update_of_ne hne _ _).symm.trans hf)
            hentries)
      · rcases eq_or_ne path call.folder with rfl | hne
        · rcases h.reached hopen call.folder (by rw [(hcurrent hopen).2]; rfl) with ⟨hreaches, hown⟩
          exact ⟨hreaches.mono hsub, hown⟩
        · have hold : (s.cache path).isSome = true := by
            rw [← (Function.update_of_ne hne (some (Browser.settled res)) s.cache)]
            exact hpath
          exact ⟨(h.reached hopen path hold).1.mono hsub, (h.reached hopen path hold).2⟩

theorem rooted_of_known (h : Rooted s) (hroot : s'.rootPath = s.rootPath) (hopen : s'.isOpen = s.isOpen)
    (hknown : ∀ path, s.known path = true → s'.known path = true) : Rooted s' := by
  intro hyes
  rw [hroot]
  exact hknown _ (h (hopen ▸ hyes))

theorem known_loadFolder {path p : String} (h : s.known p = true) : (s.loadFolder path).known p = true := by
  unfold Browser.known at h ⊢
  rcases eq_or_ne p path with rfl | hne
  · rw [loadFolder_self]
    rfl
  · rwa [loadFolder_other hne]

theorem known_answered {k : ℕ} {call : TreeCall}
    {res : Except (String × Option String) (List BackupTreeEntry)} {p : String}
    (h : s.known p = true) : (s.answered k call res).known p = true := by
  unfold Browser.answered
  dsimp only
  split
  case isFalse =>
      exact h
  case isTrue =>
      unfold Browser.known at h ⊢
      rcases eq_or_ne p call.folder with rfl | hne
      · simp [Function.update_self]
      · simpa [Function.update_of_ne hne] using h

/-- A folder of the tree that is asked for. -/
theorem sound_toggle (h : Browser.Sound s) (hrooted : Rooted s) {folder : String} {e : BackupTreeEntry}
    (hopen : s.isOpen = true) (hreaches : Reaches s.answers s.backupId s.rootPath folder)
    (he : e ∈ s.shown folder) (hdir : e.isDir = true) :
    Browser.Sound (s.toggleFolder (joinPath folder e.name)) ∧ Rooted (s.toggleFolder (joinPath folder e.name)) := by
  rcases shown_listed h hopen he with ⟨entries, hlisted, hmem⟩
  have hchild := hreaches.child hlisted hmem hdir
  have hsame : ∀ expanded, Browser.Sound { s with expanded } := fun _ =>
    ⟨h.gens, h.current, h.loading, h.once, h.listed, h.reached, h.target⟩
  unfold Browser.toggleFolder
  split
  case isTrue =>
      exact ⟨hsame _, rooted_of_known hrooted rfl rfl fun _ hp => hp⟩
  case isFalse =>
      dsimp only
      split
      case isTrue =>
          exact ⟨hsame _, rooted_of_known hrooted rfl rfl fun _ hp => hp⟩
      case isFalse hunknown =>
          rcases known_eq_false (Bool.not_eq_true _ ▸ hunknown) with ⟨hnone, hown⟩
          refine ⟨sound_loadFolder (hsame _) (by rw [hnone]; exact nofun) hchild hown, ?_⟩
          exact rooted_of_known hrooted rfl rfl fun p hp => known_loadFolder hp

theorem sound_step (h : Browser.Sound s) (hrooted : Rooted s) {e : BrowserEvent} (hs : s.step e = some s') :
    Browser.Sound s' ∧ Rooted s' := by
  cases e with
  | renders props =>
      cases hs
      exact sound_render h props
  | answers k res =>
      rcases Option.map_eq_some_iff.1 hs with ⟨call, hcall, rfl⟩
      refine ⟨sound_answered h hcall res, rooted_of_known hrooted ?_ ?_ fun p hp => known_answered hp⟩
      · unfold Browser.answered
        dsimp only
        split <;> rfl
      · unfold Browser.answered
        dsimp only
        split <;> rfl
  | toggle way e =>
      rcases Option.bind_eq_some_iff.1 hs with ⟨folder, hway, hrest⟩
      split at hrest
      case isTrue hok =>
          cases hrest
          have hopen : s.isOpen = true := (Bool.and_eq_true_iff.1 hok.1).1
          exact sound_toggle h hrooted hopen (folderAt_reaches h hopen .root hway) hok.2.1 hok.2.2
      case isFalse =>
          cases hrest
  | retry way =>
      rcases Option.bind_eq_some_iff.1 hs with ⟨folder, hway, hrest⟩
      rcases Option.bind_eq_some_iff.1 hrest with ⟨f, hf, hload⟩
      split at hload
      case isTrue hok =>
          cases hload
          have hopen : s.isOpen = true := (Bool.and_eq_true_iff.1 hok.1).1
          have hidle : s.cache folder ≠ some .loading := by
            intro hloading
            cases hf.symm.trans hloading
            exact absurd hok.2.1 (by simp [FolderState.loading])
          have hown := (h.reached hopen folder (by rw [hf]; rfl)).2
          exact ⟨sound_loadFolder h hidle (folderAt_reaches h hopen .root hway) hown,
            rooted_of_known hrooted rfl rfl fun p hp => known_loadFolder hp⟩
      case isFalse =>
          cases hload
  | restore way e =>
      rcases Option.bind_eq_some_iff.1 hs with ⟨folder, hway, hrest⟩
      split at hrest
      case isTrue hok =>
          cases hrest
          refine ⟨⟨h.gens, h.current, h.loading, h.once, h.listed, h.reached, ?_⟩, hrooted⟩
          rintro hopen e' path ⟨⟩
          rcases shown_listed h hopen hok.2.1 with ⟨entries, hlisted, hmem⟩
          exact ⟨folder, entries, folderAt_reaches h hopen .root hway, hlisted, hmem, rfl⟩
      case isFalse =>
          cases hrest
  | leaves =>
      simp only [Browser.step] at hs
      split at hs <;> cases hs
      exact ⟨⟨h.gens, h.current, h.loading, h.once, h.listed, h.reached, nofun⟩, hrooted⟩

end Steps

/-! ## Runs -/

theorem sound_unmounted (props : BrowserProps) : Browser.Sound (Browser.unmounted props) := by
  have hclosed : (Browser.unmounted props).isOpen ≠ true := Bool.false_ne_true
  exact ⟨fun call hcall => absurd hcall List.not_mem_nil, fun h => absurd h hclosed,
    fun h => absurd h hclosed, fun h => absurd h hclosed, fun h => absurd h hclosed,
    fun h => absurd h hclosed, fun h => absurd h hclosed⟩

theorem reachable_sound {s : Browser} (h : browser.Reachable Mounted s) : Browser.Sound s ∧ Rooted s := by
  refine h.invariant (P := fun s => Browser.Sound s ∧ Rooted s) ?_ ?_
  · rintro _ ⟨props, rfl⟩
    exact sound_render (sound_unmounted props) props
  · rintro s e s' ⟨hsound, hrooted⟩ _ hs
    exact sound_step hsound hrooted hs

/-- What an open browser shows and offers. -/
structure Honest (s : Browser) : Prop where
  /-- The entries of a folder are what the server has listed for it, in this backup. -/
  listed : ∀ path f entries, s.cache path = some f → f.entries = some entries →
    { backupId := s.backupId, folder := path, entries } ∈ s.answers ∧
      Reaches s.answers s.backupId s.rootPath path
  /-- The entry of the restore dialog was listed as well, and its path is where. -/
  target : ∀ e path, s.restoreTarget = some (e, path) → ∃ folder entries,
    Reaches s.answers s.backupId s.rootPath folder ∧
      { backupId := s.backupId, folder, entries } ∈ s.answers ∧ e ∈ entries ∧
        path = joinPath folder e.name
  /-- A folder is loading just when a call for it is under way, which will be heard. -/
  loading : ∀ path, s.cache path = some .loading ↔ ∃ call ∈ s.calls,
    call = { generation := s.requestGen, backupId := s.backupId, folder := path }
  /-- No folder is asked for twice at a time. -/
  once : ∀ path, s.calls.countP (fun call => call.generation = s.requestGen ∧ call.folder = path) ≤ 1
  /-- The root has been asked for, unless its name is a key of `Object.prototype`. -/
  root : INHERITED.contains s.rootPath = false → (s.cache s.rootPath).isSome = true
  /-- No folder of such a name ever is. -/
  blind : ∀ path, INHERITED.contains path = true → s.cache path = none

theorem Browser.Sound.countP {s : Browser} (h : Browser.Sound s) (hopen : s.isOpen = true) (path : String) :
    s.calls.countP (fun call => call.generation = s.requestGen ∧ call.folder = path) ≤ 1 := by
  rw [List.countP_eq_length_filter]
  have hapart := (h.once hopen).sublist (List.filter_sublist (p := fun call : TreeCall =>
    decide (call.generation = s.requestGen ∧ call.folder = path)))
  have hboth : ∀ c ∈ s.calls.filter (fun call : TreeCall =>
      decide (call.generation = s.requestGen ∧ call.folder = path)),
      c.generation = s.requestGen ∧ c.folder = path := fun c hc =>
    of_decide_eq_true (List.mem_filter.1 hc).2
  rcases hcalls : s.calls.filter (fun call : TreeCall =>
      decide (call.generation = s.requestGen ∧ call.folder = path)) with _ | ⟨a, _ | ⟨b, rest⟩⟩
  · exact Nat.zero_le 1
  · exact le_rfl
  · -- two calls for one folder
    rw [hcalls] at hapart hboth
    have ha := hboth a List.mem_cons_self
    have hb := hboth b (List.mem_cons_of_mem _ List.mem_cons_self)
    have hne := (List.pairwise_cons.1 hapart).1 b List.mem_cons_self ha.1 hb.1
    exact absurd (ha.2.trans hb.2.symm) hne

/-- Whatever the user opens, and in whichever order the server answers. -/
theorem reachable_honest {s : Browser} (h : browser.Reachable Mounted s) (hopen : s.isOpen = true) :
    Honest s := by
  rcases reachable_sound h with ⟨hsound, hrooted⟩
  refine ⟨fun path f entries hf hentries => ⟨hsound.listed hopen path f entries hf hentries, ?_⟩,
    hsound.target hopen, fun path => ⟨fun hloading => ?_, ?_⟩, hsound.countP hopen, fun hown => ?_,
    fun path hpath => ?_⟩
  · exact (hsound.reached hopen path (by rw [hf]; rfl)).1
  · rcases hsound.loading hopen path hloading with ⟨call, hcall, hgen, rfl⟩
    have hbackup := (hsound.current hopen call hcall hgen).1
    refine ⟨call, hcall, ?_⟩
    rw [← hgen, ← hbackup]
  · rintro ⟨call, hcall, rfl⟩
    exact (hsound.current hopen _ hcall rfl).2
  · have hknown := hrooted hopen
    rwa [Browser.known, hown, Bool.or_false] at hknown
  · cases hcache : s.cache path with
    | none =>
        rfl
    | some f =>
        have hown := (hsound.reached hopen path (by rw [hcache]; rfl)).2
        rw [hown] at hpath
        cases hpath

/-! ## Another backup, while the first one loads -/

def exportsOf (backupId : String) : BrowserProps where
  backupId := backupId
  isOpen := true
  initialPath := some "/database-exports/"
  restoreLocked := false

def parquet : BackupTreeEntry where
  name := "2026-W01.parquet"
  size := "4096"
  mtime := "2026-01-05T00:00:00Z"
  isDir := false
  objectId := "k1"

/-- The answer about the first backup comes last. -/
def switches : List BrowserEvent :=
  [.renders (exportsOf "b2"), .answers 1 (.ok [parquet]), .answers 0 (.error ("HTTP 502", none)),
    .restore [] parquet]

theorem reachable_honest_switched : ∃ s,
    browser.run (Browser.mount (exportsOf "b1")) switches = some s ∧ s.backupId = "b2" ∧
      s.restoreTarget = some (parquet, "database-exports/2026-W01.parquet") ∧ Honest s := by
  obtain ⟨s, hs, hopen, hbackup, htarget⟩ : ∃ s,
      browser.run (Browser.mount (exportsOf "b1")) switches = some s ∧ s.isOpen = true ∧
        s.backupId = "b2" ∧
          s.restoreTarget = some (parquet, "database-exports/2026-W01.parquet") := by
    refine ⟨_, rfl, rfl, rfl, ?_⟩
    decide
  have hreach := Machine.Reachable.run (I := Mounted) (.init ⟨exportsOf "b1", rfl⟩) hs
  exact ⟨s, hs, hbackup, htarget, reachable_honest hreach hopen⟩

end Webapp
end SignalKBackup
