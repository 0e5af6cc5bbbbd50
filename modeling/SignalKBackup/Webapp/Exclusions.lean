import Mathlib.Data.List.Induction
import SignalKBackup.Lib.Fields

/-!
# Exclusions — the card that edits the exclusion patterns

The card shows the directories of the server with their checkboxes, and suggestions that can be
queued.  `onSave` builds the new list of patterns from the old one, the queue and the checkboxes.

* a `Card` is the state of the card, changed by an `Action` of the user;
* `touched` says which directories the user has toggled, and `atEnd` how a directory is left;
* `SavesTouched` is what saving should change, and `savesTouched_iff` says when it does so.

An object of JavaScript also has the keys of `Object.prototype`, which `isExcluded` reads as true.
-/

namespace SignalKBackup
namespace Webapp

open Lib

/-! ## Listings -/

structure DataDirEntry where
  name : String
  excluded : Bool

structure PluginDataDirEntry where
  name : String
  excluded : Bool
  lockedExcluded : Bool

def PluginDataDirEntry.fullName (p : PluginDataDirEntry) : String :=
  "plugin-config-data/" ++ p.name ++ "/"

/-- The answers of the server: the entries of two directories. -/
structure Listing where
  dirs : List DataDirEntry
  pluginDirs : List PluginDataDirEntry
  dirs_distinct : (dirs.map DataDirEntry.name).Nodup
  pluginDirs_distinct : (pluginDirs.map PluginDataDirEntry.name).Nodup
  no_slash : ∀ d ∈ dirs, '/' ∉ d.name.toList

structure Row where
  name : String
  excluded : Bool
  locked : Bool := false

namespace Listing

variable (l : Listing)

def topLevelDirs : List Row :=
  (l.dirs.filter fun d => d.name ≠ "plugin-config-data").map fun d =>
    { name := d.name, excluded := d.excluded }

def editablePluginDirs : List Row :=
  (l.pluginDirs.filter fun p => !p.lockedExcluded).map fun p =>
    { name := p.fullName, excluded := p.excluded }

def lockedPluginDirs : List Row :=
  (l.pluginDirs.filter fun p => p.lockedExcluded).map fun p =>
    { name := p.fullName, excluded := p.excluded, locked := true }

def rows : List Row :=
  l.topLevelDirs ++ l.editablePluginDirs ++ l.lockedPluginDirs

end Listing

/-! ## The card -/

/-- The keys of `Object.prototype`. -/
def INHERITED : List String :=
  ["constructor", "__defineGetter__", "__defineSetter__", "hasOwnProperty", "__lookupGetter__",
    "__lookupSetter__", "isPrototypeOf", "propertyIsEnumerable", "toString", "valueOf", "__proto__",
    "toLocaleString"]

structure Card where
  /-- The own keys of `overrides`. -/
  overrides : Fields String Bool := []
  queued : List String := []

def isExcluded (overrides : Fields String Bool) (name : String) (defaultExcluded : Bool) : Bool :=
  match (Fields.values name overrides).head? with
  | some excluded => excluded
  | none => INHERITED.contains name || defaultExcluded

def toggle (prev : Fields String Bool) (name : String) (currentEffective serverDefault : Bool) :
    Fields String Bool :=
  let next := !currentEffective
  if next = serverDefault then
    if Fields.values name prev = [] ∧ ¬INHERITED.contains name = true then prev
    else prev.filter fun e => e.1 ≠ name
  else if (Fields.values name prev).head? = some next then prev
  else Fields.set name next prev

inductive Action
  /-- The checkbox of the row with this name. -/
  | click (name : String)
  /-- The button beside a suggestion. -/
  | suggest (path : String)
  | discard

def Listing.act (l : Listing) (card : Card) : Action → Card
  | .click name =>
      match l.rows.find? fun r => r.name = name with
      | none => card
      | some row =>
          if row.locked then card
          else
            let excluded := isExcluded card.overrides row.name row.excluded
            { card with overrides := toggle card.overrides row.name excluded row.excluded }
  | .suggest path =>
      if card.queued.contains path then
        { card with queued := card.queued.filter fun p => p ≠ path }
      else { card with queued := card.queued ++ [path] }
  | .discard => {}

def Listing.run (l : Listing) (actions : List Action) : Card :=
  actions.foldl l.act {}

/-- The list that `onSave` sends. -/
def Listing.onSave (l : Listing) (exclusions : List String) (card : Card) : List String :=
  let dirNames := (l.dirs.map fun d => d.name ++ "/") ++ l.pluginDirs.map fun p => p.fullName
  let previousRawPatterns := exclusions.filter fun p => !dirNames.contains p
  let dirPatterns :=
    ((l.dirs.filter fun d => isExcluded card.overrides d.name d.excluded).map fun d =>
        d.name ++ "/") ++
      (l.pluginDirs.filter fun p => isExcluded card.overrides p.fullName p.excluded).map fun p =>
        p.fullName
  previousRawPatterns ++ card.queued.filter (fun p => !previousRawPatterns.contains p) ++ dirPatterns

/-! ## Directories -/

/-- A directory of either listing, with the name of its row and its own pattern. -/
structure Directory where
  name : String
  own : String
  excluded : Bool

def DataDirEntry.directory (d : DataDirEntry) : Directory :=
  { name := d.name, own := d.name ++ "/", excluded := d.excluded }

def PluginDataDirEntry.directory (p : PluginDataDirEntry) : Directory :=
  { name := p.fullName, own := p.fullName, excluded := p.excluded }

def Listing.directories (l : Listing) : List Directory :=
  l.dirs.map DataDirEntry.directory ++ l.pluginDirs.map PluginDataDirEntry.directory

theorem fullName_inj {p p' : PluginDataDirEntry} (h : p.fullName = p'.fullName) :
    p.name = p'.name :=
  (String.append_right_inj _).1 ((String.append_left_inj _).1 h)

namespace Listing

variable {l : Listing} {d d' : Directory}

theorem slash_mem_append (s t : String) (hs : '/' ∈ s.toList) : '/' ∈ (s ++ t).toList := by
  rw [String.toList_append]
  exact List.mem_append_left _ hs

/-- A name with a slash, or a pattern with one inside, is that of a plugin directory. -/
theorem fullName_ne {e : DataDirEntry} (he : e ∈ l.dirs) (p : PluginDataDirEntry) :
    e.name ≠ p.fullName ∧ e.name ++ "/" ≠ p.fullName := by
  -- the names of the top level have none
  have hslash : '/' ∈ ("plugin-config-data/" ++ p.name).toList :=
    slash_mem_append _ _ (by decide)
  constructor
  · intro h
    exact l.no_slash e he (h ▸ slash_mem_append _ _ hslash)
  · intro h
    exact l.no_slash e he ((String.append_left_inj _).1 h ▸ hslash)

/-- Directories are told apart by what tells the entries of each listing apart. -/
theorem eq_of_key {f : Directory → String}
    (htop : ∀ e e' : DataDirEntry, f e.directory = f e'.directory → e.name = e'.name)
    (hplugin : ∀ p p' : PluginDataDirEntry, f p.directory = f p'.directory → p.name = p'.name)
    (hapart : ∀ e ∈ l.dirs, ∀ p : PluginDataDirEntry, f e.directory ≠ f p.directory)
    (hd : d ∈ l.directories) (hd' : d' ∈ l.directories) (h : f d = f d') : d = d' := by
  rcases List.mem_append.1 hd with hmem | hmem <;> rcases List.mem_append.1 hd' with hmem' | hmem' <;>
    rcases List.mem_map.1 hmem with ⟨e, he, rfl⟩ <;> rcases List.mem_map.1 hmem' with ⟨e', he', rfl⟩
  · rw [List.inj_on_of_nodup_map l.dirs_distinct he he' (htop e e' h)]
  · exact absurd h (hapart e he e')
  · exact absurd h.symm (hapart e' he' e)
  · rw [List.inj_on_of_nodup_map l.pluginDirs_distinct he he' (hplugin e e' h)]

theorem name_inj (hd : d ∈ l.directories) (hd' : d' ∈ l.directories) (h : d.name = d'.name) :
    d = d' :=
  eq_of_key (fun _ _ heq => heq) (fun _ _ heq => fullName_inj heq)
    (fun _ he p => (fullName_ne he p).1) hd hd' h

theorem own_inj (hd : d ∈ l.directories) (hd' : d' ∈ l.directories) (h : d.own = d'.own) :
    d = d' :=
  eq_of_key (fun _ _ heq => (String.append_left_inj _).1 heq) (fun _ _ heq => fullName_inj heq)
    (fun _ he p => (fullName_ne he p).2) hd hd' h

theorem row_directory {r : Row} (hr : r ∈ l.rows) :
    ∃ d ∈ l.directories, d.name = r.name ∧ d.excluded = r.excluded := by
  -- each of the three tables shows entries of one listing
  have hplugin : ∀ p ∈ l.pluginDirs, p.directory ∈ l.directories := fun p hp =>
    List.mem_append_right _ (List.mem_map_of_mem hp)
  rcases List.mem_append.1 hr with hmem | hlocked
  · rcases List.mem_append.1 hmem with htop | heditable
    · rcases List.mem_map.1 htop with ⟨e, he, rfl⟩
      have hdir : e.directory ∈ l.directories :=
        List.mem_append_left _ (List.mem_map_of_mem (List.mem_of_mem_filter he))
      exact ⟨e.directory, hdir, rfl, rfl⟩
    · rcases List.mem_map.1 heditable with ⟨p, hp, rfl⟩
      exact ⟨p.directory, hplugin p (List.mem_of_mem_filter hp), rfl, rfl⟩
  · rcases List.mem_map.1 hlocked with ⟨p, hp, rfl⟩
    exact ⟨p.directory, hplugin p (List.mem_of_mem_filter hp), rfl, rfl⟩

end Listing

/-! ## What the user has toggled -/

/-- The checkbox of this row can be clicked. -/
def Listing.editable (l : Listing) (name : String) : Bool :=
  (l.rows.find? fun r => r.name = name).any fun r => !r.locked

/-- One action, on whether the directory is toggled. -/
def Listing.flip (l : Listing) (name : String) (touched : Bool) : Action → Bool
  | .click clicked => if clicked = name ∧ l.editable name = true then !touched else touched
  | .suggest _ => touched
  | .discard => false

/-- The directory is toggled, and not toggled back. -/
def Listing.touched (l : Listing) (actions : List Action) (name : String) : Bool :=
  actions.foldl (l.flip name) false

namespace Directory

variable (d : Directory)

/-- How the card shows a directory that is not toggled. -/
def shown : Bool :=
  INHERITED.contains d.name || d.excluded

/-- The checkbox does not react: `overrides` has a value that is not its own. -/
def stuck : Bool :=
  INHERITED.contains d.name && !d.excluded

/-- How the card leaves a directory. -/
def atEnd (touched : Bool) : Bool :=
  if touched && !d.stuck then !d.excluded else d.shown

/-- `overrides` has the directory exactly when it is toggled. -/
def Tracks (card : Card) (touched : Bool) : Prop :=
  Fields.values d.name card.overrides = if touched && !d.stuck then [!d.excluded] else []

end Directory

namespace Directory

variable {d : Directory}

theorem Tracks.isExcluded {card : Card} {touched : Bool} (h : d.Tracks card touched) :
    Webapp.isExcluded card.overrides d.name d.excluded = d.atEnd touched := by
  unfold Webapp.isExcluded atEnd
  rw [h]
  cases touched && !d.stuck <;> rfl

end Directory

theorem values_toggle_ne {prev : Fields String Bool} {name other : String} (hother : other ≠ name)
    (currentEffective serverDefault : Bool) :
    Fields.values name (toggle prev other currentEffective serverDefault) =
      Fields.values name prev := by
  unfold toggle
  dsimp only
  split
  case isTrue =>
      split
      case isTrue =>
          rfl
      case isFalse =>
          have hfilter : Fields.values name (prev.filter fun e => decide (e.1 ≠ other)) = _ :=
            Fields.values_filter fun k => decide (k ≠ other)
          rw [hfilter]
          simp [Ne.symm hother]
  case isFalse =>
      split
      case isTrue =>
          rfl
      case isFalse =>
          exact Fields.values_set_ne _ hother

/-- The key of the row goes where the new value is the default, and else has the new value. -/
theorem values_toggle_self {prev : Fields String Bool} {name : String}
    (hone : (Fields.values name prev).length ≤ 1) (currentEffective serverDefault : Bool) :
    Fields.values name (toggle prev name currentEffective serverDefault) =
      if (!currentEffective) = serverDefault then [] else [!currentEffective] := by
  unfold toggle
  dsimp only
  split
  case isTrue =>
      split
      case isTrue habsent =>
          exact habsent.1
      case isFalse =>
          have hfilter : Fields.values name (prev.filter fun e => decide (e.1 ≠ name)) = _ :=
            Fields.values_filter fun k => decide (k ≠ name)
          rw [hfilter]
          simp
  case isFalse =>
      split
      case isTrue hhead =>
          rcases List.head?_eq_some_iff.1 hhead with ⟨tail, htail⟩
          rw [htail] at hone ⊢
          have hnil : tail = [] := by simpa using hone
          rw [hnil]
      case isFalse =>
          exact Fields.values_set_self _

namespace Directory

variable {d : Directory} {l : Listing}

theorem Tracks.length_le {card : Card} {touched : Bool} (h : d.Tracks card touched) :
    (Fields.values d.name card.overrides).length ≤ 1 := by
  rw [h]
  split <;> simp

/-- A click on the row of the directory. -/
theorem Tracks.toggle {card : Card} {touched : Bool} (h : d.Tracks card touched) :
    d.Tracks
      { card with
        overrides := Webapp.toggle card.overrides d.name
          (Webapp.isExcluded card.overrides d.name d.excluded) d.excluded }
      (!touched) := by
  unfold Tracks
  rw [values_toggle_self h.length_le, h.isExcluded]
  unfold atEnd stuck shown
  -- a directory that is stuck goes back at once; any other changes its state
  generalize INHERITED.contains d.name = inherited
  cases inherited <;> cases d.excluded <;> cases touched <;> rfl

/-- The row with the name of a directory shows it. -/
theorem row_excluded {r : Row} (hd : d ∈ l.directories) (hr : r ∈ l.rows) (hname : r.name = d.name) :
    r.excluded = d.excluded := by
  rcases Listing.row_directory hr with ⟨d', hd', hrow, hexcluded⟩
  rw [← hexcluded, Listing.name_inj hd' hd (hrow.trans hname)]

theorem Tracks.click {card : Card} {touched : Bool} (hd : d ∈ l.directories)
    (h : d.Tracks card touched) (name : String) :
    d.Tracks (l.act card (.click name)) (l.flip d.name touched (.click name)) := by
  unfold Listing.act Listing.flip Listing.editable
  by_cases hname : name = d.name
  · subst hname
    cases hrow : l.rows.find? fun r => r.name = d.name with
    -- without a row there is no checkbox, and a locked one is disabled
    | none =>
        simpa [hrow] using h
    | some row =>
        have hrowname : row.name = d.name := by simpa using List.find?_some hrow
        have hexcluded := row_excluded hd (List.mem_of_find?_eq_some hrow) hrowname
        cases hlocked : row.locked with
        | true =>
            simpa [hrow, hlocked] using h
        | false =>
            simpa [hrow, hlocked, hrowname, hexcluded] using h.toggle
  · cases hrow : l.rows.find? fun r => r.name = name with
    | none =>
        simpa [hrow, hname] using h
    | some row =>
        have hrowname : row.name = name := by simpa using List.find?_some hrow
        simp only [hname, false_and, if_false, hrow]
        by_cases hlocked : row.locked = true
        · rw [if_pos hlocked]
          exact h
        · -- the row of another directory
          rw [if_neg hlocked]
          exact (values_toggle_ne (hrowname ▸ hname) _ _).trans h

theorem Tracks.act {card : Card} {touched : Bool} (hd : d ∈ l.directories)
    (h : d.Tracks card touched) (a : Action) :
    d.Tracks (l.act card a) (l.flip d.name touched a) := by
  cases a with
  | click name =>
      exact h.click hd name
  | suggest path =>
      unfold Listing.act
      dsimp only
      split <;> exact h
  | discard =>
      exact rfl

/-- In every run, `overrides` has the directories that are toggled. -/
theorem tracks_run (hd : d ∈ l.directories) (actions : List Action) :
    d.Tracks (l.run actions) (l.touched actions d.name) := by
  -- the last action is the one that `act` adds
  induction actions using List.reverseRecOn with
  | nil =>
      exact rfl
  | append_singleton actions a ih =>
      simp only [Listing.run, Listing.touched, List.foldl_append, List.foldl_cons, List.foldl_nil]
      exact ih.act hd a

end Directory

/-! ## The queue -/

theorem Listing.act_queued {l : Listing} {card : Card} (h : card.queued.Nodup) (a : Action) :
    (l.act card a).queued.Nodup := by
  cases a with
  | click name =>
      have hsame : (l.act card (.click name)).queued = card.queued := by
        simp only [Listing.act]
        cases l.rows.find? fun r => decide (r.name = name) with
        | none =>
            rfl
        | some row =>
            cases hlocked : row.locked <;> simp [hlocked]
      rw [hsame]
      exact h
  | suggest path =>
      unfold Listing.act
      dsimp only
      split
      case isTrue =>
          exact h.filter _
      case isFalse hfresh =>
          have hnot : path ∉ card.queued := by simpa using hfresh
          refine List.nodup_append.2 ⟨h, by simp, ?_⟩
          rintro p hp q hq rfl
          exact hnot (List.mem_singleton.1 hq ▸ hp)
  | discard =>
      exact List.nodup_nil

theorem Listing.queued_nodup (l : Listing) (actions : List Action) :
    (l.run actions).queued.Nodup := by
  induction actions using List.reverseRecOn with
  | nil =>
      exact List.nodup_nil
  | append_singleton actions a ih =>
      simp only [Listing.run, List.foldl_append, List.foldl_cons, List.foldl_nil]
      exact l.act_queued ih a

/-! ## The list that is sent -/

namespace Listing

variable {l : Listing} {exclusions : List String} {card : Card}

/-- The own patterns of all directories. -/
def ownPatterns (l : Listing) : List String :=
  l.directories.map Directory.own

/-- The directories that the card shows as excluded. -/
def chosen (l : Listing) (card : Card) : List Directory :=
  l.directories.filter fun d => isExcluded card.overrides d.name d.excluded

theorem ownPatterns_eq : l.ownPatterns =
    (l.dirs.map fun d => d.name ++ "/") ++ l.pluginDirs.map fun p => p.fullName := by
  simp only [ownPatterns, directories, List.map_append, List.map_map]
  rfl

theorem onSave_eq : l.onSave exclusions card =
    let raw := exclusions.filter fun p => !l.ownPatterns.contains p
    raw ++ card.queued.filter (fun p => !raw.contains p) ++ (l.chosen card).map Directory.own := by
  -- two loops over the listings, one list of directories
  have hchosen : (l.chosen card).map Directory.own =
      ((l.dirs.filter fun d => isExcluded card.overrides d.name d.excluded).map fun d =>
          d.name ++ "/") ++
        (l.pluginDirs.filter fun p => isExcluded card.overrides p.fullName p.excluded).map fun p =>
          p.fullName := by
    simp only [chosen, directories, List.filter_append, List.map_append, List.filter_map,
      List.map_map]
    rfl
  rw [ownPatterns_eq, hchosen]
  rfl

theorem mem_ownPatterns {p : String} :
    p ∈ l.ownPatterns ↔ ∃ d ∈ l.directories, d.own = p :=
  List.mem_map

/-- A pattern of the old list that is nobody's own is kept. -/
theorem onSave_kept {p : String} (hp : p ∈ exclusions) (hown : p ∉ l.ownPatterns) :
    p ∈ l.onSave exclusions card := by
  rw [onSave_eq]
  refine List.mem_append_left _ (List.mem_append_left _ ?_)
  exact List.mem_filter.2 ⟨hp, by simpa using hown⟩

theorem onSave_queued {p : String} (hp : p ∈ card.queued) : p ∈ l.onSave exclusions card := by
  rw [onSave_eq]
  dsimp only
  -- what the old list has already is not added again
  generalize exclusions.filter (fun p => !l.ownPatterns.contains p) = raw
  by_cases hraw : p ∈ raw
  · exact List.mem_append_left _ (List.mem_append_left _ hraw)
  · refine List.mem_append_left _ (List.mem_append_right _ (List.mem_filter.2 ⟨hp, ?_⟩))
    simpa using hraw

theorem ownPatterns_nodup (l : Listing) : l.ownPatterns.Nodup := by
  have htop : (l.dirs.map fun d => d.name ++ "/").Nodup := by
    have hmap := l.dirs_distinct.map fun s t h => (String.append_left_inj "/").1 h
    rwa [List.map_map] at hmap
  have hplugin : (l.pluginDirs.map fun p => p.fullName).Nodup := by
    have hmap := l.pluginDirs_distinct.map (f := fun s => "plugin-config-data/" ++ s ++ "/")
      fun s t h => (String.append_right_inj _).1 ((String.append_left_inj _).1 h)
    rwa [List.map_map] at hmap
  rw [ownPatterns_eq]
  refine List.nodup_append.2 ⟨htop, hplugin, ?_⟩
  rintro p hp q hq rfl
  rcases List.mem_map.1 hp with ⟨e, he, rfl⟩
  rcases List.mem_map.1 hq with ⟨e', _, heq⟩
  exact (fullName_ne he e').2 heq.symm

/-- The own pattern of a directory is sent when it is queued, or shown as excluded. -/
theorem onSave_own {d : Directory} (hd : d ∈ l.directories) :
    d.own ∈ l.onSave exclusions card ↔
      d.own ∈ card.queued ∨ isExcluded card.overrides d.name d.excluded = true := by
  -- no other directory has this pattern
  have hchosen : d.own ∈ (l.chosen card).map Directory.own ↔
      isExcluded card.overrides d.name d.excluded = true := by
    constructor
    · intro h
      rcases List.mem_map.1 h with ⟨d', hd', hown⟩
      rcases List.mem_filter.1 hd' with ⟨hmem, hexcluded⟩
      rwa [own_inj hmem hd hown] at hexcluded
    · exact fun h => List.mem_map_of_mem (List.mem_filter.2 ⟨hd, h⟩)
  constructor
  · intro h
    rw [onSave_eq] at h
    rcases List.mem_append.1 h with hfront | hback
    · rcases List.mem_append.1 hfront with hraw | hqueued
      · -- the own patterns are taken out of the old list
        have hown := (List.mem_filter.1 hraw).2
        simp [mem_ownPatterns.2 ⟨d, hd, rfl⟩] at hown
      · exact Or.inl (List.mem_filter.1 hqueued).1
    · exact Or.inr (hchosen.1 hback)
  · rintro (hqueued | hexcluded)
    · exact onSave_queued hqueued
    · rw [onSave_eq]
      exact List.mem_append_right _ (hchosen.2 hexcluded)

/-- Only a queued pattern can be sent a second time, for its directory. -/
theorem onSave_nodup (hold : exclusions.Nodup) (hqueued : card.queued.Nodup) :
    (l.onSave exclusions card).Nodup ↔
      ∀ d ∈ l.directories, d.own ∈ card.queued →
        isExcluded card.overrides d.name d.excluded = false := by
  have hmem : ∀ d ∈ l.chosen card, d ∈ l.directories := fun d hd => List.mem_of_mem_filter hd
  rw [onSave_eq]
  dsimp only
  have hraw : (exclusions.filter fun p => !l.ownPatterns.contains p).Nodup := hold.filter _
  -- what is kept of the old list is nobody's own
  have hapart : ∀ p ∈ exclusions.filter fun p => !l.ownPatterns.contains p, p ∉ l.ownPatterns := by
    intro p hp
    simpa using (List.mem_filter.1 hp).2
  generalize exclusions.filter (fun p => !l.ownPatterns.contains p) = raw at hraw hapart
  constructor
  · intro h d hd hown
    by_contra hexcluded
    -- the pattern comes from the queue and from the listing
    have hqueue : d.own ∈ raw ++ card.queued.filter fun p => !raw.contains p := by
      refine List.mem_append_right _ (List.mem_filter.2 ⟨hown, ?_⟩)
      simpa using fun hin => hapart _ hin (mem_ownPatterns.2 ⟨d, hd, rfl⟩)
    have hlisting : d.own ∈ (l.chosen card).map Directory.own :=
      List.mem_map_of_mem (List.mem_filter.2 ⟨hd, by simpa using hexcluded⟩)
    exact (List.nodup_append.1 h).2.2 _ hqueue _ hlisting rfl
  · intro hsingle
    -- the queue is filtered against the old list
    have hfront : (raw ++ card.queued.filter fun p => !raw.contains p).Nodup := by
      refine List.nodup_append.2 ⟨hraw, hqueued.filter _, ?_⟩
      rintro p hp q hq rfl
      simpa [hp] using (List.mem_filter.1 hq).2
    -- the listings have no pattern twice
    have hback : ((l.chosen card).map Directory.own).Nodup :=
      l.ownPatterns_nodup.sublist (List.filter_sublist.map _)
    refine List.nodup_append.2 ⟨hfront, hback, ?_⟩
    rintro p hp q hq rfl
    rcases List.mem_map.1 hq with ⟨d, hd, rfl⟩
    rcases List.mem_append.1 hp with hin | hin
    · exact hapart _ hin (mem_ownPatterns.2 ⟨d, hmem d hd, rfl⟩)
    · have hshown := (List.mem_filter.1 hd).2
      rw [hsingle d (hmem d hd) (List.mem_filter.1 hin).1] at hshown
      cases hshown

end Listing

/-! ## What saving changes -/

/-- Saving changes the own patterns of the toggled directories, and adds the queue. -/
structure SavesTouched (l : Listing) (exclusions : List String) (actions : List Action) : Prop where
  kept : ∀ p ∈ exclusions, p ∉ l.ownPatterns → p ∈ l.onSave exclusions (l.run actions)
  queued : ∀ p ∈ (l.run actions).queued, p ∈ l.onSave exclusions (l.run actions)
  toggled : ∀ d ∈ l.directories, l.touched actions d.name = true →
    (d.own ∈ l.onSave exclusions (l.run actions) ↔
      isExcluded (l.run actions).overrides d.name d.excluded = true)
  untouched : ∀ d ∈ l.directories, l.touched actions d.name = false →
    (d.own ∈ l.onSave exclusions (l.run actions) ↔
      d.own ∈ exclusions ∨ d.own ∈ (l.run actions).queued)
  nodup : exclusions.Nodup → (l.onSave exclusions (l.run actions)).Nodup

/-- What the listing, the old list and the queue have to agree on. -/
structure Agrees (l : Listing) (exclusions : List String) (actions : List Action) : Prop where
  /-- A directory that is not toggled is shown as excluded because of its own pattern. -/
  untouched : ∀ d ∈ l.directories, l.touched actions d.name = false →
    d.own ∉ (l.run actions).queued → (d.shown = true ↔ d.own ∈ exclusions)
  /-- A directory is not toggled to included while its own pattern is queued. -/
  toggled : ∀ d ∈ l.directories, l.touched actions d.name = true →
    d.own ∈ (l.run actions).queued → d.atEnd true = true
  /-- The own pattern of a directory that is left excluded is not queued as well. -/
  single : exclusions.Nodup → ∀ d ∈ l.directories, d.own ∈ (l.run actions).queued →
    d.atEnd (l.touched actions d.name) = false

theorem savesTouched_iff (l : Listing) (exclusions : List String) (actions : List Action) :
    SavesTouched l exclusions actions ↔ Agrees l exclusions actions := by
  -- the state of the card is known from the clicks
  have hstate : ∀ d ∈ l.directories,
      isExcluded (l.run actions).overrides d.name d.excluded =
        d.atEnd (l.touched actions d.name) := fun d hd =>
    (Directory.tracks_run hd actions).isExcluded
  have hnodup := fun hold : exclusions.Nodup =>
    Listing.onSave_nodup (l := l) hold (l.queued_nodup actions)
  have huntouched : ∀ d : Directory, d.atEnd false = d.shown := fun d => rfl
  constructor
  · intro h
    refine ⟨fun d hd ht hq => ?_, fun d hd ht hq => ?_, fun hold d hd hq => ?_⟩
    -- each part of `SavesTouched` gives the part of `Agrees` about the same directories
    · have hsaved := h.untouched d hd ht
      rw [Listing.onSave_own hd, hstate d hd, ht, huntouched] at hsaved
      simpa [hq] using hsaved
    · have hsaved := h.toggled d hd ht
      rw [Listing.onSave_own hd, hstate d hd, ht] at hsaved
      exact hsaved.1 (Or.inl hq)
    · rw [← hstate d hd]
      exact (hnodup hold).1 (h.nodup hold) d hd hq
  · intro h
    refine ⟨fun p hp hown => Listing.onSave_kept hp hown, fun p hp => Listing.onSave_queued hp,
      fun d hd ht => ?_, fun d hd ht => ?_, fun hold => ?_⟩
    · rw [Listing.onSave_own hd, hstate d hd, ht]
      -- a queued pattern is sent in any case, so that the directory has to be left excluded
      exact ⟨fun hor => hor.elim (h.toggled d hd ht) id, Or.inr⟩
    · rw [Listing.onSave_own hd, hstate d hd, ht, huntouched]
      by_cases hq : d.own ∈ (l.run actions).queued
      · simp [hq]
      · simpa [hq] using h.untouched d hd ht hq
    · refine (hnodup hold).2 fun d hd hq => ?_
      rw [hstate d hd]
      exact h.single hold d hd hq

/-- The old list excludes one of two directories with a glob. -/
def globbed : Listing where
  dirs := [{ name := "logs", excluded := true }, { name := "maps", excluded := false }]
  pluginDirs := []
  dirs_distinct := by decide
  pluginDirs_distinct := by decide
  no_slash := by decide

/-- Toggling the other one gives it a pattern of its own. -/
theorem not_savesTouched :
    globbed.onSave ["l*s/"] (globbed.run [.click "maps"]) = ["l*s/", "logs/", "maps/"] ∧
      ¬SavesTouched globbed ["l*s/"] [.click "maps"] := by
  have hsent : globbed.onSave ["l*s/"] (globbed.run [.click "maps"]) =
      ["l*s/", "logs/", "maps/"] := by
    decide
  refine ⟨hsent, fun h => ?_⟩
  have hlogs : (DataDirEntry.mk "logs" true).directory ∈ globbed.directories :=
    List.mem_append_left _ (List.mem_map_of_mem (by simp [globbed]))
  have hsaved := (h.untouched _ hlogs (by decide)).1 (by rw [hsent]; decide)
  exact absurd hsaved (by decide)

end Webapp
end SignalKBackup
