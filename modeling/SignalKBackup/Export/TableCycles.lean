import SignalKBackup.Export.Closed
import SignalKBackup.Export.Iso8601
import SignalKBackup.Export.Shown

/-!
# TableCycles — a call of `exportTable` on disk is a cycle

`QuestDBExporter.exportTable` makes one awaited call after another, each of which can fail.  Whatever
happens to them, what the disk shows of the table afterwards is what one cycle of `Export.exportTable`
makes of what it showed before (`exportTable_shown`): the cycle whose clock read what the call read,
and whose transfers ended as its requests, writes and renames did.

* The transfers of that cycle take no time, so a shard is dated by the reading of the clock before it
  was requested.
* `Looped` is the invariant of the loop over the weeks: the rounds so far are those of the cycle, and
  the disk shows the shards they left.
-/

namespace SignalKBackup
namespace Export

open Lib
open Posix
open FileTree

variable {β : Type}

/-! ## Cycles known in part -/

namespace Plan

variable {plan : Plan}

theorem exportWeeks_append (weeks rest : List IsoWeek) (p : Progress) :
    plan.exportWeeks (weeks ++ rest) p =
      match plan.exportWeeks weeks p with
      | (p', false) => (p', false)
      | (p', true) => plan.exportWeeks rest p' := by
  induction weeks generalizing p with
  | nil =>
      rfl
  | cons week weeks ih =>
      simp only [List.cons_append, exportWeeks]
      cases hround : plan.exportWeek week p with
      | mk p' ok =>
          cases ok with
          | false =>
              rfl
          | true =>
              exact ih p'

/-- The loop reads the transfers of its own weeks only. -/
theorem exportWeeks_congr (plan : Plan) (cycle : Cycle) (hnow : cycle.now = plan.cycle.now) {weeks : List IsoWeek}
    (h : ∀ week ∈ weeks, cycle.transfer week = plan.cycle.transfer week) (p : Progress) :
    Plan.exportWeeks { plan with cycle } weeks p = plan.exportWeeks weeks p := by
  induction weeks generalizing p with
  | nil =>
      rfl
  | cons week weeks ih =>
      have hround : Plan.exportWeek { plan with cycle } week p = plan.exportWeek week p := by
        simp only [exportWeek, exportWeekToShard, h week (by simp), hnow]
        rfl
      simp only [exportWeeks, hround]
      split
      · rfl
      · exact ih (fun w hw => h w (List.mem_cons_of_mem week hw)) _

theorem reused_eq (week : IsoWeek) (shards : List Char → Option Shard) :
    plan.reused week shards =
      match existingShards plan.existing (plan.file week),
        plan.isOpen week || plan.inChurnWindow week || !(shards (plan.file week)).isSome with
      | some known, false => some known
      | _, _ => none := by
  simp only [reused]
  split
  case isTrue hmust =>
      rw [hmust]
      split
      case h_1 hfalse =>
          cases hfalse
      case h_2 =>
          rfl
  case isFalse hskip =>
      rw [Bool.eq_false_iff.2 hskip]
      cases existingShards plan.existing (plan.file week) <;> rfl

end Plan

/-- A cycle whose transfers take no time. -/
def cycleOf (now : ℤ) (moved written : Bool) (bytes : IsoWeek → Option ℕ) : Cycle :=
  { now, transfer := fun week => { duration := 0, bytes := bytes week }
    legacyRenamed := moved, manifestWritten := written }

/-- The flat file is moved aside, or not. -/
def moveFlat (moved : Bool) (s : Staging) : Staging :=
  if s.flat.isSome && s.legacy.isNone && moved then { s with flat := none, legacy := s.flat } else s

theorem moveFlat_false (s : Staging) : moveFlat false s = s := by
  simp [moveFlat]

@[simp] theorem moveFlat_clock (moved : Bool) (s : Staging) : (moveFlat moved s).clock = s.clock := by
  unfold moveFlat
  split <;> rfl

@[simp] theorem moveFlat_manifest (moved : Bool) (s : Staging) :
    (moveFlat moved s).manifest = s.manifest := by
  unfold moveFlat
  split <;> rfl

@[simp] theorem moveFlat_shards (moved : Bool) (s : Staging) : (moveFlat moved s).shards = s.shards := by
  unfold moveFlat
  split <;> rfl

/-- The staging in the middle of a cycle. -/
def midCycle (now : ℤ) (moved : Bool) (s : Staging) (shards : List Char → Option Shard) : Staging :=
  { moveFlat moved s with clock := now, shards }

/-! ## What the steps of a cycle show -/

section Steps

variable {c : Codec β} {cwd : List Char} {root : List Seg} {table : List Char} {s s' : Staging}
  {t t' : Clocked β}

theorem Shows.moveFlat (h : Shows c root table s t) (hlinks : NoLinks t'.disk.fs [])
    (hclock : t.clock ≤ t'.clock) (hflat : s.flat.isSome = true) (hlegacy : s.legacy.isNone = true)
    (hrename : t.disk.fs.rename (flatPlace root table) (legacyPlace root table) = some t'.disk.fs) :
    Shows c root table (moveFlat true s) t' := by
  have hmoved : Export.moveFlat true s = { s with flat := none, legacy := s.flat } := by
    simp [Export.moveFlat, hflat, hlegacy]
  rcases rename_places hrename with ⟨hdst, hsrc⟩
  -- the table directory is another name below the root
  have hbelow : ∀ name, t'.disk.fs (tablePlace root table name) = t.disk.fs (tablePlace root table name) :=
    fun name => rename_apart hrename (flat_disjoint root table name) (legacy_disjoint root table name)
  rw [hmoved]
  exact {
    noLinks := hlinks
    clock := h.clock.trans hclock
    manifest := by
      rw [hbelow]
      exact h.manifest
    shards := fun week => by
      rw [hbelow]
      exact h.shards week
    flat := by
      rw [hsrc]
      exact ⟨rfl, fun _ hnone => by cases hnone⟩
    legacy := by
      rw [hdst]
      exact h.flat }

/-- A file of the table directory has been replaced. -/
structure Replaced (root : List Seg) (table : List Char) (name : Seg) (body : β) (t t' : Clocked β) :
    Prop where
  noLinks : NoLinks t'.disk.fs []
  clock : t.clock ≤ t'.clock
  file : t'.disk.fs (tablePlace root table name) = some (.file body)
  others : ∀ p, Shown root table p → p ≠ tablePlace root table name → t'.disk.fs p = t.disk.fs p

theorem shardFile_ne_manifest (week : IsoWeek) : shardFile table week ≠ MANIFEST_JSON := by
  intro h
  have hlast := congrArg List.getLast? h
  have hname : shardFile table week = (table ++ '_' :: formatIsoWeek week) ++ PARQUET := by
    simp [shardFile]
  have hletter : PARQUET.getLast? = some 't' := rfl
  rw [hname, List.getLast?_append, hletter, Option.some_or] at hlast
  exact absurd hlast (by decide)

theorem tablePlace_injective {a b : Seg} (h : tablePlace root table a = tablePlace root table b) :
    a = b := by
  simpa [tablePlace] using h

/-- A new manifest. -/
theorem Shows.manifest_replaced {body : β} {m : Manifest} (h : Shows c root table s t)
    (hnew : Replaced root table MANIFEST_JSON body t t') (hparse : c.parse body = some m) :
    Shows c root table { s with manifest := some m } t' where
  noLinks := hnew.noLinks
  clock := h.clock.trans hnew.clock
  manifest := by
    rw [hnew.file]
    exact hparse
  shards week := by
    rw [hnew.others _ (.shard week) fun heq => shardFile_ne_manifest week (tablePlace_injective heq)]
    exact h.shards week
  flat := by
    rw [hnew.others _ .flat (flat_disjoint root table _).symm.ne]
    exact h.flat
  legacy := by
    rw [hnew.others _ .legacy (legacy_disjoint root table _).symm.ne]
    exact h.legacy

/-- A new shard; where two weeks had one name it would be the shard of both. -/
theorem Shows.shard_replaced {body : β} {week : IsoWeek} (h : Shows c root table s t) (fetchedAt : ℤ)
    (hnew : Replaced root table (shardFile table week) body t t') :
    Shows c root table
      { s with shards := Function.update s.shards (shardFile table week) (some ⟨fetchedAt, c.length body⟩) }
      t' where
  noLinks := hnew.noLinks
  clock := h.clock.trans hnew.clock
  manifest := by
    rw [hnew.others _ .manifest fun heq => shardFile_ne_manifest week (tablePlace_injective heq).symm]
    exact h.manifest
  shards w := by
    by_cases hfile : shardFile table w = shardFile table week
    · simp only [hfile, hnew.file, Function.update_self, Option.map_some]
      refine ⟨rfl, fun bytes hbytes => ?_⟩
      cases hbytes
      rfl
    · simp only [Function.update_of_ne hfile]
      rw [hnew.others _ (.shard w) fun heq => hfile (tablePlace_injective heq)]
      exact h.shards w
  flat := by
    rw [hnew.others _ .flat (flat_disjoint root table _).symm.ne]
    exact h.flat
  legacy := by
    rw [hnew.others _ .legacy (legacy_disjoint root table _).symm.ne]
    exact h.legacy

/-- A file is renamed from its `.partial` name. -/
theorem Replaced.of_rename {name : Seg} {body : β}
    (hlinks : NoLinks t'.disk.fs []) (hclock : t.clock ≤ t'.clock)
    (hfile : t.disk.fs (tablePlace root table (name ++ PARTIAL)) = some (.file body))
    (hrename : t.disk.fs.rename (tablePlace root table (name ++ PARTIAL)) (tablePlace root table name) =
      some t'.disk.fs) : Replaced root table name body t t' where
  noLinks := hlinks
  clock := hclock
  file := by rw [(rename_places hrename).1, hfile]
  others p hp hne := by
    rcases rename_eq_some hrename with ⟨_, ⟨bytes, _, hfs⟩ | ⟨hdir, _⟩⟩
    · rw [hfs, FileTree.put, if_neg hne, FileTree.remove, if_neg (hp.disjoint_partial name).1]
    · rw [hfile] at hdir
      cases hdir

end Steps

/-! ## Calls -/

section Calls

variable {c : Codec β} {cwd : List Char} {root : List Seg} {table : List Char} {s s' : Staging}
  {E : Clocked β → Prop}

/-- Whether something is there is as the disk shows it. -/
theorem existsSync_shown {path : List Char} {size : Option ℕ}
    (hsized : ∀ t, Shows c root table s t → Sized c (t.disk.fs (place cwd path)) size) :
    Triple (ordinary cwd) (Shows c root table s) (existsSync path)
      (fun there t => there = size.isSome ∧ Shows c root table s t) E := by
  intro t ht
  have hop : ∀ p, Shown root table p → Apart cwd p (.existsSync path : Op β) := fun _ _ => trivial
  refine ⟨Shows c root table s, ht, fun u hu => ⟨fun u' hstep => hu.step hop hstep, fun u' x hstep => ?_⟩⟩
  have hshows := hu.step hop hstep
  rcases hstep with ⟨o, hsettle, _⟩
  cases o with
  | resolves =>
      simp only [settle, Option.some.injEq, Prod.mk.injEq] at hsettle
      exact ⟨hsettle.2.symm.trans (hsized u hu).there, hshows⟩
  | _ =>
      cases hsettle

theorem now_shown : Triple (ordinary cwd) (Shows c root table s) now
    (fun nowIso t => s.clock ≤ nowIso ∧ Shows c root table { s with clock := nowIso } t) E := by
  intro t ht
  have hop : ∀ p, Shown root table p → Apart cwd p (.now : Op β) := fun _ _ => trivial
  refine ⟨Shows c root table s, ht, fun u hu => ⟨fun u' hstep => hu.step hop hstep, fun u' x hstep => ?_⟩⟩
  have hshows := hu.step hop hstep
  rcases hstep with ⟨o, hsettle, hordinary, hclock⟩
  cases o with
  | clock nowIso =>
      simp only [settle, Option.some.injEq, Prod.mk.injEq] at hsettle
      rw [← hsettle.2]
      exact ⟨hu.clock.trans (of_decide_eq_true hordinary), { hshows with clock := hclock.ge }⟩
  | _ =>
      cases hsettle

theorem unlinkQuietly_shown {path : List Char}
    (h : ∀ p, Shown root table p → Disjoint (place cwd path) p) :
    Triple (ordinary cwd) (Shows c root table s) (unlinkQuietly path) (fun _ => Shows c root table s) E :=
  .catches (.of_ensures fun _ ht => ht.perform h) fun _ => .returns fun _ hs => hs

/-- The clean-up of a writer. -/
theorem cleanUp_shown {α : Type} {path : List Char} {Q : α → Clocked β → Prop}
    (h : ∀ p, Shown root table p → Disjoint (place cwd path) p) (err : String) :
    Triple (ordinary cwd) (Shows c root table s) (do unlinkQuietly path; throw err : Async β α) Q
      (Shows c root table s) :=
  .andThen (unlinkQuietly_shown h) fun _ => .throws fun _ hs => hs

/-- The file is whole under its other name. -/
def Written (c : Codec β) (root : List Seg) (table : List Char) (s : Staging) (name : Seg) (body : β)
    (t : Clocked β) : Prop :=
  Shows c root table s t ∧ t.disk.fs (tablePlace root table (name ++ PARTIAL)) = some (.file body)

theorem write_shown {path : List Char} {name : Seg} (body : β)
    (h : place cwd path = tablePlace root table (name ++ PARTIAL)) :
    Triple (ordinary cwd) (Shows c root table s) (write path body)
      (fun _ => Written c root table s name body) (Shows c root table s) := by
  intro t ht
  have hop : ∀ p, Shown root table p → Apart cwd p (.write path body) := by
    intro p hp
    rw [Apart, h]
    exact hp.disjoint_partial name
  refine .perform (Shows c root table s) ht (fun _ _ hu hstep => hu.step hop hstep) ?_
  rintro u ⟨disk', clock'⟩ x hu hstep
  have hshows := hu.step hop hstep
  rcases hstep with ⟨o, hsettle, _⟩
  rcases write_settles hsettle with ⟨q, rfl, hq, hfs⟩ | ⟨e, rfl, _⟩
  · refine ⟨hshows, ?_⟩
    rw [hfs, opens_self hu.noLinks hq, h]
    simp [FileTree.put]
  · exact hshows

/-- A rename from `P` that shows `s'` when it succeeds, and leaves what is shown when it fails. -/
theorem rename_triple {src dst : List Char} {P : Clocked β → Prop}
    (hP : ∀ t, P t → Shows c root table s t)
    (hnew : ∀ t t', P t → NoLinks t'.disk.fs [] → t.clock ≤ t'.clock →
      t.disk.fs.rename (place cwd src) (place cwd dst) = some t'.disk.fs → Shows c root table s' t') :
    Triple (ordinary cwd) P (rename src dst) (fun _ => Shows c root table s') (Shows c root table s) := by
  intro t ht
  refine .perform P ht ?_ ?_
  · rintro u ⟨disk', clock'⟩ _ ⟨o, hsettle, _⟩
    rcases rename_settles hsettle with ⟨fs, hr, _⟩ | ⟨e, hr, _⟩
    · cases hr
    · cases hr
  · rintro u ⟨disk', clock'⟩ x hu hstep
    have hclock := clock_le hstep
    rcases hstep with ⟨o, hsettle, _⟩
    have hlinks := (Effect.of_settle hsettle).noLinks (hP u hu).noLinks
    rcases rename_settles hsettle with ⟨fs, hr, hfs, rfl⟩ | ⟨e, hr, rfl⟩
    · cases hr
      exact hnew u _ hu hlinks hclock hfs
    · cases hr
      exact (hP u hu).of_same hlinks hclock fun _ _ => rfl

theorem rename_aside {src dst : List Char} (hsrc : place cwd src = flatPlace root table)
    (hdst : place cwd dst = legacyPlace root table) (hflat : s.flat.isSome = true)
    (hlegacy : s.legacy.isNone = true) :
    Triple (ordinary cwd) (Shows c root table s) (rename src dst)
      (fun _ => Shows c root table (moveFlat true s)) (Shows c root table s) := by
  refine rename_triple (fun _ hs => hs) fun t t' ht hlinks hclock hrename => ?_
  rw [hsrc, hdst] at hrename
  exact ht.moveFlat hlinks hclock hflat hlegacy hrename

theorem rename_shown {src dst : List Char} {name : Seg} {body : β}
    (hsrc : place cwd src = tablePlace root table (name ++ PARTIAL))
    (hdst : place cwd dst = tablePlace root table name)
    (hnew : ∀ t t', Shows c root table s t → Replaced root table name body t t' →
      Shows c root table s' t') :
    Triple (ordinary cwd) (Written c root table s name body) (rename src dst)
      (fun _ => Shows c root table s') (Shows c root table s) := by
  refine rename_triple (fun _ ht => ht.1) fun t t' ht hlinks hclock hrename => ?_
  rw [hsrc, hdst] at hrename
  exact hnew t t' ht.1 (.of_rename hlinks hclock ht.2 hrename)

end Calls

/-! ## The functions of the exporter -/

namespace QuestDBExporter

variable {c : Codec β} {cwd stagingDir : List Char} {table : List Char} {s : Staging}

theorem place_tableFile (cwd stagingDir : List Char) (htable : Name table) {name : Seg} (hname : Name name) :
    place cwd (join [join [stagingDir, table], name]) = tablePlace (place cwd stagingDir) table name := by
  rw [place_join_name _ hname, place_join_name _ htable, List.append_assoc]
  rfl

theorem place_tablePartial (cwd stagingDir : List Char) (htable : Name table) {name : Seg}
    (hname : Name name) : place cwd (join [join [stagingDir, table], name] ++ PARTIAL) =
      tablePlace (place cwd stagingDir) table (name ++ PARTIAL) := by
  rw [place_join_suffix _ _ hname (by decide) (by decide), place_join_name _ htable, List.append_assoc]
  rfl

theorem name_manifest : Name MANIFEST_JSON :=
  ⟨by decide, by decide, by decide, by decide⟩

theorem migrateLegacyFlatFile_shown (htable : Name table) {E : Clocked β → Prop} :
    Triple (ordinary cwd) (Shows c (place cwd stagingDir) table s)
      (migrateLegacyFlatFile stagingDir table)
      (fun _ t => ∃ moved, Shows c (place cwd stagingDir) table (moveFlat moved s) t) E := by
  have hname : Name (table ++ PARQUET) := name_suffix htable.noSlash (by decide) (by decide)
  have hflat : place cwd (join [stagingDir, table ++ PARQUET]) = flatPlace (place cwd stagingDir) table :=
    place_join_name stagingDir hname
  have hlegacy : place cwd (join [stagingDir, table ++ PARQUET] ++ LEGACY) =
      legacyPlace (place cwd stagingDir) table :=
    place_join_suffix cwd stagingDir hname (by decide) (by decide)
  -- nothing is moved in most of the cases
  have hstays : ∀ t, Shows c (place cwd stagingDir) table s t →
      ∃ moved, Shows c (place cwd stagingDir) table (moveFlat moved s) t :=
    fun t ht => ⟨false, by rwa [moveFlat_false]⟩
  refine .andThen (existsSync_shown fun t ht => hflat ▸ ht.flat) fun there => .of_fact fun hthere => ?_
  split
  case isFalse =>
      exact .returns hstays
  case isTrue hmove =>
      refine .andThen (existsSync_shown fun t ht => hlegacy ▸ ht.legacy) fun aside => .of_fact fun haside => ?_
      split
      case isFalse =>
          exact .returns hstays
      case isTrue hfree =>
          have hrename : Triple (ordinary cwd) (Shows c (place cwd stagingDir) table s)
              (rename (join [stagingDir, table ++ PARQUET]) (join [stagingDir, table ++ PARQUET] ++ LEGACY))
              (fun _ => Shows c (place cwd stagingDir) table (moveFlat true s))
              (Shows c (place cwd stagingDir) table s) :=
            rename_aside hflat hlegacy (hthere.symm.trans hmove) (by simpa [haside] using hfree)
          refine .catches (hrename.consequence (fun _ hs => hs) (fun _ t ht => ⟨true, ht⟩) fun _ hs => hs) ?_
          exact fun _ => .returns hstays

/-- The manifest is read as it is shown: where it cannot be read none is shown. -/
theorem readManifest_shown (htable : Name table) {E : Clocked β → Prop} :
    Triple (ordinary cwd) (Shows c (place cwd stagingDir) table s)
      (ManifestFile.readManifest c (join [stagingDir, table]))
      (fun existing t => existing = Export.readManifest s.manifest ∧
        Shows c (place cwd stagingDir) table s t) E := by
  have hpath := place_tableFile cwd stagingDir htable name_manifest
  have hop : ∀ p, Shown (place cwd stagingDir) table p →
      Apart cwd p (.readFile (join [join [stagingDir, table], MANIFEST_JSON]) : Op β) :=
    fun _ _ => trivial
  refine .catches (H := fun t => s.manifest = none ∧ Shows c (place cwd stagingDir) table s t)
    (.andThen (M := fun raw t => s.manifest = c.parse raw ∧ Shows c (place cwd stagingDir) table s t)
      ?_ fun raw => ?_) fun _ => ?_
  · intro t ht
    refine .perform (Shows c (place cwd stagingDir) table s) ht (fun _ _ hu hstep => hu.step hop hstep) ?_
    rintro u ⟨disk', clock'⟩ x hu hstep
    have hshows := hu.step hop hstep
    have hmanifest := hu.manifest
    rw [← hpath] at hmanifest
    rcases hstep with ⟨o, hsettle, hordinary, _⟩
    cases o with
    | resolves =>
        simp only [settle] at hsettle
        split at hsettle
        case h_1 bytes hfile =>
            cases hsettle
            have hparsed : manifestAt c (some (.file bytes)) = s.manifest := hfile ▸ hmanifest
            exact ⟨hparsed.symm, hshows⟩
        case h_2 =>
            cases hsettle
    | rejects message =>
        cases hsettle
        refine ⟨?_, hshows⟩
        -- no file is there, so nothing is shown
        rw [← hmanifest]
        unfold manifestAt
        split
        case h_1 raw hfile =>
            simp only [ordinaryOutcome] at hordinary
            split at hordinary
            case h_1 =>
                cases hordinary
            case h_2 hnone =>
                exact absurd hfile (hnone raw)
        case h_2 =>
            rfl
    | _ =>
        cases hsettle
  · refine .of_fact fun hraw => .returns fun t ht => ⟨?_, ht⟩
    rw [hraw]
  · exact .of_fact fun hnone => .returns fun t ht => ⟨by rw [hnone]; rfl, ht⟩

theorem exportWeekToShard_shown (htable : SAFE_TABLE_NAME table = true) (week : IsoWeek) :
    Triple (ordinary cwd) (Shows c (place cwd stagingDir) table s)
      (exportWeekToShard c table week (join [stagingDir, table]) (shardFile table week))
      (fun bytes => Shows c (place cwd stagingDir) table
        { s with shards := Function.update s.shards (shardFile table week) (some ⟨s.clock, bytes⟩) })
      (Shows c (place cwd stagingDir) table s) := by
  have hname := name_of_safeTable htable
  have hfile := name_shardFile hname.noSlash week
  have hsuffix := place_tablePartial cwd stagingDir hname hfile
  have hdisjoint : ∀ p, Shown (place cwd stagingDir) table p →
      Disjoint (place cwd (join [join [stagingDir, table], shardFile table week] ++ PARTIAL)) p := by
    intro p hp
    rw [hsuffix]
    exact hp.disjoint_partial _
  refine .andThen (.of_ensures fun t ht => ht.perform fun _ _ => trivial) fun res => ?_
  split
  case h_1 body _ _ =>
      -- whole under the other name, then under its own
      refine .andThen (.catches (write_shown body hsuffix) (cleanUp_shown hdisjoint)) fun _ => ?_
      refine .andThen (.catches (rename_shown hsuffix (place_tableFile cwd stagingDir hname hfile)
        fun t t' ht hnew => ht.shard_replaced s.clock hnew) (cleanUp_shown hdisjoint)) fun _ => ?_
      exact .returns fun _ hs => hs
  case h_2 =>
      refine .andThen (.catches (.of_ensures fun t ht => ht.perform fun _ _ => trivial)
        fun _ => .returns fun _ hs => hs) fun _ => .throws fun _ hs => hs

theorem writeManifest_shown (htable : Name table) {manifest : Manifest}
    (hparse : c.parse (c.stringify manifest) = some manifest) :
    Triple (ordinary cwd) (Shows c (place cwd stagingDir) table s)
      (ManifestFile.writeManifest c (join [stagingDir, table]) manifest)
      (fun _ => Shows c (place cwd stagingDir) table { s with manifest := some manifest })
      (Shows c (place cwd stagingDir) table s) := by
  have hsuffix := place_tablePartial cwd stagingDir htable name_manifest
  refine .andThen (write_shown (c.stringify manifest) hsuffix) fun _ => ?_
  exact rename_shown hsuffix (place_tableFile cwd stagingDir htable name_manifest)
    fun t t' ht hnew => ht.manifest_replaced hnew hparse

/-! ### The loop over the weeks -/

/-- The plan of a cycle whose transfers so far have ended as in `bytes`. -/
def planOf (table : List Char) (now : ℤ) (moved : Bool) (s : Staging) (bytes : IsoWeek → Option ℕ) : Plan :=
  exportPlan table (cycleOf now moved false bytes) s

/-- The weeks that are done are those of a cycle, and the disk shows what it has left so far. -/
def Looped (c : Codec β) (root : List Seg) (table : List Char) (now : ℤ) (moved : Bool) (s : Staging)
    (weeks : List IsoWeek) (t : Tally) (u : Clocked β) : Prop :=
  ∃ bytes p, ((planOf table now moved s bytes).exportWeeks weeks ((planOf table now moved s bytes).start s) =
      (p, true) ∧ p.clock = now ∧
      t = ⟨p.newShards, p.shardsWritten, p.shardsSkipped, p.bytesWritten⟩) ∧
    Shows c root table (midCycle now moved s p.shards) u

/-- A week has failed, and with it the loop. -/
def Broken (c : Codec β) (root : List Seg) (table : List Char) (now : ℤ) (moved : Bool) (s : Staging)
    (weeks : List IsoWeek) (u : Clocked β) : Prop :=
  ∃ bytes p, ((planOf table now moved s bytes).exportWeeks weeks ((planOf table now moved s bytes).start s) =
      (p, false) ∧ p.clock = now) ∧ Shows c root table (midCycle now moved s p.shards) u

variable {now : ℤ} {moved : Bool} {before after : List IsoWeek} {week : IsoWeek} {p : Progress}
  {bytes : IsoWeek → Option ℕ}

/-- What is done stays the same when the transfer of a later week is settled. -/
theorem exportWeeks_settled (hnew : week ∉ before)
    (hloop : (planOf table now moved s bytes).exportWeeks before ((planOf table now moved s bytes).start s) =
      (p, true)) (b : Option ℕ) :
    (planOf table now moved s (Function.update bytes week b)).exportWeeks (before ++ week :: after)
        ((planOf table now moved s (Function.update bytes week b)).start s) =
      (planOf table now moved s (Function.update bytes week b)).exportWeeks (week :: after) p := by
  have hsame : (planOf table now moved s (Function.update bytes week b)).exportWeeks before
      ((planOf table now moved s (Function.update bytes week b)).start s) = (p, true) := by
    rw [← hloop]
    refine Plan.exportWeeks_congr (planOf table now moved s bytes)
      (cycleOf now moved false (Function.update bytes week b)) rfl (fun w hw => ?_) _
    have hne : w ≠ week := fun heq => hnew (heq ▸ hw)
    simp [planOf, exportPlan, cycleOf, Function.update_of_ne hne]
  rw [Plan.exportWeeks_append, hsame]

/-- The progress after a week whose shard was written. -/
def wrote (table : List Char) (now : ℤ) (week : IsoWeek) (p : Progress) (n : ℕ) : Progress :=
  { p with
    shards := Function.update p.shards (shardFile table week) (some ⟨p.clock, n⟩)
    newShards := p.newShards ++ [⟨shardFile table week, weekStartUtc week, n, now⟩]
    shardsWritten := p.shardsWritten + 1
    bytesWritten := p.bytesWritten + n }

/-- A round that has to write fails or succeeds as its transfer does. -/
theorem exportWeek_settled (hnone : (planOf table now moved s bytes).reused week p.shards = none)
    (b : Option ℕ) :
    (planOf table now moved s (Function.update bytes week b)).exportWeek week p =
      match b with
      | none => (p, false)
      | some n => (wrote table now week p n, true) := by
  have hsame : (planOf table now moved s (Function.update bytes week b)).reused week p.shards = none := hnone
  have htransfer : (planOf table now moved s (Function.update bytes week b)).cycle.transfer week =
      { duration := 0, bytes := b } := by
    simp [planOf, exportPlan, cycleOf]
  simp only [Plan.exportWeek, Plan.exportWeekToShard, hsame, htransfer, Nat.cast_zero, add_zero]
  cases b <;> rfl

theorem exportWeek_shown (htable : SAFE_TABLE_NAME table = true) (hnew : week ∉ before) (t : Tally) :
    Triple (ordinary cwd) (Looped c (place cwd stagingDir) table now moved s before t)
      (exportWeek c table (join [stagingDir, table]) (Export.readManifest s.manifest) now t week)
      (Looped c (place cwd stagingDir) table now moved s (before ++ [week]))
      (Broken c (place cwd stagingDir) table now moved s (before ++ week :: after)) := by
  refine .of_exists fun bytes => .of_exists fun p => .of_fact ?_
  rintro ⟨hloop, hclock, rfl⟩
  have hpath := place_tableFile cwd stagingDir (name_of_safeTable htable)
    (name_shardFile (name_of_safeTable htable).noSlash week)
  refine .andThen (existsSync_shown fun u hu => hpath ▸ hu.shards week) fun onDisk => .of_fact fun hdisk => ?_
  rw [Option.isSome_map] at hdisk
  have hreused : (planOf table now moved s bytes).reused week p.shards =
      match existingShards (Export.readManifest s.manifest) (shardFile table week),
        compareIsoWeek week (isoWeekOf now) == 0 ||
          decide (0 ≤ compareIsoWeek week (churnCutoffWeek (isoWeekOf now))) || !onDisk with
      | some known, false => some known
      | _, _ => none := by
    rw [hdisk]
    exact Plan.reused_eq week p.shards
  split
  case h_1 known hknown hskip =>
      rw [hknown, hskip] at hreused
      refine .returns fun u hu => ?_
      refine ⟨bytes, { p with
        newShards := p.newShards ++ [known], shardsSkipped := p.shardsSkipped + 1 }, ⟨?_, hclock, rfl⟩, hu⟩
      rw [Plan.exportWeeks_append, hloop]
      simp only [Plan.exportWeeks, Plan.exportWeek, hreused]
  case h_2 hnot =>
      have hnone : (planOf table now moved s bytes).reused week p.shards = none := by
        rw [hreused]
        split
        case h_1 known hknown hskip =>
            exact (hnot known hknown hskip).elim
        case h_2 =>
            rfl
      refine .andThen ((exportWeekToShard_shown htable week).consequence (fun _ hu => hu)
        (fun _ _ hu => hu) fun u hu => ?_) fun n => .returns fun u hu => ?_
      · -- the transfer of this week is one that fails
        refine ⟨Function.update bytes week none, p, ⟨?_, hclock⟩, hu⟩
        rw [exportWeeks_settled hnew hloop, Plan.exportWeeks, exportWeek_settled hnone]
      · refine ⟨Function.update bytes week (some n), wrote table now week p n, ⟨?_, hclock, rfl⟩, ?_⟩
        · rw [exportWeeks_settled hnew hloop, Plan.exportWeeks, exportWeek_settled hnone]
          rfl
        · have hshards : (wrote table now week p n).shards =
              Function.update p.shards (shardFile table week) (some ⟨now, n⟩) := by
            rw [← hclock]
            rfl
          rw [hshards]
          exact hu

/-! ### The whole function -/

/-- No week comes twice. -/
theorem allWeeks_nodup (hinv : Invariant table s) {cycle : Cycle} (hclock : s.clock ≤ cycle.now) :
    (exportPlan table cycle s).allWeeks.Nodup := by
  rcases hinv.allWeeks hclock with ⟨earliest, hlo, hcutoff, hweeks, _⟩
  have hmodern : Modern earliest := modern_of_epoch (by omega)
  rw [hweeks]
  have hfiles : ((weeksBetween (weekAt earliest) (weekAt (weekIndex cycle.now))).map (shardFile table)).Nodup :=
    shardFile_nodup hmodern (hmodern.mono (by omega))
  exact hfiles.of_map

/-- The cycle, once it is known how its transfers end. -/
theorem exportTable_cycleOf {ok : Bool}
    (hloop : (planOf table now moved s bytes).exportWeeks (planOf table now moved s bytes).allWeeks
      ((planOf table now moved s bytes).start s) = (p, ok))
    (hclock : p.clock = now) (written : Bool) :
    Export.exportTable stagingDir table (cycleOf now moved written bytes) s =
      if ok && written then
        ({ midCycle now moved s p.shards with
            manifest := some ((planOf table now moved s bytes).manifest p) },
          some { table, tableDir := join [stagingDir, table], shardsWritten := p.shardsWritten
                 shardsSkipped := p.shardsSkipped, bytes := p.bytesWritten })
      else (midCycle now moved s p.shards, none) := by
  have hsame : (exportPlan table (cycleOf now moved written bytes) s).exportWeeks
      (exportPlan table (cycleOf now moved written bytes) s).allWeeks
      ((exportPlan table (cycleOf now moved written bytes) s).start s) = (p, ok) := by
    rw [← hloop]
    exact Plan.exportWeeks_congr (planOf table now moved s bytes) (cycleOf now moved written bytes) rfl
      (fun _ _ => rfl) _
  simp only [Export.exportTable, exportPlan_migrate, start_migrate, hsame]
  rw [← hclock]
  rfl

/-- What the disk shows after a cycle that began with `s`. -/
def AfterCycle (c : Codec β) (cwd stagingDir table : List Char) (s : Staging) (r : Option TableExport)
    (u : Clocked β) : Prop :=
  ∃ cycle s', s.clock ≤ cycle.now ∧ Export.exportTable stagingDir table cycle s = (s', r) ∧
    Shows c (place cwd stagingDir) table s' u

/-- A call of `exportTable` is a cycle, or nothing at all when it fails at its first step. -/
theorem exportTable_shown (hparse : ∀ m, c.parse (c.stringify m) = some m)
    (htable : SAFE_TABLE_NAME table = true) (hinv : Invariant table s) :
    Triple (ordinary cwd) (Shows c (place cwd stagingDir) table s) (exportTable c table stagingDir)
      (fun result => AfterCycle c cwd stagingDir table s (some result))
      (fun u => Shows c (place cwd stagingDir) table s u ∨ AfterCycle c cwd stagingDir table s none u) := by
  have hname := name_of_safeTable htable
  have hdir : ∀ p, Shown (place cwd stagingDir) table p →
      Apart cwd p (.mkdir (join [stagingDir, table]) : Op β) := by
    intro p hp
    rw [Apart, place_join_name stagingDir hname]
    exact hp.not_above
  refine .andThen (.consequence (.of_ensures fun u hu => hu.perform hdir) (fun _ hu => hu)
    (fun _ _ hu => hu) fun _ hu => Or.inl hu) fun _ => ?_
  refine .andThen (migrateLegacyFlatFile_shown hname) fun _ => .of_exists fun moved => ?_
  refine .andThen (readManifest_shown hname) fun existing => .of_fact ?_
  rw [moveFlat_manifest]
  rintro rfl
  refine .andThen now_shown fun now => .of_fact fun hclock => ?_
  rw [moveFlat_clock] at hclock
  -- one round for each week, none of which comes twice
  have hnodup : (planOf table now moved s fun _ => none).allWeeks.Nodup := allWeeks_nodup hinv hclock
  refine .andThen (M := Looped c (place cwd stagingDir) table now moved s
    (planOf table now moved s fun _ => none).allWeeks) ?_ fun t => .of_exists fun bytes =>
      .of_exists fun p => .of_fact ?_
  · refine .consequence (.foldlM_done (I := Looped c (place cwd stagingDir) table now moved s)
      (E := Broken c (place cwd stagingDir) table now moved s
        (planOf table now moved s fun _ => none).allWeeks) (fun before week after t hweeks => ?_) {})
      (fun u hu => ?_) (fun _ _ hu => hu) ?_
    · have hweeks' : (planOf table now moved s fun _ => none).allWeeks = before ++ week :: after := hweeks
      rw [hweeks'] at hnodup ⊢
      exact exportWeek_shown htable (List.disjoint_of_nodup_append hnodup · (by simp)) t
    · refine ⟨fun _ => none, (planOf table now moved s fun _ => none).start s, ⟨rfl, rfl, rfl⟩, ?_⟩
      have hstart : midCycle now moved s s.shards = { moveFlat moved s with clock := now } := by
        rw [midCycle, ← moveFlat_shards moved s]
      exact hstart ▸ hu
    · rintro u ⟨bytes, p, ⟨hloop, hp⟩, hu⟩
      exact Or.inr ⟨_, _, hclock, exportTable_cycleOf hloop hp false, hu⟩
  · rintro ⟨hloop, hp, rfl⟩
    -- the manifest is the last thing that can fail
    refine .andThen ((writeManifest_shown hname (hparse _)).consequence (fun _ hu => hu)
      (fun _ _ hu => hu) fun u hu => ?_) fun _ => .returns fun u hu => ?_
    · exact Or.inr ⟨_, _, hclock, exportTable_cycleOf hloop hp false, hu⟩
    · exact ⟨_, _, hclock, exportTable_cycleOf hloop hp true, hu⟩

end QuestDBExporter

end Export
end SignalKBackup
