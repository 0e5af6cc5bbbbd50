import SignalKBackup.Export.Questdb

/-!
# Coverage — which weeks a manifest lists

`Covers` says that a manifest lists the weeks from a first to a last one, each once and in order.
Every cycle that succeeds writes a manifest that covers the weeks from no later than before up to
the current one (`exportTable_covers`), and `Invariant` is kept by every cycle, whether it succeeds
or fails (`Invariant.step`).
-/

namespace SignalKBackup
namespace Export

open Lib
open Calendar

/-! ## Entries and the weeks they are listed for -/

theorem ListedFor.week {table : List Char} {k : ℤ} {e : ShardEntry} (hk : Modern k)
    (h : ListedFor table (weekAt k) e) : isoWeekOf e.weekStart = weekAt k := by
  rw [h.2, weekStartUtc_weekAt hk, isoWeekOf_mondayOf hk]

theorem ListedFor.weekEnd {table : List Char} {k : ℤ} {e : ShardEntry} (hk : Modern k)
    (h : ListedFor table (weekAt k) e) : weekEndUtc (isoWeekOf e.weekStart) = mondayOf (k + 1) := by
  rw [h.week hk, weekEndUtc_weekAt hk]

theorem mem_of_listed {table : List Char} {weeks : List IsoWeek} {entries : List ShardEntry}
    (h : List.Forall₂ (ListedFor table) weeks entries) :
    (∀ week ∈ weeks, ∃ e ∈ entries, ListedFor table week e) ∧
      ∀ e ∈ entries, ∃ week ∈ weeks, ListedFor table week e := by
  induction h with
  | nil =>
      simp
  | cons hfirst _ ih =>
      constructor
      · intro week hweek
        rcases List.mem_cons.1 hweek with rfl | hweek
        · exact ⟨_, by simp, hfirst⟩
        · rcases ih.1 week hweek with ⟨e, he, hlisted⟩
          exact ⟨e, by simp [he], hlisted⟩
      · intro e he
        rcases List.mem_cons.1 he with rfl | he
        · exact ⟨_, by simp, hfirst⟩
        · rcases ih.2 e he with ⟨week, hweek, hlisted⟩
          exact ⟨week, by simp [hweek], hlisted⟩

/-! ## Manifests that cover a range of weeks -/

/-- The manifest lists the weeks from `first` to `last`, the last one as open. -/
structure Covers (table : List Char) (m : Manifest) (first last : ℤ) : Prop where
  ordered : first ≤ last
  modern : Modern first
  schema : m.schemaVersion = MANIFEST_SCHEMA_VERSION
  openShard : m.openShard = some (shardFile table (weekAt last))
  entries : List.Forall₂ (ListedFor table) (weeksBetween (weekAt first) (weekAt last)) m.shards

namespace Covers

variable {table : List Char} {m : Manifest} {first last : ℤ}

theorem modern_last (h : Covers table m first last) : Modern last :=
  h.modern.mono h.ordered

theorem entry (h : Covers table m first last) {k : ℤ} (hlo : first ≤ k) (hhi : k ≤ last) :
    ∃ e ∈ m.shards, ListedFor table (weekAt k) e :=
  (mem_of_listed h.entries).1 _
    ((mem_weeksBetween h.modern h.modern_last).2 ⟨k, hlo, hhi, rfl⟩)

theorem listed (h : Covers table m first last) {e : ShardEntry} (he : e ∈ m.shards) :
    ∃ k, first ≤ k ∧ k ≤ last ∧ ListedFor table (weekAt k) e := by
  rcases (mem_of_listed h.entries).2 e he with ⟨week, hweek, hlisted⟩
  rcases (mem_weeksBetween h.modern h.modern_last).1 hweek with ⟨k, hlo, hhi, rfl⟩
  exact ⟨k, hlo, hhi, hlisted⟩

theorem openShard_iff (h : Covers table m first last) {k : ℤ} {e : ShardEntry}
    (he : ListedFor table (weekAt k) e) : m.openShard = some e.file ↔ k = last := by
  rw [h.openShard, he.1, Option.some_inj]
  constructor
  · intro heq
    exact (shardFile_injective heq).symm
  · rintro rfl
    rfl

/-- The exporter reads back what it wrote. -/
theorem isManifest (h : Covers table m first last) : isManifest m = true := by
  simp only [Export.isManifest, Bool.and_eq_true, beq_iff_eq, List.all_eq_true, bne_iff_ne]
  refine ⟨h.schema, fun e he => ?_⟩
  rcases h.listed he with ⟨k, _, _, hlisted⟩
  rw [hlisted.1]
  exact shardFile_ne_nil table _

theorem existing (h : Covers table m first last) {k : ℤ} {e : ShardEntry}
    (he : existingShards (some m) (shardFile table (weekAt k)) = some e) :
    e ∈ m.shards ∧ ListedFor table (weekAt k) e := by
  rcases existingShards_eq_some he with ⟨m', hm', hmem, hfile⟩
  cases hm'
  rcases h.listed hmem with ⟨j, _, _, hlisted⟩
  have hjk : j = k := shardFile_injective (hlisted.1.symm.trans hfile)
  exact ⟨hmem, hjk ▸ hlisted⟩

end Covers

/-- The reduction of `earliestWeekFromManifest` yields a least element. -/
theorem foldl_least (rest : List ℤ) (first : ℤ) :
    rest.foldl (fun a b => if a < b then a else b) first ∈ first :: rest ∧
      ∀ t ∈ first :: rest, rest.foldl (fun a b => if a < b then a else b) first ≤ t := by
  induction rest generalizing first with
  | nil =>
      simp
  | cons next rest ih =>
      rcases ih (if first < next then first else next) with ⟨hmem, hle⟩
      -- the running minimum is below both of the first two
      have hboth := hle _ (List.mem_cons_self ..)
      constructor
      · rcases List.mem_cons.1 hmem with heq | hrest
        · rw [List.foldl_cons, heq]
          split <;> simp
        · exact List.mem_cons_of_mem _ (List.mem_cons_of_mem _ hrest)
      · intro t ht
        simp only [List.mem_cons] at ht
        rw [List.foldl_cons]
        rcases ht with rfl | rfl | ht
        · refine le_trans hboth ?_
          split <;> omega
        · refine le_trans hboth ?_
          split <;> omega
        · exact hle t (List.mem_cons_of_mem _ ht)

theorem earliestWeekFromManifest_eq {table : List Char} {m : Manifest} {first last : ℤ}
    (h : Covers table m first last) : earliestWeekFromManifest (some m) = some (weekAt first) := by
  rcases h.entry le_rfl h.ordered with ⟨e, he, hlisted⟩
  cases hstarts : m.shards.map ShardEntry.weekStart with
  | nil =>
      simp only [List.map_eq_nil_iff] at hstarts
      rw [hstarts] at he
      cases he
  | cons t rest =>
      simp only [earliestWeekFromManifest, Option.map_some, hstarts, Option.some_inj]
      -- the least Monday is that of an entry, and the first week has one
      rcases foldl_least rest t with ⟨hmem, hle⟩
      have hfirst := hle e.weekStart (hstarts ▸ List.mem_map_of_mem he)
      rw [← hstarts, List.mem_map] at hmem
      rcases hmem with ⟨e', he', heq⟩
      rcases h.listed he' with ⟨k, hlo, hhi, hlisted'⟩
      have hk : Modern k := h.modern.mono hlo
      -- the least Monday is not after the first week's, so it is that one
      rw [← heq, hlisted.2, hlisted'.2, weekStartUtc_weekAt hk, weekStartUtc_weekAt h.modern,
        mondayOf_le_iff] at hfirst
      rw [← heq, hlisted'.week hk, le_antisymm hfirst hlo]

theorem churnCutoffWeek_weekAt {k : ℤ} (h : Modern (k - 4)) :
    churnCutoffWeek (weekAt k) = weekAt (k - 4) := by
  have hback : mondayOf k - ROLLING_CHURN_WEEKS * 7 * 86400000 = mondayOf (k - 4) := by
    unfold mondayOf ROLLING_CHURN_WEEKS msPerDay
    ring
  rw [churnCutoffWeek, weekStartUtc_weekAt (h.mono (by omega)), hback, isoWeekOf_mondayOf h]

/-! ## What a cycle leaves -/

@[simp] theorem migrate_manifest (c : Cycle) (s : Staging) :
    (migrateLegacyFlatFile c s).manifest = s.manifest := by
  unfold migrateLegacyFlatFile
  split <;> rfl

@[simp] theorem migrate_shards (c : Cycle) (s : Staging) :
    (migrateLegacyFlatFile c s).shards = s.shards := by
  unfold migrateLegacyFlatFile
  split <;> rfl

@[simp] theorem exportPlan_migrate (table : List Char) (c : Cycle) (s : Staging) :
    exportPlan table c (migrateLegacyFlatFile c s) = exportPlan table c s := by
  simp [exportPlan]

@[simp] theorem start_migrate (plan : Plan) (c : Cycle) (s : Staging) :
    plan.start (migrateLegacyFlatFile c s) = plan.start s := by
  simp [Plan.start]

/-- The clock and the shards are those the loop ends with; the manifest is replaced exactly when the
cycle succeeds. -/
theorem exportTable_cases {stagingDir table : List Char} {c : Cycle} {s s' : Staging}
    {r : Option TableExport} (h : exportTable stagingDir table c s = (s', r)) :
    ∃ p ok, (exportPlan table c s).exportWeeks (exportPlan table c s).allWeeks
          ((exportPlan table c s).start s) = (p, ok) ∧
      s'.clock = p.clock ∧ s'.shards = p.shards ∧
        ((r = none ∧ s'.manifest = s.manifest) ∨
          (∃ result, r = some result) ∧ ok = true ∧
            s'.manifest = some ((exportPlan table c s).manifest p)) := by
  simp only [exportTable, exportPlan_migrate, start_migrate] at h
  refine ⟨_, _, rfl, ?_⟩
  split at h
  case isTrue hdone =>
      cases h
      exact ⟨rfl, rfl, Or.inr ⟨⟨_, rfl⟩, (Bool.and_eq_true_iff.1 hdone).1, rfl⟩⟩
  case isFalse =>
      cases h
      exact ⟨rfl, rfl, Or.inl ⟨rfl, migrate_manifest c s⟩⟩

/-! ## The invariant -/

/-- The table directory as cycles leave it: the manifest, if there is one, covers the weeks up to
one that has begun. -/
structure Invariant (table : List Char) (s : Staging) : Prop where
  epoch : 0 ≤ s.clock
  manifest : ∀ m, s.manifest = some m →
    ∃ first last, -4 ≤ first ∧ mondayOf last ≤ s.clock ∧ Covers table m first last

/-- No manifest yet; the clock reads no time before 1970. -/
def Fresh (s : Staging) : Prop :=
  0 ≤ s.clock ∧ s.manifest = none

theorem Fresh.invariant {table : List Char} {s : Staging} (h : Fresh s) : Invariant table s := by
  refine ⟨h.1, fun m hm => ?_⟩
  rw [h.2] at hm
  cases hm

namespace Invariant

variable {table : List Char} {s : Staging} {c : Cycle}

theorem readManifest (h : Invariant table s) : readManifest s.manifest = s.manifest := by
  cases hm : s.manifest with
  | none =>
      rfl
  | some m =>
      rcases h.manifest m hm with ⟨first, last, _, _, hcovers⟩
      simp [Export.readManifest, hcovers.isManifest]

theorem existing (h : Invariant table s) : (exportPlan table c s).existing = s.manifest :=
  h.readManifest

theorem week_nonneg (h : Invariant table s) (hclock : s.clock ≤ c.now) : 0 ≤ weekIndex c.now := by
  have hepoch := h.epoch
  rw [le_weekIndex_iff, mondayOf, msPerDay]
  omega

theorem currentWeek (h : Invariant table s) (hclock : s.clock ≤ c.now) :
    (exportPlan table c s).currentWeek = weekAt (weekIndex c.now) := by
  have hweek := h.week_nonneg hclock
  exact isoWeekOf_eq (modern_of_epoch (by omega))

theorem churnCutoff (h : Invariant table s) (hclock : s.clock ≤ c.now) :
    (exportPlan table c s).churnCutoff = weekAt (weekIndex c.now - 4) := by
  have hweek := h.week_nonneg hclock
  have hcurrent := h.currentWeek hclock
  simp only [exportPlan] at hcurrent ⊢
  rw [hcurrent, churnCutoffWeek_weekAt (modern_of_epoch (by omega))]

/-- A cycle goes through the weeks from one not after the manifest's first week, and not after the
churn cutoff, up to the current one. -/
theorem allWeeks (h : Invariant table s) (hclock : s.clock ≤ c.now) :
    ∃ earliest, -4 ≤ earliest ∧ earliest ≤ weekIndex c.now - 4 ∧
      (exportPlan table c s).allWeeks =
        weeksBetween (weekAt earliest) (weekAt (weekIndex c.now)) ∧
      ∀ m first last, s.manifest = some m → Covers table m first last → earliest ≤ first := by
  have hweek := h.week_nonneg hclock
  rw [Plan.allWeeks, h.existing, h.churnCutoff hclock, h.currentWeek hclock]
  cases hm : s.manifest with
  | none =>
      exact ⟨weekIndex c.now - 4, by omega, le_rfl, rfl, fun m _ _ hm' => by cases hm'⟩
  | some m =>
      rcases h.manifest m hm with ⟨first, last, hlo, _, hcovers⟩
      have hfirst : ∀ m' first' last', some m = some m' → Covers table m' first' last' →
          first = first' := by
        intro m' first' last' hm' hcovers'
        cases hm'
        have heq := earliestWeekFromManifest_eq hcovers
        rw [earliestWeekFromManifest_eq hcovers', Option.some_inj] at heq
        exact (weekAt_injective heq).symm
      simp only [earliestWeek, earliestWeekFromManifest_eq hcovers, compareIsoWeek_neg_iff]
      by_cases hbefore : first < weekIndex c.now - 4
      · refine ⟨first, hlo, by omega, by rw [if_pos hbefore], fun m' first' last' hm' hcovers' => ?_⟩
        exact (hfirst m' first' last' hm' hcovers').le
      · refine ⟨weekIndex c.now - 4, by omega, le_rfl, by rw [if_neg hbefore],
          fun m' first' last' hm' hcovers' => ?_⟩
        have heq := hfirst m' first' last' hm' hcovers'
        omega

theorem known (h : Invariant table s) {k : ℤ} {e : ShardEntry}
    (he : existingShards (exportPlan table c s).existing (shardFile table (weekAt k)) = some e) :
    ∃ m first last, s.manifest = some m ∧ Covers table m first last ∧
      e ∈ m.shards ∧ ListedFor table (weekAt k) e := by
  rw [h.existing] at he
  cases hm : s.manifest with
  | none =>
      simp [hm, existingShards] at he
  | some m =>
      rcases h.manifest m hm with ⟨first, last, _, _, hcovers⟩
      rw [hm] at he
      exact ⟨m, first, last, rfl, hcovers, hcovers.existing he⟩

end Invariant

/-- A cycle that succeeds lists the weeks from the manifest's first week, or from the churn cutoff,
whichever is earlier, to the current week. -/
theorem exportTable_covers {stagingDir table : List Char} {c : Cycle} {s s' : Staging}
    {result : TableExport} (hinv : Invariant table s) (hclock : s.clock ≤ c.now)
    (h : exportTable stagingDir table c s = (s', some result)) :
    ∃ m earliest, s'.manifest = some m ∧ Covers table m earliest (weekIndex c.now) ∧
      -4 ≤ earliest ∧ earliest ≤ weekIndex c.now - 4 ∧
      (exportPlan table c s).allWeeks = weeksBetween (weekAt earliest) (weekAt (weekIndex c.now)) ∧
        ∀ m₀ first last, s.manifest = some m₀ → Covers table m₀ first last → earliest ≤ first := by
  rcases exportTable_cases h with ⟨p, ok, hloop, _, _, ⟨hr, _⟩ | ⟨_, rfl, hmanifest⟩⟩
  · cases hr
  rcases hinv.allWeeks hclock with ⟨earliest, hlo, hcutoff, hweeks, hfirst⟩
  have hmodern : Modern earliest := modern_of_epoch (by omega)
  refine ⟨_, earliest, hmanifest, ?_, hlo, hcutoff, hweeks, hfirst⟩
  refine ⟨by omega, hmodern, rfl, ?_, ?_⟩
  · simp only [Plan.manifest, Plan.file, hinv.currentWeek hclock]
    rfl
  · -- the entries that are reused are listed for the weeks they are reused for
    have hknown : ∀ week ∈ (exportPlan table c s).allWeeks, ∀ e,
        existingShards (exportPlan table c s).existing ((exportPlan table c s).file week) = some e →
          ListedFor table week e := by
      intro week hweek e he
      rw [hweeks, mem_weeksBetween hmodern (hmodern.mono (by omega))] at hweek
      rcases hweek with ⟨k, _, _, rfl⟩
      rcases hinv.known he with ⟨_, _, _, _, _, _, hlisted⟩
      exact hlisted
    rcases Plan.exportWeeks_listed hknown hloop with ⟨entries, hlist, hentries⟩
    have hnew : ((exportPlan table c s).manifest p).shards = entries := hlist
    rw [← hweeks, hnew]
    exact hentries

theorem Invariant.step {stagingDir table : List Char} {c : Cycle} {s s' : Staging}
    {r : Option TableExport} (hinv : Invariant table s) (hclock : s.clock ≤ c.now)
    (h : exportTable stagingDir table c s = (s', r)) : Invariant table s' := by
  have hepoch := hinv.epoch
  rcases exportTable_cases h with ⟨p, ok, hloop, hclock', _, hmanifest⟩
  have hnow : c.now ≤ s'.clock := by
    rw [hclock']
    exact (Plan.exportWeeks_refetched le_rfl hloop).1
  refine ⟨by omega, fun m hm => ?_⟩
  cases r with
  -- the manifest stays, and the clock goes on
  | none =>
      have hsame : s'.manifest = s.manifest := by
        rcases hmanifest with ⟨_, hsame⟩ | ⟨⟨_, hr⟩, _⟩
        · exact hsame
        · cases hr
      rcases hinv.manifest m (hsame.symm.trans hm) with ⟨first, last, hlo, hlast, hcovers⟩
      exact ⟨first, last, hlo, by omega, hcovers⟩
  | some result =>
      rcases exportTable_covers hinv hclock h with ⟨m', earliest, hm', hcovers, hlo, _⟩
      cases hm'.symm.trans hm
      have hmonday := le_weekIndex_iff.1 (le_refl (weekIndex c.now))
      exact ⟨earliest, _, hlo, by omega, hcovers⟩

end Export
end SignalKBackup
