import Mathlib.Data.List.Nodup
import SignalKBackup.Export.Closed
import SignalKBackup.Export.Iso8601

/-!
# Wellformed — manifests over the whole history of a table

* `WellFormed` says what a manifest has to look like: a run of weeks without a gap, each once and in
  order, up to the week of the cycle that wrote it;
* `Plan.requested` records the weeks a cycle asks the history plugin for, which the exporter itself
  keeps no record of;
* `exportTable_skips` says what a cycle does to a shard that is listed, on disk and before the churn
  cutoff: it is neither requested nor written, and its entry is listed again.
-/

namespace SignalKBackup
namespace Export

open Lib
open Calendar

/-! ## Weeks of a manifest -/

def Manifest.weeks (m : Manifest) : List IsoWeek :=
  m.shards.map fun e => isoWeekOf e.weekStart

/-- The entries belong to the weeks from the first one to `last`, and name their shards. -/
structure WellFormed (table : List Char) (m : Manifest) (last : IsoWeek) : Prop where
  named : ∀ e ∈ m.shards, ListedFor table (isoWeekOf e.weekStart) e
  contiguous : m.weeks.IsChain fun a b => weekStartUtc b = weekEndUtc a
  ascending : m.weeks.Pairwise fun a b => compareIsoWeek a b < 0
  current : m.weeks.getLast? = some last
  openShard : m.openShard = some (shardFile table last)

/-- The Monday of an entry gives back the week it is listed for. -/
theorem weeks_of_listed {table : List Char} {weeks : List IsoWeek} {entries : List ShardEntry}
    (hmodern : ∀ week ∈ weeks, ∃ k, Modern k ∧ week = weekAt k)
    (h : List.Forall₂ (ListedFor table) weeks entries) :
    entries.map (fun e => isoWeekOf e.weekStart) = weeks := by
  induction h with
  | nil =>
      rfl
  | cons hfirst _ ih =>
      rcases hmodern _ (List.mem_cons_self ..) with ⟨k, hk, rfl⟩
      have hrest := ih fun week hweek => hmodern week (List.mem_cons_of_mem _ hweek)
      rw [List.map_cons, hfirst.week hk, hrest]

namespace Covers

variable {table : List Char} {m : Manifest} {first last : ℤ}

theorem weeks (h : Covers table m first last) :
    m.weeks = weeksBetween (weekAt first) (weekAt last) := by
  refine weeks_of_listed (fun week hweek => ?_) h.entries
  rcases (mem_weeksBetween h.modern h.modern_last).1 hweek with ⟨k, hlo, _, rfl⟩
  exact ⟨k, h.modern.mono hlo, rfl⟩

theorem entry_unique (h : Covers table m first last) {e e' : ShardEntry} (he : e ∈ m.shards)
    (he' : e' ∈ m.shards) (hfile : e.file = e'.file) : e = e' := by
  have hnodup : (m.shards.map fun e => e.file).Nodup := by
    have hascending := weeksBetween_pairwise h.modern h.modern_last
    rw [← h.weeks, Manifest.weeks, List.pairwise_map] at hascending
    rw [List.Nodup, List.pairwise_map]
    refine hascending.imp_of_mem fun {e₁ e₂} hmem₁ hmem₂ hlt heq => ?_
    rcases h.listed hmem₁ with ⟨j, hj, _, hlisted₁⟩
    rcases h.listed hmem₂ with ⟨k, hk, _, hlisted₂⟩
    have hjk : j = k := shardFile_injective (hlisted₁.1.symm.trans (heq.trans hlisted₂.1))
    rw [hlisted₁.week (h.modern.mono hj), hlisted₂.week (h.modern.mono hk),
      compareIsoWeek_neg_iff] at hlt
    omega
  exact List.inj_on_of_nodup_map hnodup he he' hfile

theorem wellFormed (h : Covers table m first last) : WellFormed table m (weekAt last) where
  named := by
    intro e he
    rcases h.listed he with ⟨k, hlo, _, hlisted⟩
    rw [hlisted.week (h.modern.mono hlo)]
    exact hlisted
  contiguous := h.weeks ▸ weeksBetween_chain h.modern h.modern_last
  ascending := h.weeks ▸ weeksBetween_pairwise h.modern h.modern_last
  current := h.weeks ▸ (weeksBetween_ends h.modern h.ordered).2
  openShard := h.openShard

theorem head (h : Covers table m first last) : m.weeks.head? = some (weekAt first) :=
  h.weeks ▸ (weeksBetween_ends h.modern h.ordered).1

end Covers

/-! ## Weeks that are skipped -/

namespace Plan

variable {plan : Plan}

/-- The weeks whose rows are requested, up to the first one that throws. -/
def requested (plan : Plan) : List IsoWeek → Progress → List IsoWeek
  | [], _ => []
  | week :: weeks, p =>
      let sent := if (plan.reused week p.shards).isSome then [] else [week]
      match plan.exportWeek week p with
      | (_, false) => sent
      | (p', true) => sent ++ requested plan weeks p'

/-- A round that skips its week touches no shard; any other touches the week's own file. -/
theorem exportWeek_shards {week : IsoWeek} {p : Progress} {file : List Char}
    (hskip : plan.file week = file → plan.reused week p.shards ≠ none) :
    (plan.exportWeek week p).1.shards file = p.shards file := by
  rcases plan.exportWeek_cases week p with ⟨known, _, heq⟩ | ⟨d, _, heq⟩ | ⟨d, bytes, hnone, heq⟩
  · rw [heq]
  · rw [heq]
  · have hother : file ≠ plan.file week := fun hfile => hskip hfile.symm hnone
    rw [heq]
    simp [hother]

/-- What a round finds for a week is what the next one finds, as long as the file is not touched. -/
theorem reused_congr {week : IsoWeek} {shards shards' : List Char → Option Shard}
    (h : shards' (plan.file week) = shards (plan.file week)) :
    plan.reused week shards' = plan.reused week shards := by
  simp only [reused, h]

theorem requested_skipped {weeks : List IsoWeek} {p : Progress} {file : List Char}
    (hskip : ∀ week ∈ weeks, plan.file week = file → plan.reused week p.shards ≠ none) :
    ∀ week ∈ plan.requested weeks p, plan.file week ≠ file := by
  induction weeks generalizing p with
  | nil =>
      simp [requested]
  | cons first weeks ih =>
      have hfirst := exportWeek_shards (hskip first (by simp))
      have hsent : ∀ week ∈ (if (plan.reused first p.shards).isSome then [] else [first]),
          plan.file week ≠ file := by
        intro week hweek hfile
        split at hweek
        case isTrue =>
            cases hweek
        case isFalse hnone =>
            rw [List.mem_singleton.1 hweek] at hfile
            exact hskip first (by simp) hfile (by simpa using hnone)
      intro week hweek
      rw [requested] at hweek
      split at hweek
      case h_1 =>
          exact hsent week hweek
      case h_2 q hround =>
          rcases List.mem_append.1 hweek with hweek | hweek
          · exact hsent week hweek
          · refine ih (fun w hw hfile => ?_) week hweek
            rw [hround] at hfirst
            rw [reused_congr (by rw [hfile, hfirst])]
            exact hskip w (by simp [hw]) hfile

theorem exportWeek_lists {week : IsoWeek} {p p' : Progress} {ok : Bool} {e : ShardEntry}
    (h : plan.exportWeek week p = (p', ok)) (he : e ∈ p.newShards) : e ∈ p'.newShards := by
  rcases plan.exportWeek_cases week p with ⟨known, _, heq⟩ | ⟨d, _, heq⟩ | ⟨d, bytes, _, heq⟩
  · cases heq.symm.trans h
    simp [he]
  · cases heq.symm.trans h
    exact he
  · cases heq.symm.trans h
    simp [he]

theorem exportWeeks_lists {weeks : List IsoWeek} {p p' : Progress} {ok : Bool} {e : ShardEntry}
    (h : plan.exportWeeks weeks p = (p', ok)) (he : e ∈ p.newShards) : e ∈ p'.newShards := by
  induction weeks generalizing p with
  | nil =>
      cases h
      exact he
  | cons week weeks ih =>
      rw [exportWeeks] at h
      split at h
      case h_1 q hround =>
          cases h
          exact exportWeek_lists hround he
      case h_2 q hround =>
          exact ih h (exportWeek_lists hround he)

/-- A loop that finishes lists the entry it reuses. -/
theorem exportWeeks_reuses {weeks : List IsoWeek} {p p' : Progress} {file : List Char}
    {known : ShardEntry} (h : plan.exportWeeks weeks p = (p', true))
    (hskip : ∀ week ∈ weeks, plan.file week = file → plan.reused week p.shards = some known)
    {week : IsoWeek} (hmem : week ∈ weeks) (hfile : plan.file week = file) :
    known ∈ p'.newShards := by
  induction weeks generalizing p with
  | nil =>
      cases hmem
  | cons first weeks ih =>
      rw [exportWeeks] at h
      split at h
      case h_1 =>
          cases h
      case h_2 q hround =>
          have hfirst := exportWeek_shards fun hf => by
            rw [hskip first (by simp) hf]
            exact Option.some_ne_none known
          rw [hround] at hfirst
          rcases List.mem_cons.1 hmem with rfl | hmem'
          · -- the entry is appended in this round and stays on the list
            refine exportWeeks_lists h ?_
            rw [exportWeek, hskip _ (by simp) hfile] at hround
            cases hround
            simp
          · refine ih h (fun w hw hf => ?_) hmem'
            rw [reused_congr (by rw [hf, hfirst])]
            exact hskip w (by simp [hw]) hf

end Plan

/-- A listed shard that is on disk and before the churn cutoff is reused by every round for its
file. -/
theorem Invariant.reused {table : List Char} {c : Cycle} {s : Staging} (hinv : Invariant table s)
    (hclock : s.clock ≤ c.now) {m : Manifest} {e : ShardEntry} (hm : s.manifest = some m)
    (he : e ∈ m.shards) (hdisk : (s.shards e.file).isSome)
    (hold : compareIsoWeek (isoWeekOf e.weekStart) (churnCutoffWeek (isoWeekOf c.now)) < 0) :
    (∀ week ∈ (exportPlan table c s).allWeeks, (exportPlan table c s).file week = e.file →
      (exportPlan table c s).reused week s.shards = some e) ∧
    ∃ week ∈ (exportPlan table c s).allWeeks, (exportPlan table c s).file week = e.file := by
  rcases hinv.manifest m hm with ⟨first, last, _, _, hcovers⟩
  rcases hcovers.listed he with ⟨k, hlo, hhi, hlisted⟩
  rcases hinv.allWeeks hclock with ⟨earliest, hepoch, _, hweeks, hearliest⟩
  have hfirst := hearliest m first last hm hcovers
  have hmodern : Modern earliest := modern_of_epoch (by omega)
  have hcutoff := hinv.churnCutoff hclock
  have hbefore : k < weekIndex c.now - 4 := by
    simp only [exportPlan] at hcutoff
    rw [hlisted.week (hcovers.modern.mono hlo), hcutoff, compareIsoWeek_neg_iff] at hold
    exact hold
  rw [hweeks]
  simp only [mem_weeksBetween hmodern (hmodern.mono (show earliest ≤ weekIndex c.now by omega))]
  constructor
  · rintro _ ⟨j, _, _, rfl⟩ hfile
    have hjk : j = k := shardFile_injective (hfile.trans hlisted.1)
    have hopen : (exportPlan table c s).isOpen (weekAt j) = false := by
      simp only [Plan.isOpen, hinv.currentWeek hclock, beq_eq_false_iff_ne, ne_eq,
        compareIsoWeek_eq_zero_iff]
      omega
    have hchurn : (exportPlan table c s).inChurnWindow (weekAt j) = false := by
      simp only [Plan.inChurnWindow, hcutoff, decide_eq_false_iff_not, not_le,
        compareIsoWeek_neg_iff]
      omega
    have hknown : existingShards (some m) e.file = some e := by
      rcases existingShards_isSome he with ⟨e', he'⟩
      rcases existingShards_eq_some he' with ⟨m', hm', hmem, hfile'⟩
      cases hm'
      rw [he', hcovers.entry_unique hmem he hfile']
    simp only [Plan.reused, hopen, hchurn, hfile, hinv.existing, hm, hknown, hdisk]
    rfl
  · exact ⟨weekAt k, ⟨k, by omega, by omega, rfl⟩, hlisted.1.symm⟩

/-! ## Every cycle of every history -/

/-- The weeks a cycle requests. -/
def requestedWeeks (table : List Char) (c : Cycle) (s : Staging) : List IsoWeek :=
  let plan := exportPlan table c s
  plan.requested plan.allWeeks (plan.start s)

theorem exportTable_skips {stagingDir table : List Char} {c : Cycle} {s s' : Staging}
    {r : Option TableExport} (hinv : Invariant table s) (hclock : s.clock ≤ c.now)
    (h : exportTable stagingDir table c s = (s', r)) {m : Manifest} {e : ShardEntry}
    (hm : s.manifest = some m) (he : e ∈ m.shards) (hdisk : (s.shards e.file).isSome)
    (hold : compareIsoWeek (isoWeekOf e.weekStart) (churnCutoffWeek (isoWeekOf c.now)) < 0) :
    (∀ week ∈ requestedWeeks table c s, shardFile table week ≠ e.file) ∧
      s'.shards e.file = s.shards e.file ∧ ∀ m' ∈ s'.manifest, e ∈ m'.shards := by
  rcases hinv.reused hclock hm he hdisk hold with ⟨hreused, week, hweek, hfile⟩
  have hskip : ∀ w ∈ (exportPlan table c s).allWeeks, (exportPlan table c s).file w = e.file →
      (exportPlan table c s).reused w s.shards ≠ none := by
    intro w hw hf
    rw [hreused w hw hf]
    exact Option.some_ne_none e
  rcases exportTable_cases h with ⟨p, ok, hloop, _, hshards, hmanifest⟩
  refine ⟨Plan.requested_skipped hskip, ?_, ?_⟩
  · rw [hshards]
    exact Plan.exportWeeks_skipped hloop hskip
  · intro m' hm'
    rcases hmanifest with ⟨_, hsame⟩ | ⟨_, rfl, hnew⟩
    · -- the manifest of a failed cycle is the one before it
      cases hm.symm.trans (hsame.symm.trans hm')
      exact he
    · cases hnew.symm.trans hm'
      exact Plan.exportWeeks_reuses hloop hreused hweek hfile

theorem exportTable_wellFormed {stagingDir table : List Char} {c : Cycle} {s s' : Staging}
    {result : TableExport} (hinv : Invariant table s) (hclock : s.clock ≤ c.now)
    (h : exportTable stagingDir table c s = (s', some result)) :
    ∃ m first, s'.manifest = some m ∧ WellFormed table m (isoWeekOf c.now) ∧
      m.weeks.head? = some first ∧
      compareIsoWeek first (churnCutoffWeek (isoWeekOf c.now)) ≤ 0 ∧
      ∀ m₀ ∈ s.manifest, ∀ first₀ ∈ m₀.weeks.head?, compareIsoWeek first first₀ ≤ 0 := by
  rcases exportTable_covers hinv hclock h with
    ⟨m, earliest, hm, hcovers, _, hcutoff, _, hearliest⟩
  have hcurrent := hinv.currentWeek hclock
  have hchurn := hinv.churnCutoff hclock
  simp only [exportPlan] at hcurrent hchurn
  refine ⟨m, weekAt earliest, hm, ?_, hcovers.head, ?_, ?_⟩
  · rw [hcurrent]
    exact hcovers.wellFormed
  · rw [hchurn, ← not_lt, compareIsoWeek_pos_iff]
    omega
  · intro m₀ hm₀ first₀ hfirst₀
    rcases hinv.manifest m₀ hm₀ with ⟨first, last, _, _, hcovers₀⟩
    have hle := hearliest m₀ first last hm₀ hcovers₀
    cases hcovers₀.head.symm.trans hfirst₀
    rw [← not_lt, compareIsoWeek_pos_iff]
    omega

/-- Whatever cycles came before: the next one leaves a manifest that is read back as it is, replaces
it by a well-formed one or not at all, and leaves alone what is listed, on disk and before the churn
cutoff. -/
theorem reachable_wellFormed {stagingDir table : List Char} {c : Cycle} {s s' : Staging}
    {r : Option TableExport} (hreach : (questdb stagingDir table).Reachable Fresh s)
    (hclock : s.clock ≤ c.now) (h : exportTable stagingDir table c s = (s', r)) :
    readManifest s'.manifest = s'.manifest ∧
    (r = none → s'.manifest = s.manifest) ∧
    (∀ result, r = some result →
      ∃ m first, s'.manifest = some m ∧ WellFormed table m (isoWeekOf c.now) ∧
        m.weeks.head? = some first ∧
        compareIsoWeek first (churnCutoffWeek (isoWeekOf c.now)) ≤ 0 ∧
        ∀ m₀ ∈ s.manifest, ∀ first₀ ∈ m₀.weeks.head?, compareIsoWeek first first₀ ≤ 0) ∧
    ∀ m₀ ∈ s.manifest, ∀ e ∈ m₀.shards, (s.shards e.file).isSome →
      compareIsoWeek (isoWeekOf e.weekStart) (churnCutoffWeek (isoWeekOf c.now)) < 0 →
        (∀ week ∈ requestedWeeks table c s, shardFile table week ≠ e.file) ∧
          s'.shards e.file = s.shards e.file ∧ ∀ m ∈ s'.manifest, e ∈ m.shards := by
  have hinv := reachable_invariant hreach
  refine ⟨(hinv.step hclock h).readManifest, ?_, ?_, ?_⟩
  · rintro rfl
    rcases exportTable_cases h with ⟨_, _, _, _, _, ⟨_, hsame⟩ | ⟨⟨_, hr⟩, _⟩⟩
    · exact hsame
    · cases hr
  · rintro result rfl
    exact exportTable_wellFormed hinv hclock h
  · intro m₀ hm₀ e he hdisk hold
    exact exportTable_skips hinv hclock h hm₀ he hdisk hold

/-- Five weeks after the first cycle, the shard of the week before that cycle is left alone. -/
theorem reachable_wellFormed_later :
    ∃ s e, (questdb ['/'] SIGNALK).run emptyStaging [quietCycle wednesday] = some s ∧
      e.file = shardFile SIGNALK (isoWeekOf (wednesday - 7 * msPerDay)) ∧
      (exportTable ['/'] SIGNALK (quietCycle (wednesday + 35 * msPerDay)) s).1.shards e.file =
        s.shards e.file ∧
      ∀ m ∈ (exportTable ['/'] SIGNALK (quietCycle (wednesday + 35 * msPerDay)) s).1.manifest,
        e ∈ m.shards := by
  have hrun : ((questdb ['/'] SIGNALK).run emptyStaging [quietCycle wednesday]).any (fun s =>
      decide (s.clock ≤ wednesday + 35 * msPerDay) &&
        s.manifest.any fun m => m.shards.any fun e =>
          e.file = shardFile SIGNALK (isoWeekOf (wednesday - 7 * msPerDay)) &&
          (s.shards e.file).isSome &&
          decide (compareIsoWeek (isoWeekOf e.weekStart)
            (churnCutoffWeek (isoWeekOf (wednesday + 35 * msPerDay))) < 0)) = true := by
    decide +kernel
  rcases (Option.any_eq_true _ _).1 hrun with ⟨s, hs, hstate⟩
  simp only [Bool.and_eq_true, decide_eq_true_eq] at hstate
  rcases (Option.any_eq_true _ _).1 hstate.2 with ⟨m, hm, hentry⟩
  rcases List.any_eq_true.1 hentry with ⟨e, he, hbefore⟩
  simp only [Bool.and_eq_true, decide_eq_true_eq] at hbefore
  have hreach := Machine.Reachable.run (.init emptyStaging_fresh) hs
  have hnext := (reachable_wellFormed hreach (c := quietCycle (wednesday + 35 * msPerDay))
    hstate.1 rfl).2.2.2 m hm e he hbefore.1.2 hbefore.2
  exact ⟨s, e, hs, hbefore.1.1, hnext.2.1, hnext.2.2⟩

end Export
end SignalKBackup
