import SignalKBackup.Config.Semver

/-!
# ServerUpdate — the release "auto" may move to
-/

namespace SignalKBackup

open Config

def majorOf (tag : String) : Nat :=
  Number ((tag.toList.splitOn '.').headD [])

/-- The release "auto" should move to, or `none` to stay: a newer final release of the running
major that has not failed before. -/
def pickServerUpdate (current : String) (latest : Option String) (failed : List String) :
    Option String :=
  match latest with
  | none => none
  | some latest =>
      if !isConcreteSemver latest || latest.toList.contains '-' then none
      else if !isConcreteSemver current || compareSemver latest current ≤ 0 then none
      else if majorOf latest != majorOf current then none
      else if failed.contains latest then none
      else some latest

theorem pickServerUpdate_eq_some {current latest r : String} {failed : List String} :
    pickServerUpdate current (some latest) failed = some r ↔
      r = latest ∧ isConcreteSemver latest = true ∧ '-' ∉ latest.toList ∧
        isConcreteSemver current = true ∧ 0 < compareSemver latest current ∧
        majorOf latest = majorOf current ∧ latest ∉ failed := by
  simp only [pickServerUpdate]
  constructor
  · intro h
    split at h
    · cases h
    · split at h
      · cases h
      · split at h
        · cases h
        · split at h
          · cases h
          · simp_all
  · rintro ⟨rfl, hconcrete, hdash, hcurrent, hnewer, hmajor, hfailed⟩
    have hle : ¬ compareSemver r current ≤ 0 := by omega
    simp [hconcrete, hdash, hcurrent, hle, hmajor, hfailed]

end SignalKBackup
