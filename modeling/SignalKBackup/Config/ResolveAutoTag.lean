import SignalKBackup.ServerUpdate

/-!
# ResolveAutoTag — the version "auto" starts on

`resolveAutoTag` runs at each plugin start, `pickServerUpdate` while the plugin runs; both move a
boat unattended.  They do not agree: the first takes any newer release of the update service, a
prerelease or a new major included.  `resolveAutoTag_allowed_iff` says exactly when it stays with
what the second allows.
-/

namespace SignalKBackup
namespace Config

/-- What the version source's `fetch` answers. -/
inductive FetchResult
  | version (latest : String)
  | error (error : String)
  | other (kind : String)
  deriving DecidableEq, Repr

/-- What `fetchLatestRelease` finds on its way to an answer. -/
inductive Lookup
  | noManager
  | noRuntime
  | timedOut
  | threw
  | fetched (result : FetchResult)
  deriving DecidableEq, Repr

/-- `none` when unavailable for any reason. -/
def fetchLatestRelease : Lookup → Option String
  | .fetched (.version latest) => some latest
  | .fetched (.error _) => none
  | .fetched (.other _) => none
  | .noManager => none
  | .noRuntime => none
  | .timedOut => none
  | .threw => none

/-- Prefers the persisted tag, then the newest release, then the floor. -/
def resolveAutoTag (persisted floor : String) (lookup : Lookup) : String :=
  if isConcreteSemver persisted && 0 ≤ compareSemver persisted floor then persisted
  else
    match fetchLatestRelease lookup with
    | none => floor
    | some latest =>
        if !isConcreteSemver latest then floor
        else if compareSemver latest floor < 0 then floor
        else latest

theorem fetchLatestRelease_eq_some {lookup : Lookup} {latest : String} :
    fetchLatestRelease lookup = some latest ↔ lookup = .fetched (.version latest) := by
  constructor
  · intro h
    cases lookup with
    | fetched result =>
        cases result with
        | version v =>
            cases h
            rfl
        | error _ => cases h
        | other _ => cases h
    | noManager => cases h
    | noRuntime => cases h
    | timedOut => cases h
    | threw => cases h
  · rintro rfl
    rfl

/-- The persisted tag is usable: no lookup is made. -/
def Kept (persisted floor : String) : Prop :=
  isConcreteSemver persisted = true ∧ 0 ≤ compareSemver persisted floor

theorem resolveAutoTag_kept {persisted floor : String} (lookup : Lookup)
    (h : Kept persisted floor) : resolveAutoTag persisted floor lookup = persisted := by
  simp [resolveAutoTag, h.1, h.2]

/-- Without a usable persisted tag the answer is the floor, or a newer release that was found. -/
theorem resolveAutoTag_cases {persisted floor : String} (lookup : Lookup)
    (hfloor : isConcreteSemver floor = true) (h : ¬ Kept persisted floor) :
    resolveAutoTag persisted floor lookup = floor ∨
      ∃ latest, lookup = .fetched (.version latest) ∧ isConcreteSemver latest = true ∧
        0 < compareSemver latest floor ∧ resolveAutoTag persisted floor lookup = latest := by
  have hskip : (isConcreteSemver persisted && decide (0 ≤ compareSemver persisted floor)) = false := by
    simpa [Kept] using h
  cases hfetch : fetchLatestRelease lookup with
  | none =>
      exact Or.inl (by simp [resolveAutoTag, hskip, hfetch])
  | some latest =>
      have hlookup := fetchLatestRelease_eq_some.1 hfetch
      cases hconcrete : isConcreteSemver latest with
      | false =>
          exact Or.inl (by simp [resolveAutoTag, hskip, hfetch, hconcrete])
      | true =>
          by_cases holder : compareSemver latest floor < 0
          · exact Or.inl (by simp [resolveAutoTag, hskip, hfetch, hconcrete, holder])
          · have hlatest : resolveAutoTag persisted floor lookup = latest := by
              simp [resolveAutoTag, hskip, hfetch, hconcrete, holder]
            by_cases hequal : compareSemver latest floor = 0
            · exact Or.inl (hlatest.trans (compareSemver_eq_zero hconcrete hfloor hequal))
            · exact Or.inr ⟨latest, hlookup, hconcrete, by omega, hlatest⟩

/-- A newer release is taken whatever it is. -/
theorem resolveAutoTag_newer {persisted floor latest : String} (h : ¬ Kept persisted floor)
    (hconcrete : isConcreteSemver latest = true) (hnewer : 0 < compareSemver latest floor) :
    resolveAutoTag persisted floor (.fetched (.version latest)) = latest := by
  have hskip : (isConcreteSemver persisted && decide (0 ≤ compareSemver persisted floor)) = false := by
    simpa [Kept] using h
  have hle : ¬ compareSemver latest floor < 0 := by omega
  simp [resolveAutoTag, hskip, fetchLatestRelease, hconcrete, hle]

/-- `resolveAutoTag` moves only where `pickServerUpdate` would, if and only if the persisted tag
is kept or every newer release the lookup finds is a final release of the floor's major. -/
theorem resolveAutoTag_allowed_iff (persisted floor : String) (lookup : Lookup)
    (hfloor : isConcreteSemver floor = true) :
    (resolveAutoTag persisted floor lookup ≠ persisted →
        resolveAutoTag persisted floor lookup ≠ floor →
          pickServerUpdate floor (some (resolveAutoTag persisted floor lookup)) [] =
            some (resolveAutoTag persisted floor lookup)) ↔
      Kept persisted floor ∨
        ∀ latest, lookup = .fetched (.version latest) → isConcreteSemver latest = true →
          0 < compareSemver latest floor →
            '-' ∉ latest.toList ∧ majorOf latest = majorOf floor := by
  constructor
  · intro hagree
    by_cases hkept : Kept persisted floor
    · exact Or.inl hkept
    · refine Or.inr ?_
      rintro latest rfl hconcrete hnewer
      have hres := resolveAutoTag_newer hkept hconcrete hnewer
      rw [hres] at hagree
      have hpersisted : latest ≠ persisted := by
        rintro rfl
        exact hkept ⟨hconcrete, by omega⟩
      have hfloorNe : latest ≠ floor := by
        rintro rfl
        rw [compareSemver_self] at hnewer
        exact absurd hnewer (by decide)
      have hpick := pickServerUpdate_eq_some.1 (hagree hpersisted hfloorNe)
      exact ⟨hpick.2.2.1, hpick.2.2.2.2.2.1⟩
  · rintro hcond hpersisted hfloorNe
    by_cases hkept : Kept persisted floor
    · exact absurd (resolveAutoTag_kept lookup hkept) hpersisted
    · rcases resolveAutoTag_cases lookup hfloor hkept with heq | ⟨latest, rfl, hconcrete, hnewer, heq⟩
      · exact absurd heq hfloorNe
      · rw [heq]
        have hfinal := hcond.resolve_left hkept latest rfl hconcrete hnewer
        exact pickServerUpdate_eq_some.2
          ⟨rfl, hconcrete, hfinal.1, hfloor, hnewer, hfinal.2, by simp⟩

/-- A fresh install finds a newer final release of the floor's major. -/
theorem resolveAutoTag_allowed_minor :
    pickServerUpdate "1.4.0" (some "1.5.0") [] = some "1.5.0" := by
  have hiff := resolveAutoTag_allowed_iff "" "1.4.0" (.fetched (.version "1.5.0")) (by decide)
  have hres : resolveAutoTag "" "1.4.0" (.fetched (.version "1.5.0")) = "1.5.0" := by decide
  rw [hres] at hiff
  refine hiff.2 (Or.inr ?_) (by decide) (by decide)
  rintro latest ⟨⟩ _ _
  exact ⟨by decide, by decide⟩

/-- A fresh install finds a new major: it starts on it. -/
theorem resolveAutoTag_new_major :
    ¬ ∀ (persisted floor : String) (lookup : Lookup), isConcreteSemver floor = true →
      resolveAutoTag persisted floor lookup ≠ persisted →
        resolveAutoTag persisted floor lookup ≠ floor →
          pickServerUpdate floor (some (resolveAutoTag persisted floor lookup)) [] =
            some (resolveAutoTag persisted floor lookup) := by
  intro hagree
  have hmajor := hagree "" "1.4.0" (.fetched (.version "2.0.0")) (by decide) (by decide) (by decide)
  exact absurd hmajor (by decide)

end Config
end SignalKBackup
