import SignalKBackup.Plugin.Steady

/-!
# Durable — the version under "auto", over restarts

A boat keeps its stored options and its container over the restarts of Signal K; the variables of
the plugin are new each time, and its floor may be a higher one.  `Boat` adds the versions that have
ever been saved.

A start reads the version that was stored last, and `resolveAutoTag` keeps it.  What can lose it is
a save that goes through behind a newer one: "Apply update" takes the floor for the running version
as long as the startup has not resolved.  `reachable_durable`: in runs whose startups and updates
keep apart, every start resolves to a version that nothing saved before it is newer than.

* `Recorded`: nothing saved is newer than both the stored version and the floor, as long as each save
  is `Fresh`;
* `Orderly`: startups and updates that keep apart (`Apart`) save fresh versions only.
-/

namespace SignalKBackup
namespace Plugin

open Lib
open Config

/-! ## A boat -/

structure Boat where
  plugin : System
  /-- `resolvedImageTag` of every save that has succeeded, the last one first. -/
  saved : List String

/-- Signal K loads the plugin. -/
def boot (floor : String) (stored : Option Settings) (container : Option String) : System :=
  { state := { unstarted.state with floor, stored, container }, tasks := [] }

inductive BoatAction
  | plugin (a : Action)
  /-- Signal K restarts, on a plugin release with this floor. -/
  | restart (floor : String)
  deriving DecidableEq

namespace Boat

variable (b : Boat)

def floor : String :=
  b.plugin.state.floor

def storedTag : Option String :=
  b.plugin.state.storedTag

/-- The options that this action puts on disk. -/
def stores : Action → Option Settings
  | .settle i a => b.plugin.tasks[i]?.bind fun t => t.await.stores a
  | _ => none

def step (a : BoatAction) : Option Boat :=
  match a with
  | .plugin a =>
      (pluginStep b.plugin a).map fun p =>
        { plugin := p, saved := ((b.stores a).map Settings.resolvedImageTag).toList ++ b.saved }
  | .restart floor =>
      some { b with plugin := boot floor b.plugin.state.stored b.plugin.state.container }

end Boat

def boats : Machine Boat BoatAction where
  step := Boat.step

/-- Nothing has been saved yet. -/
def NewBoat (b : Boat) : Prop :=
  b.saved = [] ∧ isConcreteSemver b.floor = true ∧
    b.plugin = boot b.floor none b.plugin.state.container

/-- The runs that are meant: always "auto", on a managed container; each start reads what was stored
last; the floor is concrete and never decreases; a release that is reported as an update is newer
than the version that `currentTag` names. -/
def InScope (b : Boat) : BoatAction → Prop
  | .plugin (.start config) =>
      config.managedContainer.getD true = true ∧ config.imageTag.getD "auto" = "auto" ∧
        config.resolvedImageTag.getD "" = b.storedTag.getD ""
  | .plugin (.apply _ tag _) => (State.truthy tag).getD "auto" = "auto"
  | .plugin (.settle _ a) => a.Newer (b.plugin.state.resolveTag "auto")
  | .plugin (.dbExport _) => False
  | .plugin _ => True
  | .restart floor => isConcreteSemver floor = true ∧ 0 ≤ compareSemver floor b.floor

instance (b : Boat) (a : BoatAction) : Decidable (InScope b a) :=
  match a with
  | .plugin (.start _) => inferInstanceAs (Decidable (_ ∧ _ ∧ _))
  | .plugin (.apply _ _ _) => inferInstanceAs (Decidable (_ = _))
  | .plugin (.settle _ a) => inferInstanceAs (Decidable (a.Newer _))
  | .plugin (.dbExport _) => inferInstanceAs (Decidable False)
  | .plugin .stop | .plugin .timer | .plugin .backup | .plugin .exportTick |
    .plugin (.hostRestore _) => inferInstanceAs (Decidable True)
  | .restart _ => inferInstanceAs (Decidable (_ ∧ _))

/-- The startups and updates of a process keep apart. -/
def Boat.Apart (b : Boat) : BoatAction → Prop
  | .plugin a => b.plugin.Apart a
  | .restart _ => True

instance (b : Boat) (a : BoatAction) : Decidable (b.Apart a) :=
  match a with
  | .plugin a => inferInstanceAs (Decidable (b.plugin.Apart a))
  | .restart _ => inferInstanceAs (Decidable True)

/-! ## Fresh saves -/

/-- This version may follow the stored one: it is not older, or the floor is not. -/
def Boat.Follows (b : Boat) (version : String) : Prop :=
  ∀ v ∈ b.storedTag, 0 ≤ compareSemver version v ∨ 0 ≤ compareSemver b.floor v

/-- This is the stored version, as long as the floor has not overtaken it. -/
def Boat.Read (b : Boat) (persisted : String) : Prop :=
  ∀ v ∈ b.storedTag, 0 ≤ compareSemver v b.floor → persisted = v

/-- The version a startup has read from its settings, where it is about to resolve "auto". -/
def Task.resolving (t : Task) (s : State) : Option String :=
  match t.await with
  | .startup (.resolveAutoTag persisted) =>
      if t.gen = s.lifecycleGeneration then some persisted else none
  | _ => none

/-- A save that succeeds follows the stored version, and a startup that resolves has read it. -/
def Fresh (b : Boat) : BoatAction → Prop
  | .plugin (.settle i a) => ∀ t ∈ b.plugin.tasks[i]?,
      (∀ options ∈ t.await.stores a, b.Follows options.resolvedImageTag) ∧
        ∀ persisted ∈ t.resolving b.plugin.state, b.Read persisted
  | _ => True

/-- What a start may resolve to. -/
structure Durable (b : Boat) (version : String) : Prop where
  concrete : isConcreteSemver version = true
  floor : 0 ≤ compareSemver version b.floor
  saved : ∀ v ∈ b.saved, 0 ≤ compareSemver version v
  /-- A saved version that the floor has not overtaken stays. -/
  stays : ∀ v, b.storedTag = some v → 0 ≤ compareSemver v b.floor → version = v

/-! ## What is saved -/

structure Recorded (b : Boat) : Prop where
  floor : isConcreteSemver b.floor = true
  auto : b.plugin.state.Auto
  sound : ∀ t ∈ b.plugin.tasks, t.await.Sound
  stored : ∀ v, b.storedTag = some v → isConcreteSemver v = true ∧ v ∈ b.saved
  /-- Nothing saved is newer than both the stored version and the floor. -/
  saved : ∀ v ∈ b.saved, isConcreteSemver v = true ∧
    ((∃ u, b.storedTag = some u ∧ 0 ≤ compareSemver u v) ∨ 0 ≤ compareSemver b.floor v)

/-- With the stored version read, what the lookup answers makes no difference to a version that the
floor has not overtaken. -/
theorem Recorded.durable {b : Boat} {persisted : String} (h : Recorded b) (hread : b.Read persisted)
    (lookup : Lookup) : Durable b (resolveAutoTag persisted b.floor lookup) := by
  have hresolved : isConcreteSemver (resolveAutoTag persisted b.floor lookup) = true ∧
      0 ≤ compareSemver (resolveAutoTag persisted b.floor lookup) b.floor :=
    resolveAutoTag_concrete lookup h.floor
  have hstays : ∀ v, b.storedTag = some v → 0 ≤ compareSemver v b.floor →
      resolveAutoTag persisted b.floor lookup = v := by
    intro v hv hnewer
    have hpersisted := hread v hv hnewer
    subst hpersisted
    exact resolveAutoTag_kept lookup ⟨(h.stored _ hv).1, hnewer⟩
  refine ⟨hresolved.1, hresolved.2, fun v hv => ?_, hstays⟩
  rcases h.saved v hv with ⟨hconcrete, ⟨u, hu, hnewest⟩ | hfloor⟩
  · have hstored := (h.stored u hu).1
    by_cases hnewer : 0 ≤ compareSemver u b.floor
    · rw [hstays u hu hnewer]
      exact hnewest
    · -- the floor is newer than the stored version, and so than everything saved
      have hover := (compareSemver_total hstored h.floor).resolve_left hnewer
      have hpast := compareSemver_trans h.floor hstored hconcrete hover hnewest
      exact compareSemver_trans hresolved.1 h.floor hconcrete hresolved.2 hpast
  · exact compareSemver_trans hresolved.1 h.floor hconcrete hresolved.2 hfloor

/-! ### Steps -/

theorem Recorded.of_same {b b' : Boat} (h : Recorded b) (hfloor : b'.floor = b.floor)
    (hauto : b'.plugin.state.Auto) (hsound : ∀ t ∈ b'.plugin.tasks, t.await.Sound)
    (hstored : b'.plugin.state.stored = b.plugin.state.stored) (hsaved : b'.saved = b.saved) :
    Recorded b' := by
  have htag : b'.storedTag = b.storedTag := congrArg (Option.map Settings.resolvedImageTag) hstored
  refine ⟨hfloor ▸ h.floor, hauto, hsound, ?_, ?_⟩
  · rw [htag, hsaved]
    exact h.stored
  · rw [htag, hsaved, hfloor]
    exact h.saved

/-- A save succeeds. -/
theorem Recorded.of_saved {b b' : Boat} {version : String} (h : Recorded b)
    (hfloor : b'.floor = b.floor) (hauto : b'.plugin.state.Auto)
    (hsound : ∀ t ∈ b'.plugin.tasks, t.await.Sound) (hconcrete : isConcreteSemver version = true)
    (hfollows : b.Follows version) (hstored : b'.storedTag = some version)
    (hsaved : b'.saved = version :: b.saved) : Recorded b' := by
  refine ⟨hfloor ▸ h.floor, hauto, hsound, ?_, ?_⟩
  · intro v hv
    rw [hstored] at hv
    cases hv
    rw [hsaved]
    exact ⟨hconcrete, List.mem_cons_self ..⟩
  · intro v hv
    rw [hsaved] at hv
    rw [hfloor]
    rcases List.mem_cons.1 hv with rfl | hold
    · exact ⟨hconcrete, Or.inl ⟨v, hstored, (compareSemver_self v).ge⟩⟩
    · rcases h.saved v hold with ⟨hv', ⟨u, hu, hnewest⟩ | hover⟩
      · have hu' := (h.stored u hu).1
        refine ⟨hv', ?_⟩
        rcases hfollows u hu with hnewer | hfloored
        · exact Or.inl ⟨version, hstored, compareSemver_trans hconcrete hu' hv' hnewer hnewest⟩
        · exact Or.inr (compareSemver_trans h.floor hu' hv' hfloored hnewest)
      · exact ⟨hv', Or.inr hover⟩

theorem recorded_settle {b b' : Boat} {i : ℕ} {a : Settle} (h : Recorded b)
    (hfresh : Fresh b (.plugin (.settle i a))) (hs : boats.step b (.plugin (.settle i a)) = some b') :
    Recorded b' := by
  rcases Option.map_eq_some_iff.1 hs with ⟨p, hp, rfl⟩
  rcases settle_cases hp with ⟨t, r, ht, hstep, rfl⟩
  have hsound := h.sound t (List.mem_of_getElem? ht)
  have hcarries := hstep.carries h.floor h.auto hsound
  have hfloor : r.1.floor = b.plugin.state.floor := hstep.link.same.floor
  have htasks : ∀ u ∈ b.plugin.tasks.set i { t with await := r.2 }, u.await.Sound := by
    intro u hu
    rcases List.mem_or_eq_of_mem_set hu with hold | rfl
    · exact h.sound u hold
    · exact hcarries.sound
  have hstores : b.stores (.settle i a) = t.await.stores a := by
    simp [Boat.stores, ht]
  have hstored := hcarries.stored
  -- only a save that succeeds changes what is stored
  cases hsaves : t.await.stores a with
  | none =>
      rw [hsaves] at hstores hstored
      exact h.of_same hfloor hcarries.auto htasks hstored (by rw [hstores]; rfl)
  | some options =>
      have hconcrete : isConcreteSemver options.resolvedImageTag = true := by
        unfold Await.stores at hsaves
        split at hsaves
        case h_1 => exact hsound.saves hsaves
        case h_2 => cases hsaves
      have hfollows := (hfresh t ht).1 options hsaves
      rw [hsaves] at hstores hstored
      refine h.of_saved hfloor hcarries.auto htasks hconcrete hfollows ?_ (by rw [hstores]; rfl)
      exact congrArg (Option.map Settings.resolvedImageTag) hstored

theorem requestedTag_auto {s : State} {tag : Option String} (hauto : s.Auto)
    (htag : (State.truthy tag).getD "auto" = "auto") : requestedTag s tag = "auto" := by
  unfold requestedTag
  cases htruthy : State.truthy tag with
  | none =>
      cases hsettings : s.currentSettings with
      | none =>
          simp [State.settings, hsettings, SCHEMA_DEFAULTS]
      | some g =>
          simp [State.settings, hsettings, hauto g]
  | some t =>
      rw [htruthy] at htag
      exact htag

theorem asyncStart_sound (s : State) (gen : ℕ) : (s.asyncStart gen).2.Sound := by
  unfold State.asyncStart
  dsimp only
  split
  · split <;> trivial
  · split <;> trivial

/-- A new task, and the writes before its first await. -/
theorem Recorded.begin {b : Boat} (h : Recorded b) {gen : ℕ} {r : State × Await}
    (hfloor : r.1.floor = b.floor) (hauto : r.1.Auto) (hsound : r.2.Sound)
    (hstored : r.1.stored = b.plugin.state.stored) :
    Recorded { b with plugin := b.plugin.begin gen r } := by
  refine h.of_same hfloor hauto (fun t ht => ?_) hstored rfl
  rcases List.mem_append.1 ht with hold | hlast
  · exact h.sound t hold
  · rw [List.mem_singleton.1 hlast]
    exact hsound

theorem Recorded.runExports {b : Boat} (h : Recorded b) :
    Recorded { b with plugin := b.plugin.runExports } :=
  h.begin rfl h.auto trivial rfl

theorem recorded_start {b : Boat} (h : Recorded b) {config : PartialSettings}
    (hscope : InScope b (.plugin (.start config))) :
    Recorded { b with plugin := b.plugin.start config } := by
  have hdisk := State.asyncStart_disk (b.plugin.state.start config)
    (b.plugin.state.start config).lifecycleGeneration
  have hlaunched := asyncStart_launched (b.plugin.state.start config)
    (b.plugin.state.start config).lifecycleGeneration
  -- the new settings object is under "auto", like those before
  have hauto : (b.plugin.state.start config).Auto := by
    intro g
    simp only [State.start, State.stopServerUpdateTimer, State.uplinkStop, Function.update_apply]
    split
    case isTrue =>
        exact hscope.2.1
    case isFalse =>
        exact h.auto g
  have hstarted : Recorded { b with plugin := { b.plugin with state := b.plugin.state.start config } } :=
    h.of_same rfl hauto h.sound rfl rfl
  exact hstarted.begin hlaunched.same.floor (hauto.of_disk hdisk) (asyncStart_sound _ _)
    (congrArg Disk.stored hdisk)

theorem checkServerUpdate_sound (s : State) (gen : ℕ) : (s.checkServerUpdate gen).2.Sound := by
  unfold State.checkServerUpdate
  split <;> trivial

theorem recorded_timer {b : Boat} (h : Recorded b) (gen : ℕ) :
    Recorded { b with
      plugin := b.plugin.begin gen (b.plugin.state.stopServerUpdateTimer.checkServerUpdate gen) } := by
  have hstate := checkServerUpdate_state b.plugin.state.stopServerUpdateTimer gen
  have hfloor := congrArg State.floor hstate
  have hstored := congrArg State.stored hstate
  refine h.begin hfloor ?_ (checkServerUpdate_sound _ _) hstored
  rw [hstate]
  exact h.auto

theorem recorded_action {b b' : Boat} {a : Action} (h : Recorded b) (hscope : InScope b (.plugin a))
    (ha : ∀ i o, a ≠ .settle i o) (hs : boats.step b (.plugin a) = some b') : Recorded b' := by
  rcases Option.map_eq_some_iff.1 hs with ⟨p, hp, rfl⟩
  cases a with
  | start config =>
      cases hp
      exact recorded_start h hscope
  | stop =>
      cases hp
      exact h.of_same rfl h.auto h.sound rfl rfl
  | apply manager tag valid =>
      cases hp
      -- a request in scope asks for "auto", or for the configured tag, which is "auto"
      have htag := requestedTag_auto h.auto hscope
      unfold System.apply
      split
      case isTrue =>
          exact h.of_same rfl h.auto h.sound rfl rfl
      case isFalse =>
          rw [htag]
          exact h.begin rfl h.auto trivial rfl
  | timer =>
      simp only [pluginStep, Option.map_eq_some_iff] at hp
      rcases hp with ⟨timer, _, rfl⟩
      exact recorded_timer h timer.gen
  | dbExport body =>
      cases hscope
  | backup =>
      cases hp
      split
      case isTrue =>
          exact h.runExports
      case isFalse =>
          exact h.of_same rfl h.auto h.sound rfl rfl
  | exportTick =>
      simp only [pluginStep] at hp
      split at hp
      case isTrue =>
          cases hp
          exact h.runExports
      case isFalse =>
          cases hp
  | settle i o =>
      exact absurd rfl (ha i o)
  | hostRestore running =>
      cases hp
      exact h.of_same rfl h.auto h.sound rfl rfl

theorem recorded_restart {b b' : Boat} {floor : String} (h : Recorded b)
    (hscope : InScope b (.restart floor)) (hs : boats.step b (.restart floor) = some b') :
    Recorded b' := by
  cases hs
  rcases hscope with ⟨hconcrete, hnewer⟩
  refine ⟨hconcrete, fun _ => rfl, ?_, h.stored, ?_⟩
  · intro t ht
    cases ht
  · intro v hv
    -- what the old floor was above, the new one is above
    rcases h.saved v hv with ⟨hv', hstored | hover⟩
    · exact ⟨hv', Or.inl hstored⟩
    · exact ⟨hv', Or.inr (compareSemver_trans hconcrete h.floor hv' hnewer hover)⟩

theorem recorded_step {b b' : Boat} {a : BoatAction} (h : Recorded b) (hscope : InScope b a)
    (hfresh : Fresh b a) (hs : boats.step b a = some b') : Recorded b' := by
  cases a with
  | restart floor =>
      exact recorded_restart h hscope hs
  | plugin a =>
      cases a with
      | settle i o =>
          exact recorded_settle h hfresh hs
      | _ =>
          exact recorded_action h hscope (by simp) hs

theorem NewBoat.recorded {b : Boat} (h : NewBoat b) : Recorded b := by
  rcases h with ⟨hsaved, hfloor, hplugin⟩
  have htag : b.storedTag = none := by
    unfold Boat.storedTag
    rw [hplugin]
    rfl
  refine ⟨hfloor, ?_, ?_, ?_, ?_⟩
  · rw [hplugin]
    exact fun _ => rfl
  · rw [hplugin]
    intro t ht
    cases ht
  · rw [htag]
    exact nofun
  · rw [hsaved]
    exact nofun

/-! ## Startups and updates that keep apart -/

structure Orderly (b : Boat) : Prop where
  recorded : Recorded b
  one : OneUpdate b.plugin
  generations : Generations b.plugin
  steady : OneMover b.plugin

theorem Orderly.ordered {b : Boat} (h : Orderly b) : Ordered b.plugin.state :=
  ⟨h.recorded.floor, h.recorded.auto, fun v hv => (h.recorded.stored v hv).1, h.steady.resolved⟩

/-- What is saved has been published before, and what a startup has read is stored. -/
theorem Orderly.fresh {b : Boat} (h : Orderly b) (a : BoatAction) : Fresh b a := by
  rcases a with a | floor
  · cases a with
    | settle i a =>
        intro t ht
        have hheld := h.steady.held t (List.mem_of_getElem? ht)
        refine ⟨fun options hstores => ?_, fun persisted hresolving v hv _ => ?_⟩
        · unfold Await.stores at hstores
          split at hstores
          case h_1 =>
              have hpublished := hheld.saves options hstores
              exact (h.steady.resolved _ hpublished).stored
          case h_2 => cases hstores
        · have hreads : persisted ∈ t.await.reads b.plugin.state t.gen := by
            unfold Task.resolving at hresolving
            split at hresolving
            case h_1 read hawait =>
                rw [hawait]
                exact hresolving
            case h_2 => cases hresolving
          rw [hheld.reads persisted hreads, show b.plugin.state.storedTag = some v from hv]
          rfl
    | _ =>
        trivial
  · trivial

theorem checkServerUpdate_still (s : State) (current own gen : ℕ) :
    (s.checkServerUpdate gen).2.moving current own = false := by
  unfold State.checkServerUpdate
  split <;> rfl

theorem steady_action {b b' : Boat} {a : Action} (h : Orderly b) (hscope : InScope b (.plugin a))
    (hapart : b.plugin.Apart a) (hs : boats.step b (.plugin a) = some b') : OneMover b'.plugin := by
  have hsteady := h.steady
  have htick : OneMover b.plugin.runExports := hsteady.begin le_rfl (.refl _) trivial rfl
  rcases Option.map_eq_some_iff.1 hs with ⟨p, hp, rfl⟩
  cases a with
  | start config =>
      cases hp
      exact oneMover_start hsteady hapart h.recorded.sound hscope.1 hscope.2.1 hscope.2.2
  | stop =>
      cases hp
      exact oneMover_stop hsteady
  | apply manager tag valid =>
      cases hp
      have htag := requestedTag_auto h.recorded.auto hscope
      show OneMover (b.plugin.apply manager tag valid)
      unfold System.apply
      split
      case isTrue =>
          exact hsteady
      case isFalse =>
          -- the update waits for its check, and has chosen nothing yet
          rw [htag]
          exact hsteady.begin le_rfl ⟨rfl, rfl, rfl, rfl⟩ trivial rfl
  | timer =>
      simp only [pluginStep, Option.map_eq_some_iff] at hp
      rcases hp with ⟨timer, htimer, rfl⟩
      have hquiet : Quiet b.plugin.state
          (b.plugin.state.stopServerUpdateTimer.checkServerUpdate timer.gen).1 := by
        rw [checkServerUpdate_state]
        exact ⟨rfl, rfl, rfl, rfl⟩
      exact hsteady.begin (h.generations.timer timer htimer).le hquiet (checkServerUpdate_sound _ _)
        (checkServerUpdate_still _ _ _ _)
  | settle i a =>
      rcases settle_cases hp with ⟨t, r, ht, hstep, hp'⟩
      have hmem := List.mem_of_getElem? ht
      have hsound := h.recorded.sound t hmem
      have hcarries := hstep.carries h.recorded.floor h.recorded.auto hsound
      have hturn := hstep.turn h.ordered hsound (hsteady.held t hmem) hcarries.sound hscope
        fun hchooses => (hapart t ht hchooses).1
      exact oneMover_settle hsteady h.one h.recorded.sound hapart ht hstep.keeps.generation hturn hp'
  | dbExport body =>
      cases hscope
  | backup =>
      cases hp
      show OneMover (if b.plugin.state.exports then b.plugin.runExports else b.plugin)
      split
      case isTrue =>
          exact htick
      case isFalse =>
          exact hsteady
  | exportTick =>
      simp only [pluginStep] at hp
      split at hp
      case isTrue =>
          cases hp
          exact htick
      case isFalse =>
          cases hp
  | hostRestore running =>
      cases hp
      exact hsteady.of_quiet ⟨rfl, rfl, rfl, rfl⟩

theorem boot_loaded (floor : String) (stored : Option Settings) (container : Option String) :
    Loaded (boot floor stored container) :=
  ⟨rfl, rfl, rfl, rfl, rfl, rfl, rfl, rfl, rfl⟩

theorem boot_steady (floor : String) (stored : Option Settings) (container : Option String) :
    OneMover (boot floor stored container) :=
  ⟨by simp [boot], by simp [boot, unstarted], by simp [boot, Exclusive], by simp [boot]⟩

theorem orderly_step {b b' : Boat} {a : BoatAction} (h : Orderly b) (hscope : InScope b a)
    (hapart : b.Apart a) (hs : boats.step b a = some b') : Orderly b' := by
  have hrecorded := recorded_step h.recorded hscope (h.fresh a) hs
  cases a with
  | plugin a =>
      have hsteady := steady_action h hscope hapart hs
      rcases Option.map_eq_some_iff.1 hs with ⟨p, hp, rfl⟩
      exact ⟨hrecorded, oneUpdate_step h.one hp, generations_step h.generations hp, hsteady⟩
  | restart floor =>
      cases hs
      have hloaded := boot_loaded floor b.plugin.state.stored b.plugin.state.container
      exact ⟨hrecorded, hloaded.oneUpdate, hloaded.generations, boot_steady _ _ _⟩

theorem NewBoat.orderly {b : Boat} (h : NewBoat b) : Orderly b := by
  have hboot := h.2.2
  have hloaded : Loaded b.plugin := by
    rw [hboot]
    exact boot_loaded _ _ _
  refine ⟨h.recorded, hloaded.oneUpdate, hloaded.generations, ?_⟩
  rw [hboot]
  exact boot_steady _ _ _

/-! ## Runs -/

theorem reachable_orderly {b : Boat}
    (h : boats.ReachableUnder (fun b a => InScope b a ∧ b.Apart a) NewBoat b) : Orderly b :=
  h.invariant (fun _ hnew => hnew.orderly) fun _ _ _ horderly hC hs =>
    orderly_step horderly hC.1 hC.2 hs

/-- The lookup answers: the startup publishes the version it has resolved. -/
theorem resolving_step {p p' : System} {i : ℕ} {t : Task} {persisted : String} {lookup : Lookup}
    (ht : p.tasks[i]? = some t) (hresolving : t.resolving p.state = some persisted)
    (hs : pluginStep p (.settle i (.lookup lookup)) = some p') :
    p'.state.resolvedAutoTag = some (resolveAutoTag persisted p.state.floor lookup) := by
  rcases settle_cases hs with ⟨t', r, ht', hstep, rfl⟩
  cases ht.symm.trans ht'
  unfold Task.resolving at hresolving
  split at hresolving
  case h_1 persisted' hawait =>
      split at hresolving
      case isTrue hgen =>
          cases hresolving
          rw [hawait] at hstep
          cases hstep with
          | startup hstep =>
              cases hstep with
              | superseded hover _ _ => exact absurd hgen hover
              | resolved _ htag =>
                  rw [← htag]
              | resolvedSaving _ htag hsave =>
                  rw [← htag]
                  exact persistResolvedTag_resolvedAutoTag hsave
      case isFalse => cases hresolving
  case h_2 => cases hresolving

/-- In runs whose startups and updates keep apart, each start resolves to a version that is at least
the floor and everything saved, and stays on the stored one until the floor overtakes it. -/
theorem reachable_durable {b b' : Boat} {i : ℕ} {t : Task} {persisted : String} {lookup : Lookup}
    (h : boats.ReachableUnder (fun b a => InScope b a ∧ b.Apart a) NewBoat b)
    (ht : b.plugin.tasks[i]? = some t) (hresolving : t.resolving b.plugin.state = some persisted)
    (hs : boats.step b (.plugin (.settle i (.lookup lookup))) = some b') :
    ∃ version, b'.plugin.state.resolvedAutoTag = some version ∧ Durable b version := by
  have horderly := reachable_orderly h
  have hread := (horderly.fresh (.plugin (.settle i (.lookup lookup))) t ht).2 persisted hresolving
  rcases Option.map_eq_some_iff.1 hs with ⟨p, hp, rfl⟩
  exact ⟨_, resolving_step ht hresolving hp, horderly.recorded.durable hread lookup⟩

/-- Signal K restarts, and the startup reads what is stored. -/
def restarts (b : Boat) : List BoatAction :=
  [.restart b.floor, .plugin (.start { resolvedImageTag := b.storedTag }), .plugin (.settle 0 .ok)]

theorem restarts_inScope {b : Boat} (hfloor : isConcreteSemver b.floor = true) :
    boats.Meets InScope b (restarts b) := by
  refine ⟨⟨hfloor, (compareSemver_self b.floor).ge⟩, ?_⟩
  rintro c hc
  cases hc
  exact ⟨⟨rfl, rfl, rfl⟩, fun c' _ => ⟨trivial, fun _ _ => trivial⟩⟩

theorem run_restarts {b : Boat} {version : String} (hstored : b.storedTag = some version) :
    ∃ b' t, boats.run b (restarts b) = some b' ∧ b'.floor = b.floor ∧ b'.saved = b.saved ∧
      b'.plugin.tasks[0]? = some t ∧ t.resolving b'.plugin.state = some version := by
  refine ⟨_, _, rfl, rfl, rfl, rfl, ?_⟩
  show some (b.storedTag.getD "") = some version
  rw [hstored]
  rfl

/-- Once a save has gone through behind a newer one, the next start without a network goes back. -/
theorem overtaken_goesBack {b b' : Boat} {i : ℕ} {a : Settle} {t : Task} {options : Settings}
    (h : Recorded b) (hs : boats.step b (.plugin (.settle i a)) = some b')
    (ht : b.plugin.tasks[i]? = some t) (hstores : t.await.stores a = some options)
    (hover : ¬b.Follows options.resolvedImageTag) :
    boats.Meets InScope b' (restarts b') ∧
      ∃ b'' t', boats.run b' (restarts b') = some b'' ∧ b''.plugin.tasks[0]? = some t' ∧
        t'.resolving b''.plugin.state = some options.resolvedImageTag ∧
          ¬Durable b'' (resolveAutoTag options.resolvedImageTag b''.floor .noManager) := by
  rcases Option.map_eq_some_iff.1 hs with ⟨p, hp, rfl⟩
  rcases settle_cases hp with ⟨t', r, ht', hstep, hp'⟩
  cases ht.symm.trans ht'
  have hcarries := hstep.carries h.floor h.auto (h.sound t (List.mem_of_getElem? ht))
  have hfloor : p.state.floor = b.floor := by
    rw [hp']
    exact hstep.link.same.floor
  have hstored : p.state.stored = some options := by
    rw [hp']
    exact hcarries.stored.trans (by rw [hstores]; rfl)
  -- the version that was stored is newer than the floor and than the one that is stored now
  simp only [Boat.Follows, not_forall, not_or] at hover
  rcases hover with ⟨v, hv, holder, hfloored⟩
  have hmem := (h.stored v hv).2
  have htag : Boat.storedTag { plugin := p, saved := ((b.stores (.settle i a)).map
      Settings.resolvedImageTag).toList ++ b.saved } = some options.resolvedImageTag :=
    congrArg (Option.map Settings.resolvedImageTag) hstored
  rcases run_restarts htag with ⟨b'', t', hrun, hfloor'', hsaved'', ht'', hresolving⟩
  have hconcrete : isConcreteSemver p.state.floor = true := by
    rw [hfloor]
    exact h.floor
  refine ⟨restarts_inScope hconcrete, b'', t', hrun, ht'', hresolving, fun hdurable => ?_⟩
  have hnewest := hdurable.saved v (by rw [hsaved'']; exact List.mem_append_right _ hmem)
  have hfloored' : ¬0 ≤ compareSemver b''.floor v := by
    rw [hfloor'']
    show ¬0 ≤ compareSemver p.state.floor v
    rw [hfloor]
    exact hfloored
  -- the next start resolves to what is stored or to the floor, and both are older
  have heither : resolveAutoTag options.resolvedImageTag b''.floor .noManager =
      options.resolvedImageTag ∨
        resolveAutoTag options.resolvedImageTag b''.floor .noManager = b''.floor := by
    unfold resolveAutoTag
    split
    case isTrue => exact Or.inl rfl
    case isFalse => exact Or.inr rfl
  rcases heither with heq | heq
  · rw [heq] at hnewest
    exact holder hnewest
  · rw [heq] at hnewest
    exact hfloored' hnewest

def newBoat : Boat :=
  { plugin := boot "1.4.0" none none, saved := [] }

theorem newBoat_new : NewBoat newBoat :=
  ⟨rfl, by decide, rfl⟩

/-- A first start finds 1.5.0, and saves it. -/
def firstStart : List BoatAction :=
  [.plugin (.start {}), .plugin (.settle 0 .ok),
    .plugin (.settle 0 (.lookup (.fetched (.version "1.5.0")))), .plugin (.settle 0 .ok)]

/-- Its server is up; "Apply update" moves it to 1.6.0. -/
def firstUpdate : List BoatAction :=
  [.plugin (.settle 0 (.address (some "127.0.0.1:3010"))), .plugin (.apply true none true),
    .plugin (.settle 1 (.update (some
      { updateAvailable := true, latestVersion := some "1.6.0", reason := "newer-version" }) true)),
    .plugin (.settle 1 .ok), .plugin (.settle 1 .ok),
    .plugin (.settle 1 (.address (some "127.0.0.1:3010"))), .plugin (.settle 1 .ok),
    .plugin (.settle 1 .ok), .plugin (.settle 1 .ok)]

/-- The next start is offline, on a plugin release with a higher floor. -/
theorem reachable_durable_offline :
    ∃ b b' : Boat, boats.run newBoat (firstStart ++ firstUpdate ++ [.restart "1.4.1",
        .plugin (.start { resolvedImageTag := some "1.6.0" }), .plugin (.settle 0 .ok)]) = some b ∧
      boats.step b (.plugin (.settle 0 (.lookup .noRuntime))) = some b' ∧
        ∃ version, b'.plugin.state.resolvedAutoTag = some version ∧ Durable b version := by
  let actions := firstStart ++ firstUpdate ++ [.restart "1.4.1",
    .plugin (.start { resolvedImageTag := some "1.6.0" }), .plugin (.settle 0 .ok)]
  obtain ⟨b', hb'⟩ : ∃ b', boats.run newBoat
      (actions ++ [.plugin (.settle 0 (.lookup .noRuntime))]) = some b' := ⟨_, rfl⟩
  rcases (boats.run_concat_eq_some).1 hb' with ⟨b, hb, hs⟩
  have hmeets : boats.Meets (fun b a => InScope b a ∧ b.Apart a) newBoat actions := by
    decide +kernel
  have hreach : boats.ReachableUnder (fun b a => InScope b a ∧ b.Apart a) NewBoat b :=
    .run (.init newBoat_new) hmeets hb
  refine ⟨b, b', hb, hs, ?_⟩
  cases hb
  exact reachable_durable hreach rfl rfl hs

/-! ## "Apply update" before the startup has resolved -/

def Settle.succeeds : Settle → Bool
  | .fails => false
  | .recreateFails _ => false
  | .address none => false
  | .update _ manager => manager
  | _ => true

def Await.succeeds : Await → Settle → Bool
  | .apply _, a => a.succeeds
  | _, _ => true

/-- "Apply update" succeeds. -/
def Succeeds (b : Boat) : BoatAction → Prop
  | .plugin (.settle i a) => ∀ t ∈ b.plugin.tasks[i]?,
      t.await.succeeds a = true
  | _ => True

instance (b : Boat) (a : BoatAction) : Decidable (Succeeds b a) :=
  match a with
  | .plugin (.settle i a) => inferInstanceAs (Decidable (∀ t ∈ b.plugin.tasks[i]?,
      t.await.succeeds a = true))
  | .plugin (.start _) | .plugin .stop | .plugin (.apply _ _ _) | .plugin .timer |
    .plugin (.dbExport _) | .plugin .backup | .plugin .exportTick | .plugin (.hostRestore _) |
    .restart _ => inferInstanceAs (Decidable True)

theorem reachable_goesBack :
    ¬∀ (b b' : Boat) (i : ℕ) (t : Task) (persisted : String) (lookup : Lookup),
      boats.ReachableUnder (fun b a => InScope b a ∧ Succeeds b a) NewBoat b →
        b.plugin.tasks[i]? = some t → t.resolving b.plugin.state = some persisted →
          boats.step b (.plugin (.settle i (.lookup lookup))) = some b' →
            ∃ version, b'.plugin.state.resolvedAutoTag = some version ∧ Durable b version := by
  intro hall
  let actions := firstStart ++ [.restart "1.4.0",
    .plugin (.start { resolvedImageTag := some "1.5.0" }), .plugin (.apply true none true),
    .plugin (.settle 1 (.update none true)), .plugin (.settle 1 .ok), .plugin (.settle 1 .ok),
    .plugin (.settle 1 (.address (some "127.0.0.1:3010"))), .plugin (.settle 1 .ok),
    .plugin (.settle 1 .ok), .plugin (.settle 1 .ok), .plugin (.settle 0 .ok)]
  obtain ⟨b', hb'⟩ : ∃ b', boats.run newBoat
      (actions ++ [.plugin (.settle 0 (.lookup .noRuntime))]) = some b' := ⟨_, rfl⟩
  rcases (boats.run_concat_eq_some).1 hb' with ⟨b, hb, hs⟩
  have hmeets : boats.Meets (fun b a => InScope b a ∧ Succeeds b a) newBoat actions := by
    decide +kernel
  have hreach : boats.ReachableUnder (fun b a => InScope b a ∧ Succeeds b a) NewBoat b :=
    .run (.init newBoat_new) hmeets hb
  cases hb
  have hdurable := hall _ b' 0 _ _ _ hreach rfl rfl hs
  cases hs
  rcases hdurable with ⟨version, hversion, hdurable⟩
  cases hversion
  have hbehind := hdurable.saved "1.5.0" (by decide)
  exact absurd hbehind (by decide)

end Plugin
end SignalKBackup
