import Mathlib.Data.List.Dedup
import Mathlib.Data.List.Sort

/-!
# Fields — names with several values

A list of fields gives each name the values of its fields, in order.  A field is added with `append`,
or put in the place of all fields of its name with `set`.  `Fields.grouped` goes through the names in
order, and combines the values of each.
-/

namespace SignalKBackup
namespace Lib

universe u v

/-- Fields with names `κ` and values `ν`. -/
abbrev Fields (κ : Type u) (ν : Type v) : Type (max u v) :=
  List (κ × ν)

namespace Fields

variable {κ : Type u} {ν : Type v} [DecidableEq κ] (n m : κ) (v : ν)

/-- The values of a name. -/
def values : Fields κ ν → List ν
  | [] => []
  | (k, w) :: fields => if k = n then w :: values fields else values fields

def append (fields : Fields κ ν) : Fields κ ν :=
  fields ++ [(n, v)]

/-- The first field of the name gets the value, and the others go. -/
def set : Fields κ ν → Fields κ ν
  | [] => [(n, v)]
  | (k, w) :: fields =>
      if k = n then (n, v) :: fields.filter fun f => f.1 ≠ n
      else (k, w) :: set fields

def names (fields : Fields κ ν) : List κ :=
  (fields.map Prod.fst).dedup

/-! ## The values of a name -/

variable {n m} {fields : Fields κ ν}

theorem values_concat (fields fields' : Fields κ ν) :
    values n (fields ++ fields') = values n fields ++ values n fields' := by
  induction fields with
  | nil =>
      rfl
  | cons f fields ih =>
      simp only [List.cons_append, values, ih]
      split <;> rfl

theorem values_append_self : values n (append n v fields) = values n fields ++ [v] := by
  simp [append, values_concat, values]

theorem values_append_ne (h : m ≠ n) : values n (append m v fields) = values n fields := by
  simp [append, values_concat, values, h]

/-- Fields are left out by name. -/
theorem values_filter (p : κ → Bool) :
    values n (fields.filter fun f => p f.1) = if p n then values n fields else [] := by
  induction fields with
  | nil =>
      simp [values]
  | cons f fields ih =>
      rcases f with ⟨k, w⟩
      rw [List.filter_cons]
      by_cases hk : k = n
      -- only a field of the name itself shows whether it is left out
      · subst hk
        cases hp : p k with
        | true =>
            simp [values, ih, hp]
        | false =>
            simp [ih, hp]
      · cases p k with
        | true =>
            simpa [values, hk] using ih
        | false =>
            simpa [values, hk] using ih

theorem values_set_self : values n (set n v fields) = [v] := by
  induction fields with
  | nil =>
      simp [set, values]
  | cons f fields ih =>
      unfold set
      split
      case isTrue =>
          have hothers : values n (fields.filter fun f => decide (f.1 ≠ n)) = _ :=
            values_filter fun k => decide (k ≠ n)
          rw [values, if_pos rfl, hothers]
          simp
      case isFalse hf =>
          rw [values, if_neg hf, ih]

theorem values_set_ne (h : m ≠ n) : values n (set m v fields) = values n fields := by
  induction fields with
  | nil =>
      simp [set, values, h]
  | cons f fields ih =>
      rcases f with ⟨k, w⟩
      unfold set
      split
      case isTrue hk =>
          have hothers : values n (fields.filter fun f => decide (f.1 ≠ m)) = _ :=
            values_filter fun k => decide (k ≠ m)
          -- the first field is rewritten, and is none of `n`
          have hkn : k ≠ n := hk ▸ h
          simp only [values, if_neg h, hothers, if_neg hkn]
          simp [Ne.symm h]
      case isFalse hk =>
          simp only [values, ih]

theorem mem_names : n ∈ names fields ↔ values n fields ≠ [] := by
  unfold names
  rw [List.mem_dedup]
  induction fields with
  | nil =>
      simp [values]
  | cons f fields ih =>
      by_cases hf : f.1 = n
      · simp [values, hf]
      · simpa [values, hf, Ne.symm hf] using ih

/-- The fields of one name. -/
theorem values_map_pair (k : κ) (vs : List ν) :
    values n (vs.map fun w => (k, w)) = if k = n then vs else [] := by
  induction vs with
  | nil =>
      simp [values]
  | cons w vs ih =>
      simp only [List.map_cons, values, ih]
      split <;> rfl

/-! ## Setting fields one after another -/

/-- Of the fields that are set, the last one of a name stays. -/
theorem values_foldl_set (fields' : Fields κ ν) (fields : Fields κ ν) :
    values n (fields'.foldl (fun fields f => set f.1 f.2 fields) fields) =
      if values n fields' = [] then values n fields else (values n fields').getLast?.toList := by
  induction fields' generalizing fields with
  | nil =>
      rfl
  | cons f fields' ih =>
      rcases f with ⟨k, w⟩
      rw [List.foldl_cons, ih]
      by_cases hk : k = n
      · subst hk
        -- a later field of the same name takes the place of this one
        by_cases hmore : values k fields' = []
        · simp [values, hmore, values_set_self]
        · have hlast := List.getLast?_eq_some_getLast hmore
          simp [values, hmore, List.getLast?_cons, hlast]
      · simp only [values, if_neg hk, values_set_ne _ hk]

/-! ## Names in order -/

section Grouped

variable (le : κ → κ → Prop) [DecidableRel le] (combine : κ → List ν → List ν)

/-- The names in order, each with its combined values. -/
def grouped (fields : Fields κ ν) : Fields κ ν :=
  ((names fields).insertionSort le).flatMap fun k =>
    (combine k (values k fields)).map fun w => (k, w)

theorem values_flatMap_pair {ks : List κ} (hnodup : ks.Nodup) (f : κ → List ν) :
    values n (ks.flatMap fun k => (f k).map fun w => (k, w)) = if n ∈ ks then f n else [] := by
  induction ks with
  | nil =>
      rfl
  | cons k ks ih =>
      rcases List.nodup_cons.1 hnodup with ⟨hfresh, hrest⟩
      rw [List.flatMap_cons, values_concat, values_map_pair, ih hrest]
      by_cases hk : k = n
      · subst hk
        simp [hfresh]
      · simp [hk, Ne.symm hk]

theorem values_grouped : values n (grouped le combine fields) =
    if values n fields = [] then [] else combine n (values n fields) := by
  have hperm := List.perm_insertionSort le (names fields)
  have hnodup : ((names fields).insertionSort le).Nodup :=
    hperm.nodup_iff.2 (List.nodup_dedup _)
  unfold grouped
  -- each name comes once, so that its values come from one place
  rw [values_flatMap_pair hnodup fun k => combine k (values k fields)]
  simp only [hperm.mem_iff, mem_names]
  by_cases hnone : values n fields = [] <;> simp [hnone]

end Grouped

end Fields

end Lib
end SignalKBackup
