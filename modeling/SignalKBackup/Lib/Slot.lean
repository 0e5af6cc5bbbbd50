import Mathlib.Data.List.Basic

/-!
# Slot — one holder among the tasks of a list

A flag says whether a slot is taken; each task of a list either holds the slot or does not.
`Exclusive` says that at most one of them does, and only while the slot is taken.  The rules below
follow the ways a list of tasks changes: a task is added, or one of them goes on.
-/

namespace SignalKBackup
namespace Lib

universe u

variable {α : Type u}

/-! ## Positions -/

theorem getElem?_concat_cases {l : List α} {x y : α} {i : ℕ} (h : (l ++ [x])[i]? = some y) :
    l[i]? = some y ∨ (i = l.length ∧ y = x) := by
  rcases Nat.lt_trichotomy i l.length with hlt | heq | hgt
  · rw [List.getElem?_append_left hlt] at h
    exact Or.inl h
  · subst heq
    simp at h
    exact Or.inr ⟨rfl, h.symm⟩
  · rw [List.getElem?_eq_none (by simp; omega)] at h
    cases h

theorem getElem?_set_cases {l : List α} {x y : α} {i j : ℕ} (h : (l.set i x)[j]? = some y) :
    (j = i ∧ y = x) ∨ (j ≠ i ∧ l[j]? = some y) := by
  by_cases hij : j = i
  · subst hij
    have hlt : j < l.length := by
      rcases List.getElem?_eq_some_iff.1 h with ⟨hlt, _⟩
      simpa using hlt
    rw [List.getElem?_set_self hlt] at h
    exact Or.inl ⟨rfl, (Option.some.inj h).symm⟩
  · rw [List.getElem?_set_ne (Ne.symm hij)] at h
    exact Or.inr ⟨hij, h⟩

/-- A task goes on and is still counted. -/
theorem exists_mem_set {l : List α} {f : α → Bool} {i : ℕ} {t x : α}
    (ht : l[i]? = some t) (hkept : f t = true → f x = true) :
    (∃ u ∈ l, f u = true) → ∃ u ∈ l.set i x, f u = true := by
  rintro ⟨u, hu, hf⟩
  rcases List.mem_iff_getElem?.1 hu with ⟨j, hj⟩
  by_cases hij : i = j
  · subst hij
    cases ht.symm.trans hj
    have hlt : i < l.length := (List.getElem?_eq_some_iff.1 ht).1
    exact ⟨x, List.mem_iff_getElem?.2 ⟨i, List.getElem?_set_self hlt⟩, hkept hf⟩
  · exact ⟨u, List.mem_iff_getElem?.2 ⟨j, by rw [List.getElem?_set_ne hij]; exact hj⟩, hf⟩

/-- Where no task is counted once one has gone on, the others are not. -/
theorem eraseIdx_of_set {l : List α} {f : α → Bool} {i : ℕ} {x : α}
    (h : ¬∃ u ∈ l.set i x, f u = true) : ∀ u ∈ l.eraseIdx i, f u = false := by
  intro u hu
  rcases List.mem_eraseIdx_iff_getElem?.1 hu with ⟨j, hji, hj⟩
  cases hf : f u with
  | false =>
      rfl
  | true =>
      refine absurd ⟨u, List.mem_iff_getElem?.2 ⟨j, ?_⟩, hf⟩ h
      rw [List.getElem?_set_ne (Ne.symm hji)]
      exact hj

/-- The task that has gone on is not counted: another one is. -/
theorem exists_mem_of_set {l : List α} {f : α → Bool} {i : ℕ} {x : α} (hnot : f x = false) :
    (∃ u ∈ l.set i x, f u = true) → ∃ u ∈ l, f u = true := by
  rintro ⟨u, hu, hf⟩
  rcases List.mem_or_eq_of_mem_set hu with hold | rfl
  · exact ⟨u, hold, hf⟩
  · rw [hnot] at hf
    cases hf

/-- Neither the others are counted nor the task that has gone on. -/
theorem not_exists_mem_set {l : List α} {f : α → Bool} {i : ℕ} {x : α}
    (hothers : ∀ u ∈ l.eraseIdx i, f u = false) (hnot : f x = false) :
    ¬∃ u ∈ l.set i x, f u = true := by
  rintro ⟨u, hu, hf⟩
  rcases List.mem_iff_getElem?.1 hu with ⟨j, hj⟩
  rcases getElem?_set_cases hj with ⟨_, rfl⟩ | ⟨hji, hold⟩
  · rw [hnot] at hf
    cases hf
  · rw [hothers u (List.mem_eraseIdx_iff_getElem?.2 ⟨j, hji, hold⟩)] at hf
    cases hf

/-! ## The slot -/

/-- At most one task holds the slot, and only while it is taken. -/
def Exclusive (holds : α → Bool) (taken : Bool) (tasks : List α) : Prop :=
  ∀ (i : ℕ) (t : α), tasks[i]? = some t → holds t = true →
    taken = true ∧ ∀ (j : ℕ) (u : α), tasks[j]? = some u → holds u = true → j = i

namespace Exclusive

variable {holds : α → Bool} {taken taken' : Bool} {tasks : List α}

/-- With the slot free, no task holds it. -/
theorem free (h : Exclusive holds taken tasks) (hfree : taken = false) {i : ℕ} {t : α}
    (ht : tasks[i]? = some t) : holds t = false := by
  cases hholds : holds t with
  | false =>
      rfl
  | true =>
      have htaken := (h i t ht hholds).1
      rw [hfree] at htaken
      cases htaken

theorem of_free (h : ∀ (i : ℕ) (t : α), tasks[i]? = some t → holds t = false) :
    Exclusive holds taken tasks := by
  intro i t ht hholds
  rw [h i t ht] at hholds
  cases hholds

/-- What holds the slot, seen more narrowly. -/
theorem mono (h : Exclusive holds taken tasks) {holds' : α → Bool}
    (hfewer : ∀ t ∈ tasks, holds' t = true → holds t = true) : Exclusive holds' taken tasks := by
  intro i t ht hholds
  rcases h i t ht (hfewer t (List.mem_of_getElem? ht) hholds) with ⟨htaken, honly⟩
  exact ⟨htaken, fun j u hu hu' => honly j u hu (hfewer u (List.mem_of_getElem? hu) hu')⟩

/-- A new task takes the free slot, or does not ask for it. -/
theorem append (h : Exclusive holds taken tasks) (hfree : taken = false) {t : α}
    (htake : holds t = true → taken' = true) : Exclusive holds taken' (tasks ++ [t]) := by
  have hnew : ∀ (j : ℕ) (u : α), (tasks ++ [t])[j]? = some u → holds u = true →
      j = tasks.length ∧ u = t := by
    intro j u hu hholds
    rcases getElem?_concat_cases hu with hold | hlast
    · rw [h.free hfree hold] at hholds
      cases hholds
    · exact hlast
  intro i u hu hholds
  rcases hnew i u hu hholds with ⟨rfl, rfl⟩
  refine ⟨htake hholds, ?_⟩
  intro j v hv hvholds
  exact (hnew j v hv hvholds).1

/-- A new task that does not hold the slot. -/
theorem append_idle (h : Exclusive holds taken tasks) {t : α} (hidle : holds t = false) :
    Exclusive holds taken (tasks ++ [t]) := by
  have hold : ∀ (j : ℕ) (u : α), (tasks ++ [t])[j]? = some u → holds u = true →
      tasks[j]? = some u := by
    intro j u hu hholds
    rcases getElem?_concat_cases hu with hold | ⟨_, rfl⟩
    · exact hold
    · rw [hidle] at hholds
      cases hholds
  intro i u hu hholds
  rcases h i u (hold i u hu hholds) hholds with ⟨htaken, honly⟩
  exact ⟨htaken, fun j v hv hvholds => honly j v (hold j v hv hvholds) hvholds⟩

/-- A task goes on: it may give the slot up, and what it does to the flag is its own. -/
theorem set (h : Exclusive holds taken tasks) {i : ℕ} {t t' : α} (ht : tasks[i]? = some t)
    (hgive : holds t = false → holds t' = false ∧ taken' = taken)
    (hkeep : holds t = true → holds t' = true → taken' = true) :
    Exclusive holds taken' (tasks.set i t') := by
  intro j u hu hholds
  rcases getElem?_set_cases hu with ⟨rfl, rfl⟩ | ⟨hji, hold⟩
  · -- the task itself holds the slot: it did before
    have hbefore : holds t = true := by
      cases hb : holds t with
      | true =>
          rfl
      | false =>
          rw [(hgive hb).1] at hholds
          cases hholds
    refine ⟨hkeep hbefore hholds, ?_⟩
    intro k v hv hvholds
    rcases getElem?_set_cases hv with ⟨rfl, _⟩ | ⟨hkj, hvold⟩
    · rfl
    · exact (h j t ht hbefore).2 k v hvold hvholds
  · -- another task holds the slot: this one did not
    have hother := h j u hold hholds
    have hbefore : holds t = false := by
      cases hb : holds t with
      | false =>
          rfl
      | true =>
          exact absurd (hother.2 i t ht hb) (Ne.symm hji)
    rcases hgive hbefore with ⟨hnot, hflag⟩
    refine ⟨by rw [hflag]; exact hother.1, ?_⟩
    intro k v hv hvholds
    rcases getElem?_set_cases hv with ⟨_, rfl⟩ | ⟨_, hvold⟩
    · rw [hnot] at hvholds
      cases hvholds
    · exact hother.2 k v hvold hvholds

/-- A task takes the free slot. -/
theorem take (h : Exclusive holds taken tasks) (hfree : taken = false) {i : ℕ} {t' : α}
    (htaken : taken' = true) : Exclusive holds taken' (tasks.set i t') := by
  have honly : ∀ (j : ℕ) (u : α), (tasks.set i t')[j]? = some u → holds u = true → j = i := by
    intro j u hu hholds
    rcases getElem?_set_cases hu with ⟨rfl, _⟩ | ⟨_, hold⟩
    · rfl
    · rw [h.free hfree hold] at hholds
      cases hholds
  intro j u hu hholds
  refine ⟨htaken, fun k v hv hvholds => ?_⟩
  rw [honly j u hu hholds, honly k v hv hvholds]

end Exclusive

/-! ## A slot that is taken has a holder -/

/-- While the slot is taken, some task holds it. -/
def Occupied (holds : α → Bool) (taken : Bool) (tasks : List α) : Prop :=
  taken = true → ∃ (i : ℕ) (t : α), tasks[i]? = some t ∧ holds t = true

namespace Occupied

variable {holds : α → Bool} {taken taken' : Bool} {tasks : List α}

theorem of_free (h : taken = false) : Occupied holds taken tasks := by
  intro htaken
  rw [h] at htaken
  cases htaken

/-- A new task takes the slot. -/
theorem append {t : α} (h : holds t = true) : Occupied holds taken (tasks ++ [t]) := by
  intro _
  exact ⟨tasks.length, t, by simp, h⟩

/-- A task goes on: if the slot is taken afterwards, the task holds it, or it did not before. -/
theorem set (h : Occupied holds taken tasks) {i : ℕ} {t t' : α} (ht : tasks[i]? = some t)
    (hkeep : taken' = true → holds t' = true ∨ (holds t = false ∧ taken = true)) :
    Occupied holds taken' (tasks.set i t') := by
  intro htaken
  rcases List.getElem?_eq_some_iff.1 ht with ⟨hlt, _⟩
  rcases hkeep htaken with hholds | ⟨hno, hbefore⟩
  · exact ⟨i, t', List.getElem?_set_self hlt, hholds⟩
  · -- the holder is another one
    rcases h hbefore with ⟨j, u, hu, hholds⟩
    have hij : i ≠ j := by
      rintro rfl
      rw [ht] at hu
      cases hu
      rw [hno] at hholds
      cases hholds
    exact ⟨j, u, by rw [List.getElem?_set_ne hij]; exact hu, hholds⟩

end Occupied

end Lib
end SignalKBackup
