import Mathlib.Data.List.Basic

/-!
# Log — what was last written under a key

A log is a list of keys with values, the newest at the end.  `lastOn log k` is the last value written
under `k`.
-/

namespace SignalKBackup
namespace Lib

universe u v

variable {κ : Type u} {ν : Type v} [DecidableEq κ]

def lastOn (log : List (κ × ν)) (k : κ) : Option ν :=
  (log.filter fun e => e.1 = k).getLast?.map Prod.snd

@[simp] theorem lastOn_nil (k : κ) : lastOn ([] : List (κ × ν)) k = none := rfl

@[simp] theorem lastOn_singleton (k : κ) (v : ν) : lastOn [(k, v)] k = some v := by
  simp [lastOn]

/-- The newer part of a log decides, if it has the key. -/
theorem lastOn_append (log log' : List (κ × ν)) (k : κ) :
    lastOn (log ++ log') k = (lastOn log' k).or (lastOn log k) := by
  simp only [lastOn, List.filter_append, List.getLast?_append]
  cases (log'.filter fun e => e.1 = k).getLast? with
  | none =>
      rfl
  | some e =>
      rfl

theorem lastOn_of_absent {log : List (κ × ν)} {k : κ} (h : ∀ e ∈ log, e.1 ≠ k) :
    lastOn log k = none := by
  have hnone : (log.filter fun e => e.1 = k) = [] := by
    rw [List.filter_eq_nil_iff]
    intro e he
    simpa using h e he
  simp [lastOn, hnone]

theorem lastOn_append_of_absent {log log' : List (κ × ν)} {k : κ} (h : ∀ e ∈ log', e.1 ≠ k) :
    lastOn (log ++ log') k = lastOn log k := by
  rw [lastOn_append, lastOn_of_absent h, Option.none_or]

end Lib
end SignalKBackup
