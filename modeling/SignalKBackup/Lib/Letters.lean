import Mathlib.Data.List.Basic

/-!
# Letters — classes of characters, and the blanks around a text

The classes that the patterns of a program are made of, and `trim` with the characters that it
removes.
-/

namespace SignalKBackup
namespace Lib

/-- `\d` -/
def isDigit (c : Char) : Bool :=
  '0' ≤ c && c ≤ '9'

/-- `[a-zA-Z]` -/
def isLetter (c : Char) : Bool :=
  ('a' ≤ c && c ≤ 'z') || ('A' ≤ c && c ≤ 'Z')

/-- The characters `trim()` removes. -/
def isWhitespace (c : Char) : Bool :=
  [9, 10, 11, 12, 13, 32, 160, 5760, 8232, 8233, 8239, 8287, 12288, 65279].contains c.toNat ||
    (8192 ≤ c.toNat && c.toNat ≤ 8202)

/-- `s.trim()` -/
def trim (s : List Char) : List Char :=
  ((s.dropWhile isWhitespace).reverse.dropWhile isWhitespace).reverse

theorem isWhitespace_of_isDigit {c : Char} (h : c.isDigit = true) : isWhitespace c = false := by
  have hbounds : 48 ≤ c.toNat ∧ c.toNat ≤ 57 := Char.isDigit_iff_toNat.1 h
  simp only [isWhitespace, List.contains_eq_mem, Bool.or_eq_false_iff, decide_eq_false_iff_not]
  refine ⟨fun hmem => ?_, by simp; omega⟩
  simp only [List.mem_cons, List.not_mem_nil, or_false] at hmem
  omega

theorem dropWhile_eq_self {p : Char → Bool} {s : List Char} (h : ∀ c ∈ s, p c = false) :
    s.dropWhile p = s := by
  cases s with
  | nil =>
      rfl
  | cons c s =>
      exact List.dropWhile_cons_of_neg (by rw [h c List.mem_cons_self]; decide)

/-- A number has no blanks around it. -/
theorem trim_toDigits (n : ℕ) : trim (Nat.toDigits 10 n) = Nat.toDigits 10 n := by
  have hdigits : ∀ c ∈ Nat.toDigits 10 n, isWhitespace c = false := fun c hc =>
    isWhitespace_of_isDigit (Nat.isDigit_of_mem_toDigits (by decide) (by decide) hc)
  have hreverse : ∀ c ∈ (Nat.toDigits 10 n).reverse, isWhitespace c = false := fun c hc =>
    hdigits c (List.mem_reverse.1 hc)
  rw [trim, dropWhile_eq_self hdigits, dropWhile_eq_self hreverse, List.reverse_reverse]

end Lib
end SignalKBackup
