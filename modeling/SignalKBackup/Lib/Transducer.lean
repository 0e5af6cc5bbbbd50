import Mathlib.Data.List.Basic

/-!
# Transducer — machines that are fed a stream piece by piece

A `Transducer` takes the pieces of a stream as they come and puts items out.  Its two laws say that
it does not notice where one piece ends and the next begins, so that feeding the pieces is feeding
the whole stream at once (`Transducer.feedAll_eq`).

* `Transducer.ofStep` goes on item by item;
* `Transducer.andThen` feeds what one machine puts out to another;
* `Transducer.filterMap` looks at what is put out;
* `utf8` is the decoder of UTF-8 that replaces what is not well formed by U+FFFD and drops a leading
  byte order mark.
-/

namespace SignalKBackup
namespace Lib

/-- A machine with an input of items `α` and an output of items `β`. -/
structure Transducer (α β : Type) where
  State : Type
  start : State
  feed : State → List α → State × List β
  feed_nil : ∀ s, feed s [] = (s, [])
  feed_append : ∀ s xs ys, feed s (xs ++ ys) =
    ((feed (feed s xs).1 ys).1, (feed s xs).2 ++ (feed (feed s xs).1 ys).2)

namespace Transducer

variable {α β γ : Type} (T : Transducer α β)

/-- The pieces of a stream, one after another. -/
def feedAll : T.State → List (List α) → T.State × List β
  | s, [] => (s, [])
  | s, xs :: pieces =>
      let r := T.feed s xs
      let t := feedAll r.1 pieces
      (t.1, r.2 ++ t.2)

theorem feedAll_eq (s : T.State) (pieces : List (List α)) :
    T.feedAll s pieces = T.feed s pieces.flatten := by
  induction pieces generalizing s with
  | nil =>
      exact (T.feed_nil s).symm
  | cons xs pieces ih =>
      simp only [feedAll, List.flatten_cons, T.feed_append, ih]

/-- What the machine makes of a whole stream. -/
def output (xs : List α) : List β :=
  (T.feed T.start xs).2

/-! ## Item by item -/

section OfStep

variable {S : Type} (step : S → α → S × List β)

def feedStep : S → List α → S × List β
  | s, [] => (s, [])
  | s, x :: xs =>
      let r := step s x
      let t := feedStep r.1 xs
      (t.1, r.2 ++ t.2)

theorem feedStep_append (s : S) (xs ys : List α) :
    feedStep step s (xs ++ ys) =
      ((feedStep step (feedStep step s xs).1 ys).1,
        (feedStep step s xs).2 ++ (feedStep step (feedStep step s xs).1 ys).2) := by
  induction xs generalizing s with
  | nil =>
      rfl
  | cons x xs ih =>
      simp only [List.cons_append, feedStep, ih, List.append_assoc]

def ofStep (start : S) : Transducer α β where
  State := S
  start := start
  feed := feedStep step
  feed_nil _ := rfl
  feed_append := feedStep_append step

end OfStep

/-! ## Composition -/

def andThen (U : Transducer β γ) : Transducer α γ where
  State := T.State × U.State
  start := (T.start, U.start)
  feed s xs :=
    let r := T.feed s.1 xs
    let t := U.feed s.2 r.2
    ((r.1, t.1), t.2)
  feed_nil s := by
    simp only [T.feed_nil, U.feed_nil]
  feed_append s xs ys := by
    simp only [T.feed_append, U.feed_append]

def filterMap (f : β → Option γ) : Transducer α γ where
  State := T.State
  start := T.start
  feed s xs := ((T.feed s xs).1, (T.feed s xs).2.filterMap f)
  feed_nil s := by
    simp only [T.feed_nil, List.filterMap_nil]
  feed_append s xs ys := by
    simp only [T.feed_append, List.filterMap_append]

end Transducer

/-! ## UTF-8 -/

/-- Between two bytes of a stream: the continuation bytes still needed, the bits of the character so
far, and the bounds of the next byte. -/
structure Utf8State where
  needed : ℕ := 0
  codePoint : ℕ := 0
  lower : ℕ := 0x80
  upper : ℕ := 0xBF
  /-- A character has been put out, or the byte order mark before it dropped. -/
  bomSeen : Bool := false

namespace Utf8State

variable (s : Utf8State)

def replacement : Char :=
  Char.ofNat 0xFFFD

/-- A character is complete. -/
def emit (c : Char) : Utf8State × List Char :=
  if !s.bomSeen && c == Char.ofNat 0xFEFF then ({ bomSeen := true }, [])
  else ({ bomSeen := true }, [c])

/-- The first byte of a character. -/
def lead (b : ℕ) : Utf8State × List Char :=
  if b ≤ 0x7F then s.emit (Char.ofNat b)
  else if 0xC2 ≤ b ∧ b ≤ 0xDF then ({ s with needed := 1, codePoint := b % 0x20 }, [])
  else if 0xE0 ≤ b ∧ b ≤ 0xEF then
    ({ s with
        needed := 2
        codePoint := b % 0x10
        lower := if b = 0xE0 then 0xA0 else 0x80
        upper := if b = 0xED then 0x9F else 0xBF }, [])
  else if 0xF0 ≤ b ∧ b ≤ 0xF4 then
    ({ s with
        needed := 3
        codePoint := b % 0x08
        lower := if b = 0xF0 then 0x90 else 0x80
        upper := if b = 0xF4 then 0x8F else 0xBF }, [])
  else s.emit replacement

def step (byte : UInt8) : Utf8State × List Char :=
  let b := byte.toNat
  if s.needed = 0 then s.lead b
  else if s.lower ≤ b ∧ b ≤ s.upper then
    let codePoint := s.codePoint * 0x40 + b % 0x40
    if s.needed = 1 then s.emit (Char.ofNat codePoint)
    else ({ needed := s.needed - 1, codePoint := codePoint, bomSeen := s.bomSeen }, [])
  else
    -- the character is broken off, and the byte is looked at again
    let broken := s.emit replacement
    let r := broken.1.lead b
    (r.1, broken.2 ++ r.2)

end Utf8State

def utf8 : Transducer UInt8 Char :=
  .ofStep Utf8State.step {}

end Lib
end SignalKBackup
