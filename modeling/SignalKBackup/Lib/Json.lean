import Mathlib.Data.List.Basic

/-!
# Json — values and their texts

`Json` is what `JSON.parse` makes of a text: a number too large for a float becomes an infinity
there.  `Json.stringify` writes a value without blanks; it has no text for an infinity and writes
`null`, so that the value of the text is `Json.serialised`.

A finite number is given by its decimal text, in which minus zero is `0`.
-/

namespace SignalKBackup
namespace Lib

inductive Json
  | null
  | bool (b : Bool)
  | number (text : String)
  | infinite (negative : Bool)
  | string (s : String)
  | array (items : List Json)
  | object (members : List (String × Json))

namespace Json

/-- `typeof v === 'object'`, and not `null`. -/
def isObject : Json → Bool
  | .array _ => true
  | .object _ => true
  | _ => false

/-! ## Texts -/

def hexDigits : List Char :=
  "0123456789abcdef".toList

/-- A character of a string literal. -/
def escape (c : Char) : List Char :=
  if c = '"' then ['\\', '"']
  else if c = '\\' then ['\\', '\\']
  else if c = '\n' then ['\\', 'n']
  else if c = '\r' then ['\\', 'r']
  else if c = '\t' then ['\\', 't']
  else if c.toNat = 0x08 then ['\\', 'b']
  else if c.toNat = 0x0C then ['\\', 'f']
  else if c.toNat < 0x20 then
    ['\\', 'u', '0', '0', hexDigits.getD (c.toNat / 16) '0', hexDigits.getD (c.toNat % 16) '0']
  else [c]

def quote (s : String) : String :=
  String.ofList (['"'] ++ s.toList.flatMap escape ++ ['"'])

mutual

def stringify : Json → String
  | .null => "null"
  | .bool true => "true"
  | .bool false => "false"
  | .number text => text
  | .infinite _ => "null"
  | .string s => quote s
  | .array items => "[" ++ ",".intercalate (stringifyItems items) ++ "]"
  | .object members => "\x7b" ++ ",".intercalate (stringifyMembers members) ++ "\x7d"

def stringifyItems : List Json → List String
  | [] => []
  | v :: items => stringify v :: stringifyItems items

def stringifyMembers : List (String × Json) → List String
  | [] => []
  | (key, v) :: members => (quote key ++ ":" ++ stringify v) :: stringifyMembers members

end

/-! ## The values of texts -/

mutual

/-- The value of the text of a value. -/
def serialised : Json → Json
  | .infinite _ => .null
  | .array items => .array (serialisedItems items)
  | .object members => .object (serialisedMembers members)
  | v => v

def serialisedItems : List Json → List Json
  | [] => []
  | v :: items => serialised v :: serialisedItems items

def serialisedMembers : List (String × Json) → List (String × Json)
  | [] => []
  | (key, v) :: members => (key, serialised v) :: serialisedMembers members

end

mutual

/-- No number of the value is infinite. -/
def finite : Json → Bool
  | .infinite _ => false
  | .array items => finiteItems items
  | .object members => finiteMembers members
  | _ => true

def finiteItems : List Json → Bool
  | [] => true
  | v :: items => finite v && finiteItems items

def finiteMembers : List (String × Json) → Bool
  | [] => true
  | (_, v) :: members => finite v && finiteMembers members

end

mutual

/-- A value survives its text exactly when its numbers are finite. -/
theorem serialised_eq_iff : ∀ v : Json, v.serialised = v ↔ v.finite = true
  | .null => by simp [serialised, finite]
  | .bool _ => by simp [serialised, finite]
  | .number _ => by simp [serialised, finite]
  | .infinite _ => by simp [serialised, finite]
  | .string _ => by simp [serialised, finite]
  | .array items => by
      have ih := serialisedItems_eq_iff items
      simp only [serialised, finite, Json.array.injEq, ih]
  | .object members => by
      have ih := serialisedMembers_eq_iff members
      simp only [serialised, finite, Json.object.injEq, ih]

theorem serialisedItems_eq_iff :
    ∀ items : List Json, serialisedItems items = items ↔ finiteItems items = true
  | [] => by simp [serialisedItems, finiteItems]
  | v :: items => by
      have hv := serialised_eq_iff v
      have ih := serialisedItems_eq_iff items
      simp only [serialisedItems, finiteItems, List.cons.injEq, Bool.and_eq_true, hv, ih]

theorem serialisedMembers_eq_iff :
    ∀ members : List (String × Json), serialisedMembers members = members ↔
      finiteMembers members = true
  | [] => by simp [serialisedMembers, finiteMembers]
  | (key, v) :: members => by
      have hv := serialised_eq_iff v
      have ih := serialisedMembers_eq_iff members
      simp only [serialisedMembers, finiteMembers, List.cons.injEq, Prod.mk.injEq, true_and,
        Bool.and_eq_true, hv, ih]

end

example : (Json.object [("a\n", .array [.number "1", .infinite false])]).stringify =
    "\x7b\"a\\n\":[1,null]\x7d" := by
  decide

/-! ## As JavaScript reads a value

A value that may be `undefined` is an `Option`.
-/

/-- A value as a condition. -/
def truthy : Option Json → Bool
  | none => false
  | some .null => false
  | some (.bool b) => b
  | some (.number text) => text != "0"
  | some (.string s) => s != ""
  | _ => true

/-- `v?.key` -/
def get (key : String) : Option Json → Option Json
  | some (.object members) => members.lookup key
  | _ => none

/-- `v.key`, of a value that is there. -/
def field (v : Json) (key : String) : Option Json :=
  get key (some v)

mutual

/-- `String(v)` -/
def asText : Json → String
  | .null => "null"
  | .bool true => "true"
  | .bool false => "false"
  | .number text => text
  | .infinite negative => if negative then "-Infinity" else "Infinity"
  | .string s => s
  | .array items => ",".intercalate (itemTexts items)
  | .object _ => "[object Object]"

def itemTexts : List Json → List String
  | [] => []
  | .null :: items => "" :: itemTexts items
  | v :: items => asText v :: itemTexts items

end

/-- The text of a number; `none` for every other type. -/
def numberText : Option Json → Option String
  | some (.number text) => some text
  | some (.infinite negative) => some (Json.infinite negative).asText
  | _ => none

/-- `String(v ?? fallback)` -/
def textOr (fallback : String) : Option Json → String
  | none => fallback
  | some .null => fallback
  | some v => v.asText

end Json

end Lib
end SignalKBackup
