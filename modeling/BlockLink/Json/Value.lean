/-!
# `BlockLink/Json/Value.lean` — JSON values and their text

A value keeps what a reader of records has to see: the fields of an object in the order they were
written, repetitions included, and a number as the text it was written with. A string is `none` when
its escapes name half of a surrogate pair. Such a string is well formed JSON and means no text, so
it passes where a value is skipped and is refused where a text is asked for. Of a key it is also
kept whether it was spelled with escapes, because a number in a key is read off as it stands.
-/

set_option autoImplicit false

namespace BlockLink

/-- The key of a field in an object. -/
structure Json.Key where
  /-- What the key spells; `none` as for a string. -/
  text : Option String
  /-- Whether it is spelled without escapes. -/
  plain : Bool
  deriving DecidableEq, Repr, Inhabited

/-- A JSON value. -/
inductive Json where
  | null
  | bool (b : Bool)
  | number (text : String)
  | string (text : Option String)
  | array (items : List Json)
  | object (fields : List (Json.Key × Json))
  deriving Repr, Inhabited

namespace Json

/-- A JSON string. -/
def str (s : String) : Json := .string (some s)

/-- A JSON integer. -/
def int (n : Int) : Json := .number (toString n)

/-- A JSON integer. -/
def nat (n : Nat) : Json := .number (Nat.repr n)

/-- A JSON object with the given fields. -/
def record (fields : List (String × Json)) : Json :=
  .object (fields.map fun f => (⟨some f.1, true⟩, f.2))

/-- The given value, or null. -/
def ofOption {α : Type} (f : α → Json) : Option α → Json
  | some a => f a
  | none => .null

/-! ## Writing -/

/-- One character inside a JSON string. -/
def writeChar (c : Char) : List Char :=
  if c = '"' then ['\\', '"']
  else if c = '\\' then ['\\', '\\']
  else if c.toNat < 0x20 then
    ['\\', 'u', '0', '0', Nat.digitChar (c.toNat / 16), Nat.digitChar (c.toNat % 16)]
  else [c]

/-- A JSON string for a text. -/
def writeText (s : String) : String :=
  String.ofList ('"' :: s.toList.flatMap writeChar ++ ['"'])

/-- A string that means no text is written as one that means no text. -/
def writeString : Option String → String
  | some s => writeText s
  | none => "\"\\ud800\""

mutual

/-- The text of a JSON value, without blanks. -/
def write : Json → String
  | .null => "null"
  | .bool true => "true"
  | .bool false => "false"
  | .number text => text
  | .string text => writeString text
  | .array items => "[" ++ String.intercalate "," (writeItems items) ++ "]"
  | .object fields => "\x7b" ++ String.intercalate "," (writeFields fields) ++ "\x7d"

/-- The texts of the items of an array. -/
def writeItems : List Json → List String
  | [] => []
  | item :: rest => write item :: writeItems rest

/-- The texts of the fields of an object. -/
def writeFields : List (Key × Json) → List String
  | [] => []
  | (key, value) :: rest => (writeString key.text ++ ":" ++ write value) :: writeFields rest

end

end Json

end BlockLink
