import BlockLink.Json.Value

/-!
# `BlockLink/Json/Record.lean` — records as JSON values

A record is written as an object, or as the array of its fields in their fixed order. An object may
hold fields nobody asked for, which are skipped, but not the same field twice; an array may stop
early, but not go on. `Json.fields?` brings both forms to one list with a place for each field, so
a record is read by matching on that list.
-/

set_option autoImplicit false

namespace BlockLink.Json

/-- The value of the field that goes by one of the given names: the outer `none` if it is there
twice, the inner one if it is missing. -/
def field? (fields : List (Key × Json)) (names : List String) :
    Option (Option Json) :=
  match fields.filter fun f => names.any fun name => f.1.text == some name with
  | [] => some none
  | [f] => some (some f.2)
  | _ => none

/-- The values of a record's fields, each given by the names it goes by. -/
def fields? (names : List (List String)) : Json → Option (List (Option Json))
  | .array items =>
    if items.length ≤ names.length then
      some (items.map some ++ List.replicate (names.length - items.length) none)
    else none
  | .object fields =>
    if fields.all fun f => f.1.text.isSome then names.mapM (field? fields) else none
  | _ => none

/-- The text of a string. -/
def text? : Json → Option String
  | .string s => s
  | _ => none

/-- A required field. -/
def required? {α : Type} (read : Json → Option α) : Option Json → Option α
  | some v => read v
  | none => none

/-- A field with a value for when it is missing. -/
def optional? {α : Type} (default : α) (read : Json → Option α) : Option Json → Option α
  | some v => read v
  | none => some default

/-- A value that may also be null. -/
def nullable? {α : Type} (read : Json → Option α) : Json → Option (Option α)
  | .null => some none
  | v => (read v).map some

end BlockLink.Json
