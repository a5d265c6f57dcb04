import BlockLink.Number
import BlockLink.Text.Quoted

/-!
# `BlockLink/Literal.lean` — what the text in a slot means

The editor hands over plain text. It is a boolean if it is exactly `true` or `false`, a number if
it reads as one, and otherwise a text. `Literal.lua` writes it as a Lua value of its own type;
`Literal.luaNumber` is for the slots of arithmetic, where an empty slot counts as zero.
-/

set_option autoImplicit false

namespace BlockLink

open BlockLink.Text

/-- The reading of a literal slot's text. -/
inductive Literal where
  | number (x : Number)
  | bool (b : Bool)
  | text (s : String)
  deriving DecidableEq, Repr

namespace Literal

/-- What the text of a slot means. -/
def classify (s : String) : Literal :=
  if s = "true" then .bool true
  else if s = "false" then .bool false
  else match Number.read? s with
    | some x => .number x
    | none => .text s

/-- The literal as a Lua value of its own type. -/
def lua : Literal → String
  | .number x => x.text
  | .bool true => "true"
  | .bool false => "false"
  | .text s => quote s

/-- The literal where a number is expected: a blank slot counts as zero. -/
def luaNumber : Literal → String
  | .text s => if isAllBlank s then "0" else quote s
  | l => l.lua

/-- Whether the literal stands for the high level of a digital pin. -/
def isHigh : Literal → Bool
  | .bool b => b
  | .number x => x = Number.one
  | .text _ => false

end Literal

end BlockLink
