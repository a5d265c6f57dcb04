/-!
# `BlockLink/Text/Quoted.lean` — Lua string literals

A text becomes a double-quoted Lua string that stays on one line whatever the text holds: the
backslash, the quote and the two line breaks have their short escapes, and every other control
character is written as a backslash with exactly three decimal digits. Three digits are what makes
the escape safe in front of a digit: `\1` followed by `2` would read as character twelve.
-/

set_option autoImplicit false

namespace BlockLink.Text

/-- A number below a thousand as exactly three decimal digits. -/
def threeDigits (n : Nat) : List Char :=
  [Nat.digitChar (n / 100 % 10), Nat.digitChar (n / 10 % 10), Nat.digitChar (n % 10)]

/-- Whether a character is written by its number: a control character without a short escape. -/
def isControl (c : Char) : Bool :=
  c.toNat < 0x20 || c.toNat == 0x7f

/-- One character inside a Lua string literal. -/
def quoteChar (c : Char) : List Char :=
  if c = '\\' then ['\\', '\\']
  else if c = '"' then ['\\', '"']
  else if c = '\n' then ['\\', 'n']
  else if c = '\r' then ['\\', 'r']
  else if isControl c then '\\' :: threeDigits c.toNat
  else [c]

/-- The inside of the Lua string literal for a text. -/
def quoteBody (cs : List Char) : List Char :=
  cs.flatMap quoteChar

/-- The Lua string literal for a text. -/
def quote (s : String) : String :=
  String.ofList ('"' :: quoteBody s.toList ++ ['"'])

end BlockLink.Text
