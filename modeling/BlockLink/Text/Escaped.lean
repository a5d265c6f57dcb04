import BlockLink.Text.Unprintable

/-!
# `BlockLink/Text/Escaped.lean` — texts shown inside messages

Where a message repeats what the user typed it does so in double quotes, with escapes that keep
the message on one line and make invisible characters visible. This is a format for people, and it
is not the Lua string literal of `BlockLink/Text/Quoted.lean`: it has names for the null character
and the tab, and writes the rest as `\u` with hexadecimal digits in braces.
-/

set_option autoImplicit false

namespace BlockLink.Text

/-- One character as a message shows it. -/
def escapeChar (c : Char) : List Char :=
  if c = '\x00' then ['\\', '0']
  else if c = '\t' then ['\\', 't']
  else if c = '\r' then ['\\', 'r']
  else if c = '\n' then ['\\', 'n']
  else if c = '\\' then ['\\', '\\']
  else if c = '"' then ['\\', '"']
  else if isUnprintable c then
    ['\\', 'u', '\x7b'] ++ Nat.toDigits 16 c.toNat ++ ['\x7d']
  else [c]

/-- A text as a message shows it, in double quotes. -/
def escaped (s : String) : String :=
  String.ofList ('"' :: s.toList.flatMap escapeChar ++ ['"'])

end BlockLink.Text
