/-!
# `BlockLink/Text/Identifier.lean` — the shape of Lua names

Pin names are spliced into generated code without quotes, so they have to look like Lua names.
-/

set_option autoImplicit false

namespace BlockLink.Text

/-- Whether a character is an ASCII letter. -/
def isLetter (c : Char) : Bool :=
  ('a' ≤ c && c ≤ 'z') || ('A' ≤ c && c ≤ 'Z')

/-- Whether a character is an ASCII digit. -/
def isDigit (c : Char) : Bool :=
  '0' ≤ c && c ≤ '9'

/-- Whether a character may stand in a Lua name behind the first place. -/
def isNameChar (c : Char) : Bool :=
  isLetter c || isDigit c || c == '_'

/-- Whether the characters have the shape of a Lua name: a letter or underscore, then letters,
digits and underscores. -/
def isIdentifierChars : List Char → Bool
  | [] => false
  | c :: cs => (isLetter c || c == '_') && cs.all isNameChar

/-- Whether a text has the shape of a Lua name. -/
def isIdentifier (s : String) : Bool :=
  isIdentifierChars s.toList

end BlockLink.Text
