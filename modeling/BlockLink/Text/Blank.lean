/-!
# `BlockLink/Text/Blank.lean` — blank characters and trimming

The editor and the board both pad what they send, and everything that reads a number, a pin or a
prompt trims first. A character is blank when it has the Unicode property `White_Space`; that is a
closed table of twenty-five characters, and it is wider than the ASCII blanks that core knows.

Trimming works on character lists: the text functions of this library are recursions over
`List Char`, with `String` only at their borders.
-/

set_option autoImplicit false

namespace BlockLink.Text

/-- Whether a character has the Unicode property `White_Space`. -/
def isBlank (c : Char) : Bool :=
  (0x09 ≤ c.toNat && c.toNat ≤ 0x0d) || c.toNat == 0x20 || c.toNat == 0x85 || c.toNat == 0xa0
    || c.toNat == 0x1680 || (0x2000 ≤ c.toNat && c.toNat ≤ 0x200a) || c.toNat == 0x2028
    || c.toNat == 0x2029 || c.toNat == 0x202f || c.toNat == 0x205f || c.toNat == 0x3000

/-- The characters without the blanks in front. -/
def trimStart (cs : List Char) : List Char :=
  cs.dropWhile isBlank

/-- The characters up to the last one that `drop` does not hold of. -/
def dropEnd (drop : Char → Bool) : List Char → List Char
  | [] => []
  | c :: cs =>
    match dropEnd drop cs with
    | [] => if drop c then [] else [c]
    | kept => c :: kept

/-- The characters without the blanks behind. -/
def trimEnd (cs : List Char) : List Char :=
  dropEnd isBlank cs

/-- The characters without the blanks at either end. -/
def trim (cs : List Char) : List Char :=
  trimEnd (trimStart cs)

/-- Whether a text holds nothing but blanks. -/
def isAllBlank (s : String) : Bool :=
  s.toList.all isBlank

end BlockLink.Text
