import BlockLink.Text.Blank
import BlockLink.Text.Digits
import BlockLink.Unit

/-!
# `BlockLink/Event.lean` — what a board prints

A line from the board is the single letter `C` (it can take another chunk), or a two-letter tag with
two fields behind colons; the second field is the rest of the line, colons and all. Anything else is
chatter, with one exception: the prompt of the board's shell, or of plain Lua, says that it listens.

| line | meaning |
|---|---|
| `pb:<id>:<value>` | a unit, or `r` for a clicked reporter, has a value to show |
| `rc:<id>:<data>` | a unit came alive |
| `dc:<id>:<data>` | a unit ended |
| `pv:<pin>:<value>` | a pin was written |
| `vv:<name>:<value>` | a variable was written |

`Event.ofLine` never fails: a line that fits nothing is itself an event.
-/

set_option autoImplicit false

namespace BlockLink

open BlockLink.Text

/-- The meaning of a line from the board. -/
inductive Event where
  | chunkReady
  | reporterResult (unit : UnitRef) (value : String)
  | threadStarted (id : UnitId) (data : String)
  | threadEnded (id : UnitId) (data : String)
  | pinValue (pin : UInt32) (value : String)
  | variableValue (name : String) (value : String)
  /-- The prompt: the board has started up and listens. -/
  | deviceReady
  | unrecognized (line : String)
  deriving DecidableEq, Repr

namespace Event

/-- Whether a character ends a line. -/
def isLineEnd (c : Char) : Bool :=
  c == '\r' || c == '\n'

/-- The line without the line ends behind it. -/
def stripLineEnd (cs : List Char) : List Char :=
  dropEnd isLineEnd cs

/-- Splits at the first colon, if there is one. -/
def splitColon? : List Char → Option (List Char × List Char)
  | [] => none
  | c :: cs =>
    if c = ':' then some ([], cs)
    else (splitColon? cs).map fun (field, rest) => (c :: field, rest)

/-- Whether a line is a prompt: a directory, or nothing, and then `>`, with blanks allowed around
both. -/
def isPrompt (cs : List Char) : Bool :=
  match (trim cs).reverse with
  | '>' :: rest =>
    let directory := trimEnd rest.reverse
    match directory with
    | [] => true
    | c :: _ => c == '/' && directory.all (fun c => !isBlank c)
  | _ => false

/-- The event of a line that carries no tag. -/
def untagged (cs : List Char) : Event :=
  if isPrompt cs then .deviceReady else .unrecognized (String.ofList cs)

/-- The event of a tag with its two fields. -/
def tagged? (tag key value : List Char) : Option Event :=
  let value := String.ofList value
  match tag with
  | ['p', 'b'] =>
    if key = ['r'] then some (.reporterResult .adhoc value)
    else (readWord? key).map fun id => .reporterResult (.id id) value
  | ['r', 'c'] => (readWord? key).map fun id => .threadStarted id value
  | ['d', 'c'] => (readWord? key).map fun id => .threadEnded id value
  | ['p', 'v'] => (readWord? key).map fun pin => .pinValue pin value
  | ['v', 'v'] => if key.isEmpty then none else some (.variableValue (String.ofList key) value)
  | _ => none

/-- The event of a line without its line end. -/
def ofChars (cs : List Char) : Event :=
  if cs = ['C'] then .chunkReady
  else
    let event? := do
      let (tag, rest) ← splitColon? cs
      let (key, value) ← splitColon? rest
      tagged? tag key value
    event?.getD (untagged cs)

/-- The meaning of a line. -/
def ofLine (line : String) : Event :=
  ofChars (stripLineEnd line.toList)

end Event

end BlockLink
