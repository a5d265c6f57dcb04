import BlockLink.Block.Basic
import BlockLink.Json.Reader
import BlockLink.Json.Record

/-!
# `BlockLink/Block/Json.lean` — the JSON layout of blocks and projects

`Project.toJson` writes every field but a missing successor. `Project.ofJson?` reads that layout and
the freedom around it: defaults for missing fields, records written as arrays, fields to skip, and
null for no successor.

The readers recurse on `room`, the number of arrays and objects that may still be entered. A file is
read with `maxNesting`; a value that comes from elsewhere brings its own bound.
-/

set_option autoImplicit false

namespace BlockLink

/-- How deep arrays and objects may nest in a file, the outermost one included. -/
def maxNesting : Nat := 127

namespace BlockKind

/-- The name of a shape in files. -/
def name : BlockKind → String
  | .command => "command"
  | .reporter => "reporter"
  | .predicate => "predicate"
  | .hat => "hat"

/-- The shape with a given name. -/
def ofName? (s : String) : Option BlockKind :=
  [BlockKind.command, .reporter, .predicate, .hat].find? fun k => k.name == s

/-- Reads a shape: its name, or an object that maps its name to null. -/
def ofJson? : Nat → Json → Option BlockKind
  | _, .string (some s) => ofName? s
  | _ + 1, .object [(⟨some s, _⟩, .null)] => ofName? s
  | _, _ => none

end BlockKind

/-! ## Writing -/

mutual

/-- The JSON layout of a block. -/
def Block.toJson : Block → Json
  | .mk selector kind inputs next =>
    .record ([("selector", .str selector), ("kind", .str kind.name),
      ("inputs", .array (Slot.listToJson inputs))] ++ Block.nextToJson next)

/-- The field for a successor; there is none without one. -/
def Block.nextToJson : Option Block → List (String × Json)
  | none => []
  | some b => [("next", b.toJson)]

/-- The chain of a C-shaped slot, or null. -/
def Block.scriptToJson : Option Block → Json
  | none => .null
  | some b => b.toJson

/-- The JSON layout of a slot. -/
def Slot.toJson : Slot → Json
  | .literal text => .record [("literal", .str text)]
  | .upvar name => .record [("upvarName", .str name)]
  | .script body => .record [("nestedStatement", Block.scriptToJson body)]
  | .reporter block => .record [("nestedReporter", block.toJson)]
  | .variadic slots => .record [("variadic", .array (Slot.listToJson slots))]

/-- The JSON layouts of slots. -/
def Slot.listToJson : List Slot → List Json
  | [] => []
  | slot :: rest => slot.toJson :: Slot.listToJson rest

end

/-- The JSON layout of a project. -/
def Project.toJson (p : Project) : Json :=
  .record [("name", .str p.name), ("scripts", .array (p.scripts.map Block.toJson))]

/-! ## Reading -/

mutual

/-- Reads a block and the chain below it. -/
def Block.ofJson? : Nat → Json → Option Block
  | 0, _ => none
  | room + 1, json =>
    match json.fields? [["selector"], ["kind"], ["inputs"], ["next"]] with
    | some [selector, kind, inputs, next] => do
      let selector ← Json.required? Json.text? selector
      let kind ← Json.optional? .command (BlockKind.ofJson? room) kind
      let inputs ← Json.optional? [] (Slot.listOfJson? room) inputs
      let next ← Json.optional? none (Json.nullable? (Block.ofJson? room)) next
      some (.mk selector kind inputs next)
    | _ => none

/-- Reads an array of slots. -/
def Slot.listOfJson? : Nat → Json → Option (List Slot)
  | room + 1, .array items => items.mapM (Slot.ofJson? room)
  | _, _ => none

/-- Reads a slot: an object with exactly one field, whose name says what kind of slot it is. -/
def Slot.ofJson? : Nat → Json → Option Slot
  | room + 1, .object [(⟨some kind, _⟩, value)] =>
    if kind = "literal" then value.text?.map .literal
    else if kind = "upvarName" then value.text?.map .upvar
    else if kind = "nestedStatement" then (Json.nullable? (Block.ofJson? room) value).map .script
    else if kind = "nestedReporter" then (Block.ofJson? room value).map .reporter
    else if kind = "variadic" then (Slot.listOfJson? room value).map .variadic
    else none
  | _, _ => none

end

/-- Reads a project. -/
def Project.ofJson? : Nat → Json → Option Project
  | 0, _ => none
  | room + 1, json =>
    match json.fields? [["name"], ["scripts"]] with
    | some [name, scripts] => do
      let name ← Json.optional? "" Json.text? name
      let scripts ← Json.required? (blocks? room) scripts
      some ⟨name, scripts⟩
    | _ => none
where
  /-- Reads an array of blocks. -/
  blocks? : Nat → Json → Option (List Block)
    | room + 1, .array items => items.mapM (Block.ofJson? room)
    | _, _ => none

/-- Reads the text of a project file. -/
def Project.fromText? (s : String) : Option Project :=
  (Json.read? s).bind (Project.ofJson? maxNesting)

end BlockLink
