import BlockLink.Compile.State
import BlockLink.Literal

/-!
# `BlockLink/Compile/Operand.lean` — the inputs of a block, compiled

Each slot of a block compiles to an operand, expandable slots to several. What an operand is good
for depends on where the block puts it: the same literal is a number in a sum, a string in a join
and a name in an assignment. The functions of `Operands` are these readings; each fails with the
place of the operand it did not find or could not use.
-/

set_option autoImplicit false

namespace BlockLink

open BlockLink.Text

/-- A compiled input. -/
inductive Operand where
  /-- Text as it was typed. -/
  | literal (text : String)
  /-- A name that the block binds. -/
  | name (text : String)
  /-- The code of a block dropped into the slot. -/
  | expression (code : Code)
  /-- The code of a C-shaped slot. -/
  | script (code : Code)
  deriving DecidableEq, Repr

/-- The compiled inputs of a block. -/
structure Operands where
  selector : Selector
  items : List Operand
  deriving DecidableEq, Repr

/-- The global a variable is kept in. -/
def variableText (name : String) : String :=
  "vars[" ++ quote name ++ "]"

namespace Operands

/-- The operand at a place. -/
def get (ops : Operands) (i : Nat) : Except CompileError Operand :=
  match ops.items[i]? with
  | some x => pure x
  | none => throw (.missingInput ops.selector i)

/-- The operand at a place as a value of its own type. -/
def value (ops : Operands) (i : Nat) : Except CompileError Code := do
  match ← ops.get i with
  | .literal s => pure (Literal.classify s).lua
  | .name s => pure (variableText s)
  | .expression c => pure c
  | .script _ => throw (.wrongInputKind ops.selector i .value)

/-- The operand at a place as a number. -/
def number (ops : Operands) (i : Nat) : Except CompileError Code := do
  match ← ops.get i with
  | .literal s => pure (Literal.classify s).luaNumber
  | _ => ops.value i

/-- The operand at a place as a string; a literal keeps its exact text. -/
def string (ops : Operands) (i : Nat) : Except CompileError Code := do
  match ← ops.get i with
  | .literal s => pure (quote s)
  | _ => return "_s(" ++ (← ops.value i) ++ ")"

/-- The operand at a place as a script; an empty literal is an empty script. -/
def script (ops : Operands) (i : Nat) : Except CompileError Code := do
  match ← ops.get i with
  | .script c => pure c
  | .literal s => if s = "" then pure .empty else throw (.wrongInputKind ops.selector i .script)
  | _ => throw (.wrongInputKind ops.selector i .script)

/-- The operand at a place as a name. -/
def name (ops : Operands) (i : Nat) : Except CompileError String := do
  match ← ops.get i with
  | .literal s | .name s => pure s
  | _ => throw (.wrongInputKind ops.selector i .name)

/-- The operand at a place as a pin number; `none` if it is only known when the code runs. -/
def pin (ops : Operands) (i : Nat) : Except CompileError (Option Pin) := do
  match ← ops.get i with
  | .literal s => pure (readWord? (trim s.toList))
  | _ => pure none

/-- The operands from a place on as values. -/
def valuesFrom (ops : Operands) (i : Nat) : Except CompileError (List Code) :=
  (List.range' i (ops.items.length - i)).mapM ops.value

/-- All operands as strings. -/
def strings (ops : Operands) : Except CompileError (List Code) :=
  (List.range ops.items.length).mapM ops.string

end Operands

end BlockLink
