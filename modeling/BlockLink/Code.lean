import BlockLink.Board.Basic
import BlockLink.Unit

/-!
# `BlockLink/Code.lean` — generated Lua, with what matters about it kept apart

Generated code is a tree of text in which everything that bears on pins and on scheduling has a
constructor of its own: the guard that sets a pin's mode, the access that needs it, the point where
other scripts may run, loops, branches, the two operators that may skip their right operand, and
functions that are made here and called elsewhere. All else is plain text.

`Code.render` is the Lua source. It writes the parts of a node in the order the node lists them, so
the order of evaluation that Lua gives the text can be read off the tree.
-/

set_option autoImplicit false

namespace BlockLink

/-- A piece of generated Lua. -/
inductive Code where
  /-- Text that touches no pin and never lets other scripts run by itself. -/
  | text (s : String)
  | seq (first second : Code)
  /-- Lets the other scripts run. -/
  | pause
  /-- Puts a pin into a mode unless the board's table says that it is in it. -/
  | guard (pin : Pin) (mode : PinMode) (setup : String)
  /-- Text that uses a pin, which has to be in the given mode. -/
  | access (pin : Pin) (mode : PinMode) (s : String)
  | whileLoop (condition body : Code)
  | forLoop (count body : Code)
  | ifThen (condition yes : Code)
  | ifElse (condition yes no : Code)
  /-- An operator that looks at its right operand only if the left one does not decide. -/
  | shortCircuit (left : Code) (operator : String) (right : Code)
  /-- A function value; its body does not run here. -/
  | function (parameters : String) (body : Code)
  /-- A function called on the spot. -/
  | runNow (body : Code)
  deriving DecidableEq, Repr

namespace Code

/-- No code. -/
def empty : Code := .text ""

instance : Inhabited Code := ⟨empty⟩

instance : Append Code := ⟨.seq⟩

instance : Coe String Code := ⟨.text⟩

/-- The Lua source of generated code. -/
def render : Code → String
  | .text s => s
  | .seq a b => a.render ++ b.render
  | .pause => "c.yield()"
  | .guard pin mode setup =>
    "if cfg.p[" ++ wordText pin ++ "] ~= " ++ Nat.repr mode.code ++ " then " ++ setup
      ++ " cfg.p[" ++ wordText pin ++ "] = " ++ Nat.repr mode.code ++ " end "
  | .access _ _ s => s
  | .whileLoop condition body => "while " ++ condition.render ++ " do" ++ body.render ++ "end"
  | .forLoop count body => "for i = 1, " ++ count.render ++ " do" ++ body.render ++ "end"
  | .ifThen condition yes => "if " ++ condition.render ++ " then" ++ yes.render ++ "end"
  | .ifElse condition yes no =>
    "if " ++ condition.render ++ " then" ++ yes.render ++ "else" ++ no.render ++ "end"
  | .shortCircuit left operator right =>
    "(" ++ left.render ++ " " ++ operator ++ " " ++ right.render ++ ")"
  | .function parameters body => "function(" ++ parameters ++ ")" ++ body.render ++ "end"
  | .runNow body => "(function()" ++ body.render ++ "end)()"

@[simp]
theorem render_empty : empty.render = "" := rfl

@[simp]
theorem render_append (a b : Code) : (a ++ b).render = a.render ++ b.render := rfl

@[simp]
theorem render_text (s : String) : (Code.text s).render = s := rfl

/-- Pieces with a text between each two. -/
def join (between : String) : List Code → Code
  | [] => empty
  | [c] => c
  | c :: rest => c ++ .text between ++ join between rest

end Code

end BlockLink
