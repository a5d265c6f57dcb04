import BlockLink.Block.Basic
import BlockLink.Compile.Template

/-!
# `BlockLink/Compile/Chain.lean` — compiling chains of blocks

A chain compiles block by block, each block inputs first and left to right. Expandable slots are
opened in place, so the number of an operand counts through them. What the compiler remembers of the
pins is cut back in four places:

* around a nested script, which may run any number of times or never;
* around the operands of a block that lets other scripts run;
* after the second operand of *and* and *or*, which may be skipped;
* wherever a template runs code the compiler cannot see.

A subscription takes the rest of its chain as the body of its callback, where nothing may yield.
-/

set_option autoImplicit false

namespace BlockLink

/-- Runs the computation of an operand. What the second operand of *and* and *or* does to the pins
is not relied upon, because it may be skipped. -/
def CompileM.operandAt {α : Type} (selector : Selector) (index : Nat) (act : CompileM α) :
    CompileM α :=
  if (selector = .reportAnd ∨ selector = .reportOr) ∧ index = 1 then restoringPins act else act

mutual

/-- Compiles a block and every block chained below it. -/
def Block.compile (board : Board) (ctx : Context) : Block → CompileM Code
  | .mk name _ inputs next => do
    match Selector.ofName? name with
    | none => throw (.unknownSelector name)
    | some .subscribeToMqttMessage =>
      let selector := Selector.subscribeToMqttMessage
      let items ← Slot.compileList board ctx selector 0 inputs
      match board.broker with
      | none =>
        CompileM.inert selector .noBroker
        pure .empty
      | some broker =>
        let body ← CompileM.isolated (Block.compileBelow board { ctx with yields := false } next)
        Template.subscribe broker ctx ⟨selector, items⟩ body
    | some selector =>
      CompileM.forgetPinsIf selector.yields
      let items ← Slot.compileList board ctx selector 0 inputs
      CompileM.forgetPinsIf selector.yields
      let code ← Template.emit board ctx ⟨selector, items⟩
      let rest ← Block.compileBelow board ctx next
      pure (code ++ rest)

/-- Compiles the chain that starts at a block, if there is one. -/
def Block.compileBelow (board : Board) (ctx : Context) : Option Block → CompileM Code
  | none => pure .empty
  | some b => b.compile board ctx

/-- Compiles a slot, whose first operand has the given number. -/
def Slot.compile (board : Board) (ctx : Context) (selector : Selector) (index : Nat) :
    Slot → CompileM (List Operand)
  | .literal text => pure [.literal text]
  | .upvar name => pure [.name name]
  | .script body =>
    CompileM.operandAt selector index do
      return [.script (← CompileM.isolated (Block.compileBelow board ctx body))]
  | .reporter block =>
    CompileM.operandAt selector index do
      return [.expression (← block.compile board ctx)]
  | .variadic slots => Slot.compileList board ctx selector index slots

/-- Compiles slots in order. -/
def Slot.compileList (board : Board) (ctx : Context) (selector : Selector) (index : Nat) :
    List Slot → CompileM (List Operand)
  | [] => pure []
  | slot :: rest => do
    let first ← slot.compile board ctx selector index
    let others ← Slot.compileList board ctx selector (index + first.length) rest
    pure (first ++ others)

end

/-- Compiles a chain from a given state to Lua source, with the state after it. -/
def Block.compileFrom (board : Board) (ctx : Context) (b : Block) (s : CompileState) :
    Except CompileError String × CompileState :=
  let (result, s) := (b.compile board ctx).run.run s
  (result.map Code.render, s)

end BlockLink
