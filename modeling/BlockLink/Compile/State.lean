import BlockLink.Code
import BlockLink.Compile.Error
import BlockLink.SortedMap

/-!
# `BlockLink/Compile/State.lean` — what the compiler remembers

While it compiles, the compiler remembers the mode it last put each pin in, so that straight-line
code sets a pin's direction only once. What it remembers holds only until other code may run, so it
is cleared wherever scripts take turns and around every nested script.

A computation keeps its changes even when it fails: pins recorded and diagnostics made before an
error stay. That is why the error is inside the state and not around it.
-/

set_option autoImplicit false

namespace BlockLink

/-- The modes that pins are known to be in. -/
abbrev PinMemory := SortedMap Pin PinMode

/-- The state of the compiler. -/
structure CompileState where
  pins : PinMemory
  diagnostics : List Diagnostic
  deriving DecidableEq, Repr

/-- Nothing known, nothing reported. -/
def CompileState.initial : CompileState := ⟨.empty, []⟩

/-- A computation of the compiler. Its state survives a failure. -/
abbrev CompileM := ExceptT CompileError (StateM CompileState)

/-- Which unit code is compiled for, and whether it may let other scripts run. -/
structure Context where
  unit : UnitRef
  yields : Bool
  deriving DecidableEq, Repr

namespace CompileState

/-- Forgets the modes of all pins. -/
def forgetPins (s : CompileState) : CompileState :=
  { s with pins := .empty }

/-- Adds a diagnostic unless it is there. -/
def report (s : CompileState) (d : Diagnostic) : CompileState :=
  if d ∈ s.diagnostics then s else { s with diagnostics := s.diagnostics ++ [d] }

end CompileState

namespace CompileM

/-- Forgets the modes of all pins. -/
def forgetPins : CompileM Unit :=
  modify CompileState.forgetPins

/-- Forgets the modes of all pins if a condition holds. -/
def forgetPinsIf (b : Bool) : CompileM Unit :=
  if b then forgetPins else pure ()

/-- Reports that a block does nothing. -/
def inert (selector : Selector) (reason : InertReason) : CompileM Unit :=
  modify fun s => s.report ⟨selector, reason⟩

/-- Records that a pin is now in a mode, and gives the guard that puts it there unless it is known
to be in it. -/
def requireMode (pin : Pin) (mode : PinMode) (setup : String) : CompileM (Option Code) := do
  let s ← get
  let (known, pins) := s.pins.exchange pin mode
  set { s with pins }
  pure (if known = some mode then none else some (.guard pin mode setup))

/-- Runs a computation and, if it succeeds, goes back to the pins known before it. -/
def restoringPins {α : Type} (act : CompileM α) : CompileM α := do
  let before ← get
  let a ← act
  modify fun s => { s with pins := before.pins }
  pure a

/-- Runs a computation with no pins known at its start or, if it succeeds, after it. -/
def isolated {α : Type} (act : CompileM α) : CompileM α := do
  forgetPins
  let a ← act
  forgetPins
  pure a

end CompileM

end BlockLink
