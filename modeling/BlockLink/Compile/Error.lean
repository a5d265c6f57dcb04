import BlockLink.Selector
import BlockLink.Text.Escaped
import BlockLink.Unit

/-!
# `BlockLink/Compile/Error.lean` — what can be wrong with a script

Two kinds of trouble, kept apart. A `CompileError` is a fault of the block tree and abandons the
request. A `Diagnostic` is a block that does nothing on this board; the rest of the script runs, and
each diagnostic is reported once.
-/

set_option autoImplicit false

namespace BlockLink

open BlockLink.Text

/-- What a block expected to find in one of its slots. -/
inductive InputKind where
  | value
  | script
  | name
  deriving DecidableEq, Repr

/-- How messages call it. -/
def InputKind.text : InputKind → String
  | .value => "Value"
  | .script => "Script"
  | .name => "Name"

/-- A fault of the block tree. -/
inductive CompileError where
  | unknownSelector (selector : String)
  | missingInput (selector : Selector) (index : Nat)
  | wrongInputKind (selector : Selector) (index : Nat) (expected : InputKind)
  | unsupportedOption (selector : Selector) (option : String)
  /-- Only reporters and predicates have a value to show. -/
  | notAReporter (selector : String)
  deriving DecidableEq, Repr

/-- The text of the error. -/
def CompileError.message : CompileError → String
  | .unknownSelector selector => "unknown block: " ++ selector
  | .missingInput selector index => selector.name ++ " is missing input " ++ Nat.repr index
  | .wrongInputKind selector index expected =>
    selector.name ++ " expected " ++ expected.text ++ " for input " ++ Nat.repr index
  | .unsupportedOption selector option =>
    selector.name ++ " does not support option " ++ escaped option
  | .notAReporter selector => selector ++ " does not report a value"

/-- Why a block does nothing. -/
inductive InertReason where
  | noPinout
  | unknownPin (pin : UInt32)
  | dynamicPin
  | noBroker
  deriving DecidableEq, Repr

/-- A block that does nothing. -/
structure Diagnostic where
  selector : Selector
  reason : InertReason
  deriving DecidableEq, Repr

/-- The text of the diagnostic. -/
def Diagnostic.message (d : Diagnostic) : String :=
  let reason := match d.reason with
    | .noPinout => "the board has no pinout"
    | .unknownPin pin => "the board has no suitable pin " ++ wordText pin
    | .dynamicPin => "pin numbers must be typed in directly"
    | .noBroker => "no MQTT broker is configured"
  d.selector.name ++ ": " ++ reason ++ ", so this block does nothing"

end BlockLink
