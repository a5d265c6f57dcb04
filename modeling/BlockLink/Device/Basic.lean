import BlockLink.Board.Basic
import BlockLink.Unit

/-!
# `BlockLink/Device/Basic.lean` — a model of the board's own state

What generated code changes on a board: pin levels, pin modes, variables, and the lines printed.
Lines are collected in the order they are printed, until they are taken.
-/

set_option autoImplicit false

namespace BlockLink

/-- The state of a board. -/
structure Device where
  pins : SortedMap Pin Int
  modes : SortedMap Pin PinMode
  vars : SortedMap String String
  output : List String
  deriving DecidableEq, Repr

namespace Device

/-- A board that has just started. -/
def initial : Device := ⟨.empty, .empty, .empty, []⟩

/-- Prints a line. -/
def print (d : Device) (line : String) : Device :=
  { d with output := d.output ++ [line] }

/-- Takes the lines printed so far. -/
def takeOutput (d : Device) : List String × Device :=
  (d.output, { d with output := [] })

/-- Puts a pin into the mode with a given number, and says whether it was not in it. A number that
is no mode changes nothing. -/
def configurePin (d : Device) (pin : Pin) (code : Nat) : Bool × Device :=
  match PinMode.ofCode? code with
  | some mode => (d.modes.get? pin ≠ some mode, { d with modes := d.modes.insert pin mode })
  | none => (false, d)

/-- Writes a digital pin: one is high, anything else is low. -/
def writeDigital (d : Device) (pin : Pin) (level : Int) : Device :=
  let d := (d.configurePin pin PinMode.output.code).2
  let level : Int := if level = 1 then 1 else 0
  ({ d with pins := d.pins.insert pin level }).print
    ("pv:" ++ wordText pin ++ ":" ++ toString level)

/-- Reads a digital pin; one that was never written is low. -/
def readDigital (d : Device) (pin : Pin) : Int × Device :=
  let d := (d.configurePin pin PinMode.input.code).2
  ((d.pins.get? pin).getD 0, d)

/-- The line that reports a variable. -/
def variableLine (name value : String) : String :=
  "vv:" ++ name ++ ":" ++ value

/-- Sets a variable and reports it. -/
def setVar (d : Device) (name value : String) : Device :=
  let d := d.print (variableLine name value)
  { d with vars := d.vars.insert name value }

end Device

end BlockLink
