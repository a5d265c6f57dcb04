import BlockLink.SortedMap
import BlockLink.Text.Escaped
import BlockLink.Text.Identifier
import BlockLink.Text.Quoted

/-!
# `BlockLink/Board/Basic.lean` — what a board offers

A board has pins, each usable in some of four modes under a name of its own, and may know a message
broker. Both are optional: the blocks that need them then compile to nothing.

Pin names are spliced into generated code as they are, so a board is only accepted when they have
the shape of Lua names. The channel of an analog input may also be a numeral or a dotted path.
-/

set_option autoImplicit false

namespace BlockLink

open BlockLink.Text

/-- The number printed beside a pin. -/
abbrev Pin := UInt32

/-- What a pin is set up for. -/
inductive PinMode where
  | output
  | input
  | pwm
  | analog
  deriving DecidableEq, Repr

namespace PinMode

/-- The number a board keeps for a mode in its table of pin modes. -/
def code : PinMode → Nat
  | .output => 0
  | .input => 1
  | .pwm => 2
  | .analog => 3

/-- The mode with a given number. -/
def ofCode? : Nat → Option PinMode
  | 0 => some .output
  | 1 => some .input
  | 2 => some .pwm
  | 3 => some .analog
  | _ => none

@[simp]
theorem ofCode?_code (m : PinMode) : ofCode? m.code = some m := by
  cases m <;> rfl

end PinMode

/-- The pins of a board that can be used in each mode, with the names the board has for them. -/
structure Pinout where
  digitalOutput : SortedMap Pin String
  digitalInput : SortedMap Pin String
  analogInput : SortedMap Pin String
  analogOutput : SortedMap Pin String
  deriving DecidableEq, Repr

namespace Pinout

/-- A pinout without pins. -/
def empty : Pinout := ⟨.empty, .empty, .empty, .empty⟩

/-- The pins that can be used in a mode. -/
def table (p : Pinout) : PinMode → SortedMap Pin String
  | .output => p.digitalOutput
  | .input => p.digitalInput
  | .pwm => p.analogOutput
  | .analog => p.analogInput

/-- Whether a pin is digital in either direction. -/
def isDigital (p : Pinout) (pin : Pin) : Bool :=
  p.digitalOutput.contains pin || p.digitalInput.contains pin

end Pinout

/-- How to reach the message broker. -/
structure Broker where
  url : String
  port : UInt16
  deviceId : String
  username : String
  password : String
  deriving DecidableEq, Repr

/-- The Lua statement that connects the shared client unless it is connected. -/
def Broker.connect (b : Broker) : String :=
  "if cfg.m == nil then cfg.m = mqtt.client(" ++ quote b.deviceId ++ ", " ++ quote b.url ++ ", "
    ++ Nat.repr b.port.toNat ++ ", false) cfg.m:connect(" ++ quote b.username ++ ", "
    ++ quote b.password ++ ") end"

/-- A board to compile for. -/
structure Board where
  name : String
  pinout : Option Pinout
  broker : Option Broker
  deriving DecidableEq, Repr

/-- Why a board description is refused. -/
inductive BoardError where
  /-- It is not JSON, or not the JSON of a board. -/
  | malformed
  | badPinName (pin : Pin) (name : String)
  deriving DecidableEq, Repr

/-- The text of the error. -/
def BoardError.message : BoardError → String
  | .malformed => "invalid board config: "
  | .badPinName pin name =>
    "pin " ++ Nat.repr pin.toNat ++ " has a name that is not a lua identifier: " ++ escaped name

namespace Board

/-- A board about which nothing is known. -/
def blank : Board := ⟨"", none, none⟩

/-- Whether a text may be spliced in as the channel of an analog input. -/
def isChannel (s : String) : Bool :=
  !s.isEmpty && s.toList.all fun c => isNameChar c || c == '.'

/-- The first pin whose name cannot be spliced into code: the digital outputs come first, then the
digital inputs, the analog outputs and the analog inputs, each by pin number. -/
def badPin? (b : Board) : Option (Pin × String) :=
  b.pinout.bind fun p =>
    let named := p.digitalOutput.entries ++ p.digitalInput.entries ++ p.analogOutput.entries
    (named.find? fun e => !isIdentifier e.2).or
      (p.analogInput.entries.find? fun e => !isChannel e.2)

/-- Accepts a board whose pin names can all be spliced into code. -/
def check (b : Board) : Except BoardError Board :=
  match b.badPin? with
  | some (pin, name) => throw (.badPinName pin name)
  | none => pure b

end Board

end BlockLink
