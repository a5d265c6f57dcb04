import BlockLink.Device.Trampoline

/-!
# `BlockLink/Device/Script.lean` — coroutine bodies given by a list of actions

The plainest bodies there are: a list of turns, each a list of actions on the device. A turn may end
with a return, and a body that has no turns left returns when it is resumed.
-/

set_option autoImplicit false

namespace BlockLink

/-- Something a script does to a device. -/
inductive DeviceAction where
  | print (line : String)
  | configure (pin : Pin) (code : Nat)
  | write (pin : Pin) (level : Int)
  | read (pin : Pin)
  /-- Reads a pin into a variable, as decimal text. -/
  | readInto (pin : Pin) (name : String)
  | set (name value : String)
  /-- Sets the level of a pin from outside. -/
  | poke (pin : Pin) (level : Int)
  deriving DecidableEq, Repr

/-- What an action answers. -/
inductive DeviceAnswer where
  | nothing
  | flag (b : Bool)
  | level (n : Int)
  | oldLevel (n : Option Int)
  deriving DecidableEq, Repr

/-- Does an action. -/
def DeviceAction.perform (d : Device) : DeviceAction → DeviceAnswer × Device
  | .print line => (.nothing, d.print line)
  | .configure pin code =>
    let (changed, d) := d.configurePin pin code
    (.flag changed, d)
  | .write pin level => (.nothing, d.writeDigital pin level)
  | .read pin =>
    let (level, d) := d.readDigital pin
    (.level level, d)
  | .readInto pin name =>
    let (level, d) := d.readDigital pin
    (.nothing, d.setVar name (toString level))
  | .set name value => (.nothing, d.setVar name value)
  | .poke pin level =>
    let (old, pins) := d.pins.exchange pin level
    (.oldLevel old, { d with pins })

/-- One turn of a script: what it does, and whether it then returns. -/
structure Turn where
  actions : List DeviceAction
  returns : Bool
  deriving DecidableEq, Repr

/-- Does actions in order. -/
def DeviceAction.performAll (d : Device) (actions : List DeviceAction) : Device :=
  actions.foldl (fun d a => (a.perform d).2) d

instance : Coroutine (List Turn) where
  resume
    | [], d => ⟨[], true, d⟩
    | turn :: rest, d => ⟨rest, turn.returns, DeviceAction.performAll d turn.actions⟩

end BlockLink
