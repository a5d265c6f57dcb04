import BlockLink.Block.Json
import BlockLink.Board.Basic

/-!
# `BlockLink/Board/Json.lean` — the JSON layout of boards

The same freedom as for project files: defaults, records as arrays, fields to skip. Pin tables map
pin numbers, written as keys, to names; of a repeated key the last value counts.
-/

set_option autoImplicit false

namespace BlockLink

open BlockLink.Text

namespace Board

/-- Reads a number as JSON writes a natural number, and no other spelling of it. -/
def plainNat? (s : String) : Option Nat :=
  match s.toList with
  | ['0'] => some 0
  | '0' :: _ => none
  | cs => readNat? cs

/-- Reads a pin number written as a key; its digits have to stand there as they are. -/
def pinKey? (key : Json.Key) : Option Pin := do
  let n ← plainNat? (← key.text)
  if key.plain && n < UInt32.size then some (UInt32.ofNat n) else none

/-- Reads a port number. -/
def port? : Json → Option UInt16
  | .number s => (plainNat? s).bind fun n => if n < UInt16.size then some (UInt16.ofNat n) else none
  | _ => none

/-- Reads a pin table. -/
def pins? : Nat → Json → Option (SortedMap Pin String)
  | _ + 1, .object fields => do
    let pairs ← fields.mapM fun (key, value) => do
      let pin ← pinKey? key
      let name ← value.text?
      some (pin, name)
    some (.ofList pairs)
  | _, _ => none

/-- Reads a pinout. -/
def pinout? : Nat → Json → Option Pinout
  | 0, _ => none
  | room + 1, json =>
    match json.fields? [["digitalOutput"], ["digitalInput"], ["analogInput"], ["analogOutput"]] with
    | some [digitalOutput, digitalInput, analogInput, analogOutput] => do
      let digitalOutput ← Json.optional? .empty (pins? room) digitalOutput
      let digitalInput ← Json.optional? .empty (pins? room) digitalInput
      let analogInput ← Json.optional? .empty (pins? room) analogInput
      let analogOutput ← Json.optional? .empty (pins? room) analogOutput
      some { digitalOutput, digitalInput, analogInput, analogOutput }
    | _ => none

/-- Reads a broker; without a port it is the usual one, 1883. -/
def broker? : Nat → Json → Option Broker
  | 0, _ => none
  | _ + 1, json =>
    match json.fields? [["url"], ["port"], ["deviceId", "deviceID"], ["username"],
    ["password"]] with
    | some [url, port, deviceId, username, password] => do
      let url ← Json.required? Json.text? url
      let port ← Json.optional? 1883 port? port
      let deviceId ← Json.required? Json.text? deviceId
      let username ← Json.optional? "" Json.text? username
      let password ← Json.optional? "" Json.text? password
      some { url, port, deviceId, username, password }
    | _ => none

/-- Reads a board. -/
def ofJson? : Nat → Json → Option Board
  | 0, _ => none
  | room + 1, json =>
    match json.fields? [["name"], ["pinout"], ["broker"]] with
    | some [name, pinout, broker] => do
      let name ← Json.optional? "" Json.text? name
      let pinout ← Json.optional? none (Json.nullable? (pinout? room)) pinout
      let broker ← Json.optional? none (Json.nullable? (broker? room)) broker
      some { name, pinout, broker }
    | _ => none

/-- Accepts the JSON of a board whose pin names can be spliced into code. -/
def fromJson (json : Json) : Except BoardError Board :=
  match ofJson? maxNesting json with
  | some b => b.check
  | none => throw .malformed

/-- Accepts the text of a board description. -/
def fromText (s : String) : Except BoardError Board :=
  match Json.read? s with
  | some json => fromJson json
  | none => throw .malformed

end Board

end BlockLink
