import BlockLink.Compile.Operand

/-!
# `BlockLink/Compile/Template.lean` — the code of a single block

Given its compiled operands, a block's code is a template with the operands in their places.
`plain` holds the templates that depend on nothing but the operands; `emit` adds the blocks that
use pins, call unknown code or need a broker, and so read or change what the compiler remembers.

Operands are looked at in the order the template writes them, which decides the error that is
reported when several are wrong.
-/

set_option autoImplicit false

namespace BlockLink.Template

open BlockLink.Text

/-- The string literal of a line tag for a unit, such as `"pb:3:"`. -/
def unitTag (tag : String) (unit : UnitRef) : String :=
  quote (tag ++ ":" ++ unit.text ++ ":")

/-- The string literal of the tag that reports a variable. -/
def variableTag (name : String) : String :=
  quote ("vv:" ++ name ++ ":")

/-- The end of a loop body: a line that lets the other scripts run. -/
def yieldPoint (ctx : Context) : Code :=
  if ctx.yields then .pause ++ "\n" else .empty

/-- A call of a function. -/
def call (f : String) (args : List Code) : Code :=
  .text f ++ "(" ++ Code.join ", " args ++ ")"

/-- An operator between two operands, in parentheses. -/
def binary (a : Code) (operator : String) (b : Code) : Code :=
  "(" ++ a ++ " " ++ operator ++ " " ++ b ++ ")"

/-- Waits for a number of seconds. -/
def wait (ctx : Context) (seconds : Code) : Code :=
  if ctx.yields then
    "do local t = tmr.read() "
      ++ Code.whileLoop ("tmr.getdiffnow(nil, t) < " ++ seconds ++ " * 1000000")
        (" " ++ Code.pause ++ " ")
      ++ " end\n"
  else "tmr.delay(tmr.SYS_TIMER, " ++ seconds ++ " * tmr.SEC)\n"

/-- Waits until a condition holds. -/
def waitUntil (ctx : Context) (condition : Code) : Code :=
  Code.whileLoop ("not " ++ condition) (if ctx.yields then " " ++ Code.pause ++ " " else " ")
    ++ "\n"

/-- What the one-operand functions of the palette put in front of and behind their operand. -/
def monadic? (f : String) : Option (String × String) :=
  [("abs", "math.abs(", ")"), ("ceiling", "math.ceil(", ")"), ("floor", "math.floor(", ")"),
   ("sqrt", "math.sqrt(", ")"), ("sin", "math.sin(math.rad(", "))"),
   ("cos", "math.cos(math.rad(", "))"), ("tan", "math.tan(math.rad(", "))"),
   ("asin", "math.deg(math.asin(", "))"), ("acos", "math.deg(math.acos(", "))"),
   ("atan", "math.deg(math.atan(", "))"), ("ln", "math.log(", ")"), ("log", "math.log(", ", 10)"),
   ("e^", "math.exp(", ")"), ("10^", "10 ^ (", ")")].lookup f

/-- A function of one number, picked by name from a menu. -/
def monadic (ops : Operands) : Except CompileError Code := do
  match ← ops.get 0 with
  | .literal s =>
    let f := String.ofList (trim s.toList)
    let x ← ops.number 1
    match monadic? f with
    | some (front, back) => pure ("(" ++ Code.text front ++ x ++ Code.text back ++ ")")
    | none => throw (.unsupportedOption ops.selector f)
  | _ => throw (.wrongInputKind ops.selector 0 .name)

/-- A list with its length. -/
def newList : List Code → Code
  | [] => "\x7blength = 0\x7d"
  | items =>
    "\x7b" ++ Code.join ", " items ++ ", length = " ++ Code.text (Nat.repr items.length) ++ "\x7d"

/-- Texts put together. -/
def joinWords : List Code → Code
  | [] => "\"\""
  | items => "(" ++ Code.join " .. " items ++ ")"

/-- Reports the value that a variable now has. -/
def reportVariable (name : String) : Code :=
  .text (" print(" ++ variableTag name ++ " .. _s(" ++ variableText name ++ "))\n")

/-- The templates that depend on the operands alone. The selectors of `emit` have none. -/
def plain (ctx : Context) (ops : Operands) : Except CompileError Code := do
  match ops.selector with
  | .doWait => return wait ctx (← ops.number 0)
  | .doWaitUntil => return waitUntil ctx (← ops.value 0)
  | .doForever => return Code.whileLoop "true" ("\n" ++ (← ops.script 0) ++ yieldPoint ctx) ++ "\n"
  | .doRepeat =>
    let count ← ops.number 0
    let body ← ops.script 1
    return Code.forLoop count ("\n" ++ body ++ yieldPoint ctx) ++ "\n"
  | .doIf =>
    let condition ← ops.value 0
    let yes ← ops.script 1
    return Code.ifThen condition ("\n" ++ yes) ++ "\n"
  | .doIfElse =>
    let condition ← ops.value 0
    let yes ← ops.script 1
    let no ← ops.script 2
    return Code.ifElse condition ("\n" ++ yes) ("\n" ++ no) ++ "\n"
  | .doStopThis => return "do return end\n"
  | .doStopAll =>
    return "do for k in pairs(cr) do print(\"dc:\" .. k .. \":\") cr[k] = nil end cn = 0 return end\n"
  | .reifyScript => return "(" ++ Code.function "" ("\n" ++ (← ops.script 0)) ++ ")"
  | .reifyReporter =>
    if ops.items.isEmpty then return "(" ++ Code.function "" " " ++ ")"
    else return "(" ++ Code.function "" (" return " ++ (← ops.value 0) ++ " ") ++ ")"
  | .doReport =>
    return "do local r = " ++ (← ops.value 0)
      ++ Code.text (" print(" ++ unitTag "pb" ctx.unit ++ " .. _s(r)) return r end\n")
  | .reportSum => return binary (← ops.number 0) "+" (← ops.number 1)
  | .reportDifference => return binary (← ops.number 0) "-" (← ops.number 1)
  | .reportProduct => return binary (← ops.number 0) "*" (← ops.number 1)
  | .reportQuotient => return binary (← ops.number 0) "/" (← ops.number 1)
  | .reportModulus => return binary (← ops.number 0) "%" (← ops.number 1)
  | .reportMonadic => monadic ops
  | .reportRandom => return call "math.random" [← ops.number 0, ← ops.number 1]
  | .reportLessThan => return binary (← ops.value 0) "<" (← ops.value 1)
  | .reportEquals => return binary (← ops.value 0) "==" (← ops.value 1)
  | .reportGreaterThan => return binary (← ops.value 0) ">" (← ops.value 1)
  | .reportAnd => return Code.shortCircuit (← ops.value 0) "and" (← ops.value 1)
  | .reportOr => return Code.shortCircuit (← ops.value 0) "or" (← ops.value 1)
  | .reportNot => return "(not " ++ (← ops.value 0) ++ ")"
  | .reportTrue => return "true"
  | .reportFalse => return "false"
  | .reportJoinWords => return joinWords (← ops.strings)
  | .reportGetVar => return variableText (← ops.name 0)
  | .doSetVar =>
    let name ← ops.name 0
    let value ← ops.value 1
    return Code.text (variableText name ++ " = ") ++ value ++ reportVariable name
  | .doChangeVar =>
    let name ← ops.name 0
    let change ← ops.number 1
    return Code.text (variableText name ++ " = (tonumber(" ++ variableText name ++ ") or 0) + ")
      ++ change ++ reportVariable name
  | .reportNewList => return newList (← ops.valuesFrom 0)
  | .reportListItem => return call "_lg" [← ops.value 1, ← ops.value 0]
  | .reportListLength => return call "_ll" [← ops.value 0]
  | .reportListContainsItem => return call "_lh" [← ops.value 0, ← ops.value 1]
  | .addListItem => return call "_la" [← ops.value 1, ← ops.value 0] ++ "\n"
  | .deleteListItem => return call "_ld" [← ops.value 1, ← ops.value 0] ++ "\n"
  | .insertListItem => return call "_li" [← ops.value 2, ← ops.value 1, ← ops.value 0] ++ "\n"
  | .replaceListItem => return call "_lr" [← ops.value 1, ← ops.value 0, ← ops.value 2] ++ "\n"
  | _ => return .empty

/-! ## Pins -/

/-- The pin a block names, with the board's name for it in the given mode. Without one the block
does nothing, and that is reported. -/
def resolvePin (board : Board) (ops : Operands) (mode : PinMode) :
    CompileM (Option (Pin × String)) := do
  match board.pinout with
  | none =>
    CompileM.inert ops.selector .noPinout
    pure none
  | some pinout =>
    match ← ops.pin 0 with
    | none =>
      CompileM.inert ops.selector .dynamicPin
      pure none
    | some pin =>
      match (pinout.table mode).get? pin with
      | some name => pure (some (pin, name))
      | none =>
        CompileM.inert ops.selector (.unknownPin pin)
        pure none

/-- The statements that put a pin into a mode. -/
def setup (pin : Pin) (name : String) : PinMode → String
  | .output => "pio.pin.setdir(pio.OUTPUT, pio." ++ name ++ ")"
  | .input => "pio.pin.setdir(pio.INPUT, pio." ++ name ++ ")"
  | .pwm =>
    "cfg.w[" ++ wordText pin ++ "] = pwm.attach(pio." ++ name ++ ", 1000, 0) cfg.w["
      ++ wordText pin ++ "]:start()"
  | .analog =>
    "cfg.a[" ++ wordText pin ++ "] = adc.setup(adc.ADC1, adc.AVDD, 3220):setupchan(12, " ++ name
      ++ ")"

/-- The operation on a pin in a mode; a write takes the level from the local `v`. -/
def operation (pin : Pin) (name : String) : PinMode → String
  | .output => "pio.pin.setval(v, pio." ++ name ++ ")"
  | .input => "pio.pin.getval(pio." ++ name ++ ")"
  | .pwm => "cfg.w[" ++ wordText pin ++ "]:setduty(v / 100)"
  | .analog => "cfg.a[" ++ wordText pin ++ "]:read()"

/-- Writes a level to a pin and reports it. -/
def writePin (guard : Option Code) (pin : Pin) (name : String) (mode : PinMode) (level : Code) :
    Code :=
  guard.getD .empty ++ "do local v = " ++ level ++ " "
    ++ Code.access pin mode (operation pin name mode)
    ++ Code.text (" print(\"pv:" ++ wordText pin ++ ":\" .. v) end\n")

/-- Reads a pin. With a guard the reading is a function called on the spot, so that it stays an
expression. -/
def readPin (guard : Option Code) (pin : Pin) (name : String) (mode : PinMode) : Code :=
  let read := Code.access pin mode (operation pin name mode)
  match guard with
  | none => read
  | some g => Code.runNow (" " ++ g ++ "return " ++ read ++ " ")

/-- The level operand of a digital write. -/
def level (ops : Operands) : Except CompileError Code := do
  match ← ops.get 1 with
  | .literal s => return if (Literal.classify s).isHigh then "1" else "0"
  | _ => return call "_d" [← ops.value 1]

/-- A block that reads a pin in a mode. -/
def readBlock (board : Board) (ops : Operands) (mode : PinMode) : CompileM Code := do
  match ← resolvePin board ops mode with
  | none => pure "nil"
  | some (pin, name) =>
    let guard ← CompileM.requireMode pin mode (setup pin name mode)
    pure (readPin guard pin name mode)

/-! ## Every block -/

/-- A call of the function that the first operand computes, if it computes one. -/
def callOperand (ops : Operands) : Except CompileError (Option Code) := do
  match ← ops.get 0 with
  | .expression f => return some (f ++ "(" ++ Code.join ", " (← ops.valuesFrom 1) ++ ")")
  | _ => return none

/-- The function that a block of raw Lua runs, called. -/
def luaCall (ops : Operands) : Except CompileError Code := do
  match ← ops.get 0 with
  | .literal code => return Code.runNow (Code.text (" " ++ code ++ " "))
  | _ => return call "load" [← ops.string 0] ++ "()"

/-- The code of a block. A hat has none of its own. -/
def emit (board : Board) (ctx : Context) (ops : Operands) : CompileM Code := do
  match ops.selector with
  | .receiveGo => pure .empty
  | .doRun =>
    CompileM.forgetPins
    match ← callOperand ops with
    | some c => pure (c ++ "\n")
    | none => pure .empty
  | .evaluate =>
    CompileM.forgetPins
    return (← callOperand ops).getD "nil"
  | .runLua =>
    let f ← luaCall ops
    CompileM.forgetPins
    pure ("do local f = " ++ f
      ++ Code.text (" if f ~= nil then print(" ++ unitTag "pb" ctx.unit ++ " .. _s(f)) end end\n"))
  | .setPinDigital =>
    match ← resolvePin board ops .output with
    | none => pure .empty
    | some (pin, name) =>
      let level ← level ops
      let guard ← CompileM.requireMode pin .output (setup pin name .output)
      pure (writePin guard pin name .output level)
  | .setPinAnalog =>
    match ← resolvePin board ops .pwm with
    | none => pure .empty
    | some (pin, name) =>
      -- The mode is recorded before the duty operand is looked at, and stays if that fails.
      let guard ← CompileM.requireMode pin .pwm (setup pin name .pwm)
      let duty ← ops.number 1
      pure (writePin guard pin name .pwm duty)
  | .getPinDigital => readBlock board ops .input
  | .getPinAnalog => readBlock board ops .analog
  | .publishMqttMessage =>
    match board.broker with
    | none =>
      CompileM.inert ops.selector .noBroker
      pure .empty
    | some broker =>
      let topic ← ops.string 1
      let message ← ops.string 0
      pure (Code.text (broker.connect ++ " cfg.m:publish(") ++ topic ++ ", " ++ message
        ++ ", mqtt.QOS0)\n")
  | .subscribeToMqttMessage => pure .empty
  | _ => plain ctx ops

/-- The condition under which a message is taken: any message for an empty filter. -/
def messageFilter (ops : Operands) : Except CompileError Code := do
  match ← ops.get 0 with
  | .literal s => if s = "" then return "true" else return "p == " ++ (← ops.string 0)
  | _ => return "p == " ++ (← ops.string 0)

/-- Registers a callback for messages; the body runs whenever one is taken. -/
def subscribe (broker : Broker) (ctx : Context) (ops : Operands) (body : Code) :
    Except CompileError Code := do
  let accepts ← messageFilter ops
  let topic ← ops.string 1
  let handler := Code.ifThen accepts
    (Code.text (" print(" ++ unitTag "rc" ctx.unit ++ " .. p)\n") ++ body
      ++ Code.text ("print(" ++ unitTag "dc" ctx.unit ++ " .. p) "))
  return Code.text (broker.connect ++ " msg[" ++ quote ctx.unit.text ++ "] = \x7bt = ") ++ topic
    ++ ", f = " ++ Code.function "p" (" " ++ handler ++ " ") ++ "\x7d _ms(" ++ topic ++ ")\n"

end BlockLink.Template
