import BlockLink.Proofs.Pins.Operands

/-!
# `BlockLink/Proofs/Compile/Layout.lean` — the text of a block, piece by piece

The code of a block is a tree, but what is said of generated Lua as a text (where it starts, what
stands in it, how long it is) only needs the row of pieces that the tree is written as.
`Layout.block` is that row for every selector: fixed texts, quoted texts and numbers, and the
operands by their places. It knows which operands were typed in, and nothing of the code of the
others.

`Operands.fill` writes the operands into a layout, and fails if one of them is missing or of the
wrong kind. `Operands.Writes` is that a template does what its layout says, errors included.
-/

set_option autoImplicit false

namespace BlockLink

open BlockLink.Text

/-- Whether a pin is known to be in a mode. -/
def PinMemory.knows (m : PinMemory) (use : Pin × PinMode) : Bool :=
  m.get? use.1 == some use.2

/-! ## Pieces

An operand can be read as a value, as a number, as a string or as a script, and what is written for
it differs: a literal is quoted in one way and not in another, and a script is nothing but a script.
These are the four readings that templates use, without the error that says which place was
wrong. -/

/-- A piece of the text of a block. -/
inductive Piece where
  /-- Text that does not depend on what the block holds. -/
  | text (s : String)
  /-- A text as a Lua string. -/
  | quoted (s : String)
  | numeral (n : Nat)
  /-- The name that the board has for a pin. -/
  | pinName (s : String)
  /-- Lua as it was typed in. -/
  | typed (s : String)
  /-- The operand at a place, read in one of the four ways. -/
  | value (i : Nat)
  | number (i : Nat)
  | string (i : Nat)
  | script (i : Nat)
  deriving DecidableEq, Repr

/-- The place of the operand that the piece is. -/
def Piece.place? : Piece → Option Nat
  | .value i | .number i | .string i | .script i => some i
  | _ => none

namespace Operand

/-- The operand without its code. -/
def blank : Operand → Operand
  | .expression _ => .expression .empty
  | .script _ => .script .empty
  | x => x

/-- What is written for the operand as a value. -/
def value? : Operand → Option String
  | .literal s => some (Literal.classify s).lua
  | .name s => some (variableText s)
  | .expression c => some c.render
  | .script _ => none

/-- What is written for the operand as a number. -/
def number? : Operand → Option String
  | .literal s => some (Literal.classify s).luaNumber
  | x => x.value?

/-- What is written for the operand as a string. -/
def string? : Operand → Option String
  | .literal s => some (quote s)
  | x => x.value?.map ("_s(" ++ · ++ ")")

/-- What is written for the operand as a script. -/
def script? : Operand → Option String
  | .script c => some c.render
  | .literal s => if s = "" then some "" else none
  | _ => none

end Operand

namespace Operands

/-- The operands without their code. -/
def shapes (ops : Operands) : List Operand :=
  ops.items.map Operand.blank

@[simp]
theorem shapes_mk (selector : Selector) (items : List Operand) :
    shapes ⟨selector, items⟩ = items.map Operand.blank := rfl

/-- What is written for a piece: nothing if the operand is missing or cannot be read in that way. -/
def written? (ops : Operands) : Piece → Option String
  | .text s | .pinName s | .typed s => some s
  | .quoted s => some (quote s)
  | .numeral n => some (Nat.repr n)
  | .value i => ops.items[i]?.bind Operand.value?
  | .number i => ops.items[i]?.bind Operand.number?
  | .string i => ops.items[i]?.bind Operand.string?
  | .script i => ops.items[i]?.bind Operand.script?

/-- What is written for pieces in order. -/
def fill (ops : Operands) : List Piece → Option String
  | [] => some ""
  | p :: ps => (ops.written? p).bind fun front => (ops.fill ps).map (front ++ ·)

end Operands

/-! ## Layouts

One layout for every template, with the same names. They are written out in full, as the templates
are, so that a property of all of them can be checked by looking at the pieces. -/

namespace Layout

/-- Pieces with a text between each two. -/
def join (between : String) (ps : List Piece) : List Piece :=
  ps.intersperse (.text between)

def call (f : String) (args : List Piece) : List Piece :=
  .text f :: .text "(" :: (join ", " args ++ [.text ")"])

def binary (a : Piece) (operator : String) (b : Piece) : List Piece :=
  [.text "(", a, .text " ", .text operator, .text " ", b, .text ")"]

def whileLoop (condition body : List Piece) : List Piece :=
  .text "while " :: (condition ++ .text " do" :: (body ++ [.text "end"]))

/-- A function in parentheses. -/
def function (body : List Piece) : List Piece :=
  .text "(" :: .text "function(" :: .text "" :: .text ")" :: (body ++ [.text "end", .text ")"])

def runNow (body : List Piece) : List Piece :=
  .text "(function()" :: (body ++ [.text "end)()"])

def yieldPoint (ctx : Context) : List Piece :=
  if ctx.yields then [.text "c.yield()", .text "\n"] else []

/-- The global a variable is kept in. -/
def global (name : String) : List Piece :=
  [.text "vars[", .quoted name, .text "]"]

def reportVariable (name : String) : List Piece :=
  .text " print(" :: .quoted ("vv:" ++ name ++ ":") :: .text " .. _s(" ::
    (global name ++ [.text "))\n"])

def unitTag (tag : String) (unit : UnitRef) : Piece :=
  .quoted (tag ++ ":" ++ unit.text ++ ":")

/-- The name that the first operand is. -/
def name? : List Operand → Option String
  | .literal s :: _ | .name s :: _ => some s
  | _ => none

/-- The layout of a function of one number, picked by name from a menu. -/
def monadic : List Operand → Option (List Piece)
  | .literal s :: _ => (Template.monadic? (String.ofList (trim s.toList))).map fun menu =>
    [.text "(", .text menu.1, .number 1, .text menu.2, .text ")"]
  | _ => none

/-- The layouts of the blocks that depend on their operands alone. -/
def plain (ctx : Context) (selector : Selector) (shapes : List Operand) : Option (List Piece) :=
  match selector with
  | .doWait => some (if ctx.yields then
      .text "do local t = tmr.read() " ::
        (whileLoop [.text "tmr.getdiffnow(nil, t) < ", .number 0, .text " * 1000000"]
          [.text " ", .text "c.yield()", .text " "] ++ [.text " end\n"])
    else [.text "tmr.delay(tmr.SYS_TIMER, ", .number 0, .text " * tmr.SEC)\n"])
  | .doWaitUntil => some (whileLoop [.text "not ", .value 0]
      (if ctx.yields then [.text " ", .text "c.yield()", .text " "] else [.text " "])
        ++ [.text "\n"])
  | .doForever =>
    some (whileLoop [.text "true"] (.text "\n" :: .script 0 :: yieldPoint ctx) ++ [.text "\n"])
  | .doRepeat => some (.text "for i = 1, " :: .number 0 :: .text " do" :: .text "\n" :: .script 1 ::
      (yieldPoint ctx ++ [.text "end", .text "\n"]))
  | .doIf =>
    some [.text "if ", .value 0, .text " then", .text "\n", .script 1, .text "end", .text "\n"]
  | .doIfElse => some [.text "if ", .value 0, .text " then", .text "\n", .script 1, .text "else",
      .text "\n", .script 2, .text "end", .text "\n"]
  | .doStopThis => some [.text "do return end\n"]
  | .doStopAll => some
      [.text "do for k in pairs(cr) do print(\"dc:\" .. k .. \":\") cr[k] = nil end cn = 0 return end\n"]
  | .reifyScript => some (function [.text "\n", .script 0])
  | .reifyReporter => some (function
      (if shapes.isEmpty then [.text " "] else [.text " return ", .value 0, .text " "]))
  | .doReport => some [.text "do local r = ", .value 0, .text " print(", unitTag "pb" ctx.unit,
      .text " .. _s(r)) return r end\n"]
  | .reportSum => some (binary (.number 0) "+" (.number 1))
  | .reportDifference => some (binary (.number 0) "-" (.number 1))
  | .reportProduct => some (binary (.number 0) "*" (.number 1))
  | .reportQuotient => some (binary (.number 0) "/" (.number 1))
  | .reportModulus => some (binary (.number 0) "%" (.number 1))
  | .reportMonadic => monadic shapes
  | .reportRandom => some (call "math.random" [.number 0, .number 1])
  | .reportLessThan => some (binary (.value 0) "<" (.value 1))
  | .reportEquals => some (binary (.value 0) "==" (.value 1))
  | .reportGreaterThan => some (binary (.value 0) ">" (.value 1))
  | .reportAnd => some (binary (.value 0) "and" (.value 1))
  | .reportOr => some (binary (.value 0) "or" (.value 1))
  | .reportNot => some [.text "(not ", .value 0, .text ")"]
  | .reportTrue => some [.text "true"]
  | .reportFalse => some [.text "false"]
  | .reportJoinWords => some (if shapes.isEmpty then [.text "\"\""]
      else .text "(" :: (join " .. " ((List.range shapes.length).map .string) ++ [.text ")"]))
  | .reportGetVar => (name? shapes).map global
  | .doSetVar => (name? shapes).map fun name =>
      global name ++ .text " = " :: .value 1 :: reportVariable name
  | .doChangeVar => (name? shapes).map fun name =>
      global name ++ .text " = (tonumber(" :: (global name ++ .text ") or 0) + " :: .number 1 ::
        reportVariable name)
  | .reportNewList => some (if shapes.isEmpty then [.text "\x7blength = 0\x7d"]
      else .text "\x7b" :: (join ", " ((List.range' 0 shapes.length).map .value)
        ++ [.text ", length = ", .numeral shapes.length, .text "\x7d"]))
  | .reportListItem => some (call "_lg" [.value 1, .value 0])
  | .reportListLength => some (call "_ll" [.value 0])
  | .reportListContainsItem => some (call "_lh" [.value 0, .value 1])
  | .addListItem => some (call "_la" [.value 1, .value 0] ++ [.text "\n"])
  | .deleteListItem => some (call "_ld" [.value 1, .value 0] ++ [.text "\n"])
  | .insertListItem => some (call "_li" [.value 2, .value 1, .value 0] ++ [.text "\n"])
  | .replaceListItem => some (call "_lr" [.value 1, .value 0, .value 2] ++ [.text "\n"])
  | _ => some []

/-! ### Pins -/

/-- The pin that the first operand names, with the board's name for it in a mode, if there is one; a
board with pins has to be given an operand. -/
def pin? (board : Board) (mode : PinMode) (shapes : List Operand) :
    Option (Option (Pin × String)) :=
  match board.pinout, shapes with
  | none, _ => some none
  | some _, [] => none
  | some _, .literal text :: _ => some (board.pinNamed? mode text)
  | some _, _ :: _ => some none

def setup (pin : Pin) (name : String) : PinMode → List Piece
  | .output => [.text "pio.pin.setdir(pio.OUTPUT, pio.", .pinName name, .text ")"]
  | .input => [.text "pio.pin.setdir(pio.INPUT, pio.", .pinName name, .text ")"]
  | .pwm => [.text "cfg.w[", .numeral pin.toNat, .text "] = pwm.attach(pio.", .pinName name,
      .text ", 1000, 0) cfg.w[", .numeral pin.toNat, .text "]:start()"]
  | .analog => [.text "cfg.a[", .numeral pin.toNat,
      .text "] = adc.setup(adc.ADC1, adc.AVDD, 3220):setupchan(12, ", .pinName name, .text ")"]

def guard (pin : Pin) (name : String) (mode : PinMode) : List Piece :=
  .text "if cfg.p[" :: .numeral pin.toNat :: .text "] ~= " :: .numeral mode.code ::
    .text " then " :: (setup pin name mode ++ [.text " cfg.p[", .numeral pin.toNat,
      .text "] = ", .numeral mode.code, .text " end "])

def operation (pin : Pin) (name : String) : PinMode → List Piece
  | .output => [.text "pio.pin.setval(v, pio.", .pinName name, .text ")"]
  | .input => [.text "pio.pin.getval(pio.", .pinName name, .text ")"]
  | .pwm => [.text "cfg.w[", .numeral pin.toNat, .text "]:setduty(v / 100)"]
  | .analog => [.text "cfg.a[", .numeral pin.toNat, .text "]:read()"]

def writePin (known : Bool) (pin : Pin) (name : String) (mode : PinMode) (level : List Piece) :
    List Piece :=
  (if known then [] else guard pin name mode) ++ .text "do local v = " :: (level ++ .text " " ::
    (operation pin name mode ++ [.text " print(\"pv:", .numeral pin.toNat,
    .text ":\" .. v) end\n"]))

def readPin (known : Bool) (pin : Pin) (name : String) (mode : PinMode) : List Piece :=
  if known then operation pin name mode
  else runNow (.text " " :: (guard pin name mode ++ .text "return " :: (operation pin name mode
    ++ [.text " "])))

def level : List Operand → List Piece
  | _ :: .literal s :: _ => [.text (if (Literal.classify s).isHigh then "1" else "0")]
  | _ => call "_d" [.value 1]

/-! ### Every block -/

/-- A call of what the first operand computes, and nothing if it computes nothing. -/
def callOperand : List Operand → Option (Option (List Piece))
  | [] => none
  | .expression _ :: args => some (some (.value 0 :: .text "(" ::
      (join ", " ((List.range' 1 args.length).map .value) ++ [.text ")"])))
  | _ :: _ => some none

def luaCall : List Operand → List Piece
  | .literal code :: _ => runNow [.text " ", .typed code, .text " "]
  | _ => call "load" [.string 0] ++ [.text "()"]

def connect (broker : Broker) : List Piece :=
  [.text "if cfg.m == nil then cfg.m = mqtt.client(", .quoted broker.deviceId, .text ", ",
    .quoted broker.url, .text ", ", .numeral broker.port.toNat, .text ", false) cfg.m:connect(",
    .quoted broker.username, .text ", ", .quoted broker.password, .text ") end"]

/-- The layout of a block, given whether the pin that it uses is known to be in its mode. Without a
layout the block does not compile. -/
def block (board : Board) (ctx : Context) (known : Bool) (selector : Selector)
    (shapes : List Operand) : Option (List Piece) :=
  match selector with
  | .doRun => (callOperand shapes).map fun call => call.elim [] (· ++ [.text "\n"])
  | .evaluate => (callOperand shapes).map fun call => call.getD [.text "nil"]
  | .runLua => some (.text "do local f = " :: (luaCall shapes ++
      [.text " if f ~= nil then print(", unitTag "pb" ctx.unit, .text " .. _s(f)) end end\n"]))
  | .setPinDigital => (pin? board .output shapes).map fun named =>
      named.elim [] fun (pin, name) => writePin known pin name .output (level shapes)
  | .setPinAnalog => (pin? board .pwm shapes).map fun named =>
      named.elim [] fun (pin, name) => writePin known pin name .pwm [.number 1]
  | .getPinDigital => (pin? board .input shapes).map fun named =>
      named.elim [.text "nil"] fun (pin, name) => readPin known pin name .input
  | .getPinAnalog => (pin? board .analog shapes).map fun named =>
      named.elim [.text "nil"] fun (pin, name) => readPin known pin name .analog
  | .publishMqttMessage => some (board.broker.elim [] fun broker => connect broker ++
      [.text " cfg.m:publish(", .string 1, .text ", ", .string 0, .text ", mqtt.QOS0)\n"])
  | selector => plain ctx selector shapes

/-- The pin that a block itself uses, and the mode in which it does. -/
def use? (board : Board) (selector : Selector) (shapes : List Operand) : Option (Pin × PinMode) :=
  selector.pinMode?.bind fun mode => (pin? board mode shapes).join.map fun named => (named.1, mode)

/-- The pins known after a block, from those known after its operands. -/
def pinsAfter (board : Board) (selector : Selector) (shapes : List Operand) (m : PinMemory) :
    PinMemory :=
  match selector with
  | .doRun | .evaluate | .runLua => .empty
  | selector => (use? board selector shapes).elim m fun (pin, mode) => m.insert pin mode

def messageFilter : List Operand → List Piece
  | .literal s :: _ => if s = "" then [.text "true"] else [.text "p == ", .string 0]
  | _ => [.text "p == ", .string 0]

/-- The layout of a subscription, whose body stands behind its operands. -/
def subscribe (broker : Broker) (ctx : Context) (shapes : List Operand) : List Piece :=
  connect broker ++ .text " msg[" :: .quoted ctx.unit.text :: .text "] = \x7bt = " :: .string 1 ::
    .text ", f = " :: .text "function(" :: .text "p" :: .text ")" :: .text " " :: .text "if " ::
    (messageFilter shapes ++
      [.text " then", .text " print(", unitTag "rc" ctx.unit, .text " .. p)\n",
      .script shapes.length,
        .text "print(", unitTag "dc" ctx.unit, .text " .. p) ", .text "end", .text " ", .text "end",
        .text "\x7d _ms(", .string 1, .text ")\n"])

end Layout

/-! ## Filling

What templates put together from code, layouts put together from pieces. `Fills` is that both are
written as the same text, and it is kept by every way of putting them together. -/

/-- A piece is still there when texts are put between the pieces. -/
theorem Layout.mem_join {p : Piece} {ps : List Piece} (between : String) (h : p ∈ ps) :
    p ∈ join between ps := by
  induction ps with
  | nil => cases h
  | cons q ps ih =>
    cases ps with
    | nil => exact h
    | cons r ps =>
      rcases List.mem_cons.mp h with rfl | h
      · exact List.mem_cons_self ..
      · exact List.mem_cons_of_mem _ (List.mem_cons_of_mem _ (ih h))

namespace Code

@[simp]
theorem render_pause : Code.pause.render = "c.yield()" := rfl

@[simp]
theorem render_guard (pin : Pin) (mode : PinMode) (setup : String) :
    (Code.guard pin mode setup).render
      = "if cfg.p[" ++ wordText pin ++ "] ~= " ++ Nat.repr mode.code ++ " then " ++ setup
        ++ " cfg.p[" ++ wordText pin ++ "] = " ++ Nat.repr mode.code ++ " end " := rfl

@[simp]
theorem render_access (pin : Pin) (mode : PinMode) (s : String) :
    (Code.access pin mode s).render = s :=
  rfl

@[simp]
theorem render_whileLoop (condition body : Code) :
    (Code.whileLoop condition body).render
      = "while " ++ condition.render ++ " do" ++ body.render ++ "end" := rfl

@[simp]
theorem render_forLoop (count body : Code) :
    (Code.forLoop count body).render
      = "for i = 1, " ++ count.render ++ " do" ++ body.render ++ "end" :=
  rfl

@[simp]
theorem render_ifThen (condition yes : Code) :
    (Code.ifThen condition yes).render
      = "if " ++ condition.render ++ " then" ++ yes.render ++ "end" := rfl

@[simp]
theorem render_ifElse (condition yes no : Code) :
    (Code.ifElse condition yes no).render
      = "if " ++ condition.render ++ " then" ++ yes.render ++ "else" ++ no.render ++ "end" := rfl

@[simp]
theorem render_shortCircuit (left right : Code) (operator : String) :
    (Code.shortCircuit left operator right).render
      = "(" ++ left.render ++ " " ++ operator ++ " " ++ right.render ++ ")" := rfl

@[simp]
theorem render_function (parameters : String) (body : Code) :
    (Code.function parameters body).render
      = "function(" ++ parameters ++ ")" ++ body.render ++ "end" :=
  rfl

@[simp]
theorem render_runNow (body : Code) :
    (Code.runNow body).render = "(function()" ++ body.render ++ "end)()" := rfl

end Code

namespace Operands

variable {ops : Operands} {ps qs : List Piece}

@[simp]
theorem fill_nil (ops : Operands) : ops.fill [] = some "" := rfl

theorem fill_cons {p : Piece} {a : String} (h : ops.written? p = some a) (ps : List Piece) :
    ops.fill (p :: ps) = (ops.fill ps).map (a ++ ·) := by
  rw [fill, h, Option.bind_some]

@[simp]
theorem fill_text (ops : Operands) (s : String) (ps : List Piece) :
    ops.fill (.text s :: ps) = (ops.fill ps).map (s ++ ·) := rfl

@[simp]
theorem fill_quoted (ops : Operands) (s : String) (ps : List Piece) :
    ops.fill (.quoted s :: ps) = (ops.fill ps).map (quote s ++ ·) := rfl

@[simp]
theorem fill_numeral (ops : Operands) (n : Nat) (ps : List Piece) :
    ops.fill (.numeral n :: ps) = (ops.fill ps).map (Nat.repr n ++ ·) := rfl

@[simp]
theorem fill_pinName (ops : Operands) (s : String) (ps : List Piece) :
    ops.fill (.pinName s :: ps) = (ops.fill ps).map (s ++ ·) := rfl

@[simp]
theorem fill_typed (ops : Operands) (s : String) (ps : List Piece) :
    ops.fill (.typed s :: ps) = (ops.fill ps).map (s ++ ·) := rfl

/-- Filling goes through the pieces from left to right and stops at the first that cannot be
filled. -/
theorem fill_append (ops : Operands) (ps qs : List Piece) :
    ops.fill (ps ++ qs) = (ops.fill ps).bind fun front => (ops.fill qs).map (front ++ ·) := by
  induction ps with
  | nil => cases h : ops.fill qs <;> simp [h]
  | cons p ps ih =>
    rw [List.cons_append, fill, fill, ih]
    cases ops.written? p with
    | none => rfl
    | some a =>
      cases ops.fill ps with
      | none => rfl
      | some b => cases ops.fill qs <;> simp [String.append_assoc]

/-- Pieces cannot be filled if one of them cannot. -/
theorem fill_eq_none {p : Piece} (hmem : p ∈ ps) (hp : ops.written? p = none) :
    ops.fill ps = none := by
  induction ps with
  | nil => cases hmem
  | cons q ps ih =>
    rw [fill]
    rcases List.mem_cons.mp hmem with rfl | hmem
    · rw [hp, Option.bind_none]
    · rw [ih hmem]
      cases ops.written? q <;> rfl

/-- Pieces cannot be filled if some of them cannot. -/
theorem fill_eq_none_of_subset (h : ps ⊆ qs) (hnone : ops.fill ps = none) : ops.fill qs = none := by
  induction ps with
  | nil => cases hnone
  | cons p ps ih =>
    rw [List.cons_subset] at h
    cases hp : ops.written? p with
    | none => exact fill_eq_none h.1 hp
    | some a =>
      rw [fill_cons hp, Option.map_eq_none_iff] at hnone
      exact ih h.2 hnone

/-- The pieces are written as a piece of code is. -/
def Fills (ops : Operands) (ps : List Piece) (c : Code) : Prop :=
  ops.fill ps = some c.render

theorem Fills.append {a b : Code} (ha : ops.Fills ps a) (hb : ops.Fills qs b) :
    ops.Fills (ps ++ qs) (a ++ b) := by
  unfold Fills at ha hb ⊢
  rw [fill_append, ha, hb]
  rfl

theorem Fills.text (ops : Operands) (s : String) : ops.Fills [.text s] (.text s) := by
  simp [Fills]

theorem Fills.quoted (ops : Operands) (s : String) : ops.Fills [.quoted s] (.text (quote s)) := by
  simp [Fills]

theorem Fills.numeral (ops : Operands) (n : Nat) : ops.Fills [.numeral n] (.text (Nat.repr n)) := by
  simp [Fills]

theorem Fills.pinName (ops : Operands) (s : String) : ops.Fills [.pinName s] (.text s) := by
  simp [Fills]

theorem Fills.operand {p : Piece} {c : Code} (h : ops.written? p = some c.render) :
    ops.Fills [p] c := by
  simp [Fills, fill_cons h]

/-- Codes that are what the pieces are written as. -/
abbrev FillEach (ops : Operands) : List Piece → List Code → Prop :=
  List.Forall₂ fun p c => ops.written? p = some c.render

/-- The piece for a value is written exactly if the operand can be read as one. -/
theorem written?_value (ops : Operands) (i : Nat) :
    ops.written? (.value i) = (ops.value i).toOption.map Code.render := by
  show ops.items[i]?.bind _ = (ops.get i >>= _ : Except CompileError Code).toOption.map Code.render
  unfold get
  rcases ops.items[i]? with _ | _ | _ | _ | _ <;> rfl

/-- A literal is written as a number if it is one; everything else is written as its value. -/
theorem written?_number (ops : Operands) (i : Nat) :
    ops.written? (.number i) = (ops.number i).toOption.map Code.render := by
  have hvalue : ops.items[i]?.bind Operand.value? = _ := written?_value ops i
  show ops.items[i]?.bind _ = (ops.get i >>= _ : Except CompileError Code).toOption.map Code.render
  unfold get
  cases h : ops.items[i]? with
  | none => rfl
  | some x =>
    rw [h] at hvalue
    cases x with
    | literal s => rfl
    | name s => exact hvalue
    | expression c => exact hvalue
    | script c => exact hvalue

/-- A literal is quoted, and everything else is turned into a string when the code runs. -/
theorem written?_string (ops : Operands) (i : Nat) :
    ops.written? (.string i) = (ops.string i).toOption.map Code.render := by
  have hvalue : ops.items[i]?.bind Operand.value? = _ := written?_value ops i
  show ops.items[i]?.bind _ = (ops.get i >>= _ : Except CompileError Code).toOption.map Code.render
  unfold get
  cases h : ops.items[i]? with
  | none => rfl
  | some x =>
    rw [h, Option.bind_some] at hvalue
    have hcall : x.value?.map ("_s(" ++ · ++ ")")
        = (do return "_s(" ++ (← ops.value i) ++ ")" : Except CompileError Code).toOption.map
          Code.render := by
      rw [hvalue]
      cases ops.value i <;> rfl
    cases x with
    | literal s => rfl
    | name s => exact hcall
    | expression c => exact hcall
    | script c => exact hcall

/-- A script is written as it is, and an empty literal stands for none. -/
theorem written?_script (ops : Operands) (i : Nat) :
    ops.written? (.script i) = (ops.script i).toOption.map Code.render := by
  show ops.items[i]?.bind _ = (ops.get i >>= _ : Except CompileError Code).toOption.map Code.render
  unfold get
  rcases ops.items[i]? with _ | s | _ | _ | _
  · rfl
  · show (if s = "" then some "" else none)
      = (if s = "" then pure Code.empty else throw _ : Except CompileError Code).toOption.map
        Code.render
    split <;> rfl
  · rfl
  · rfl
  · rfl

/-! ### Shared layouts -/

/-- The texts between the pieces are those between the codes. -/
theorem fills_join (between : String) {cs : List Code} (h : ops.FillEach ps cs) :
    ops.Fills (Layout.join between ps) (Code.join between cs) := by
  induction h with
  | nil => rfl
  | @cons p c ps cs hp hps ih =>
    cases hps with
    | nil => exact Fills.operand hp
    | cons => exact ((Fills.operand hp).append (Fills.text ops between)).append ih

theorem fills_call (f : String) {cs : List Code} (h : ops.FillEach ps cs) :
    ops.Fills (Layout.call f ps) (Template.call f cs) := by
  have hjoin := fills_join ", " h
  unfold Fills at hjoin
  simp [Fills, Layout.call, Template.call, fill_append, hjoin, String.append_assoc]

theorem fills_binary {p q : Piece} {a b : Code} (operator : String)
    (ha : ops.written? p = some a.render) (hb : ops.written? q = some b.render) :
    ops.Fills (Layout.binary p operator q) (Template.binary a operator b) := by
  simp [Fills, Layout.binary, Template.binary, fill_cons ha, fill_cons hb, String.append_assoc]

theorem fills_whileLoop {condition body : Code} (hcondition : ops.Fills ps condition)
    (hbody : ops.Fills qs body) :
    ops.Fills (Layout.whileLoop ps qs) (Code.whileLoop condition body) := by
  unfold Fills at hcondition hbody
  simp [Fills, Layout.whileLoop, fill_append, hcondition, hbody, String.append_assoc]

theorem fills_function {body : Code} (h : ops.Fills ps body) :
    ops.Fills (Layout.function ps) ("(" ++ Code.function "" body ++ ")") := by
  unfold Fills at h
  simp [Fills, Layout.function, fill_append, h, String.append_assoc, -String.reduceAppend]

theorem fills_runNow {body : Code} (h : ops.Fills ps body) :
    ops.Fills (Layout.runNow ps) (Code.runNow body) := by
  unfold Fills at h
  simp [Fills, Layout.runNow, fill_append, h, String.append_assoc]

theorem fills_yieldPoint (ops : Operands) (ctx : Context) :
    ops.Fills (Layout.yieldPoint ctx) (Template.yieldPoint ctx) := by
  unfold Layout.yieldPoint Template.yieldPoint
  split <;> rfl

theorem fills_pause (ops : Operands) :
    ops.Fills [.text " ", .text "c.yield()", .text " "] (" " ++ Code.pause ++ " ") :=
  ((Fills.text ops " ").append (Fills.text ops "c.yield()")).append (Fills.text ops " ")

theorem fills_global (ops : Operands) (name : String) :
    ops.Fills (Layout.global name) (variableText name) := by
  simp [Fills, Layout.global, variableText, String.append_assoc]

theorem fills_reportVariable (ops : Operands) (name : String) :
    ops.Fills (Layout.reportVariable name) (Template.reportVariable name) := by
  have hglobal := fills_global ops name
  unfold Fills at hglobal
  simp [Fills, Layout.reportVariable, Template.reportVariable, Template.variableTag,
    fill_append, hglobal, String.append_assoc]

/-! ### Reading operands -/

/-- The computation goes through exactly if there is a layout and it can be filled, and its code is
what the layout is filled to. -/
def Writes (ops : Operands) (x : Except CompileError Code) (layout : Option (List Piece)) : Prop :=
  x.toOption.map Code.render = layout.bind ops.fill

theorem Writes.pure {c : Code} (h : ops.Fills ps c) : ops.Writes (pure c) (some ps) :=
  h.symm

/-- Reading an operand: if it cannot be read, the piece that is this reading cannot be filled. -/
theorem Writes.read {x : Except CompileError Code} {p : Piece}
    (hp : ops.written? p = x.toOption.map Code.render) (hmem : p ∈ ps)
    {k : Code → Except CompileError Code}
    (hk : ∀ a, ops.written? p = some a.render → ops.Writes (k a) (some ps)) :
    ops.Writes (x >>= k) (some ps) := by
  cases x with
  | error e => exact (fill_eq_none hmem hp).symm
  | ok a => exact hk a hp

/-- Code that was written for a part of the pieces. -/
theorem Writes.part {x : Except CompileError Code} (h : ops.Writes x (some ps))
    (hnone : ops.fill ps = none → ops.fill qs = none) {k : Code → Except CompileError Code}
    (hk : ∀ c, ops.Fills ps c → ops.Writes (k c) (some qs)) : ops.Writes (x >>= k) (some qs) := by
  cases x with
  | error e => exact (hnone h.symm).symm
  | ok c => exact hk c h.symm

/-- Reading some operands in order, all in the same way. -/
theorem Writes.readAll {read : Nat → Except CompileError Code} {piece : Nat → Piece}
    (hpiece : ∀ i, ops.written? (piece i) = (read i).toOption.map Code.render) {is : List Nat}
    (hmem : ∀ i ∈ is, piece i ∈ ps) {k : List Code → Except CompileError Code}
    (hk : ∀ cs, ops.FillEach (is.map piece) cs → ops.Writes (k cs) (some ps)) :
    ops.Writes (is.mapM read >>= k) (some ps) := by
  induction is generalizing k with
  | nil => exact hk [] .nil
  | cons i is ih =>
    rw [List.mapM_cons, bind_assoc]
    refine Writes.read (hpiece i) (hmem i (List.mem_cons_self ..)) fun a ha => ?_
    rw [bind_assoc]
    refine ih (fun j hj => hmem j (List.mem_cons_of_mem _ hj)) fun cs hcs => ?_
    rw [pure_bind]
    exact hk (a :: cs) (.cons ha hcs)

/-- Reading the first operand as a name. -/
theorem Writes.name {layout : String → List Piece} {k : String → Except CompileError Code}
    (hk : ∀ name, ops.Writes (k name) (some (layout name))) :
    ops.Writes (ops.name 0 >>= k) ((Layout.name? ops.shapes).map layout) := by
  obtain ⟨selector, items⟩ := ops
  cases items with
  | nil => rfl
  | cons x items =>
    cases x with
    | literal s => exact hk s
    | name s => exact hk s
    | expression c => rfl
    | script c => rfl

end Operands

end BlockLink
