import BlockLink.Board.Basic
import BlockLink.Proofs.Lua.Name

/-!
# `BlockLink/Proofs/Lua/Signs.lean` — what a text of Lua does to pins, read off the text alone

A reader for the Lua that scripts compile to. It goes over the tokens of a text once and writes down
the signs of everything that bears on pins and on scheduling, in the order of the text: the calls
that let other scripts run, the guards that set the mode of a pin, the uses of pins, and the edges
of what may be skipped or repeated. It knows nothing about how the text came to be.

What it does not know it refuses. The tables of the board (`cfg`, `pio`) and the scheduler (`c`) may
only be touched in the phrases listed here, word by word; a function may only be one that is called
on the spot to read a pin; nothing may be called but the functions named here; and there are no
jumps, no `repeat` and no operators that skip an operand. So a text that hides a call of the
scheduler behind another name is not read as harmless: it is not read at all.

`return` leaves no sign. What stands behind it in the text counts as run, which can only add runs.

The reader looks at nothing below the innermost construct that is open, so a text is read in the
same way wherever it stands (`Reader.Like.run`, in the module on reading).
-/

set_option autoImplicit false

namespace BlockLink.Lua

open BlockLink.Text

/-! ## Signs -/

/-- Something in a text that bears on pins or on scheduling. -/
inductive Sign where
  /-- The other scripts may run. -/
  | pause
  /-- The pin is put into the mode unless the table of the board has it in that mode. -/
  | guard (pin : String) (mode : PinMode)
  /-- A pin is used in a mode, under its name or its number. -/
  | use (mode : PinMode) (handle : String)
  /-- What follows is repeated while a condition holds: the condition, `next`, the body, `close`. -/
  | loop
  /-- What follows up to `close` is repeated a number of times. -/
  | many
  /-- One of two parts is run: the first, `next`, the second, `close`. -/
  | branch
  | next
  | close
  deriving DecidableEq, Repr

/-! ## Phrases

A phrase is a fixed row of tokens, with places for the number and the name of a pin. Several phrases
may begin with the same word, and all of those that have begun are followed until one is
complete. -/

/-- What may stand at a place of a phrase. -/
inductive Pat where
  | exactly (t : Token)
  /-- A name, which is kept. -/
  | name
  /-- A numeral, which is kept. -/
  | numeral
  /-- A numeral that does not matter. -/
  | port
  | string
  /-- A numeral or a path, and the round bracket behind it. -/
  | channel
  deriving DecidableEq, Repr

namespace Pat

def word (s : String) : Pat := exactly (.word s.toList)

def number (s : String) : Pat := exactly (.numeral s.toList)

def symbol (c : Char) : Pat := exactly (.symbol [c])

/-- Fields of fields, from the dot on. -/
def fields : List String → List Pat
  | [] => []
  | f :: fs => symbol '.' :: word f :: fields fs

/-- The entry of a table for a pin. -/
def entry : List Pat := [symbol '[', numeral, symbol ']']

/-- Arguments behind the first, from the comma on, and the closing bracket. -/
def more : List (List Pat) → List Pat
  | [] => [symbol ')']
  | a :: as => symbol ',' :: a ++ more as

/-- The arguments of a call. -/
def arguments : List (List Pat) → List Pat
  | [] => [symbol '(', symbol ')']
  | a :: as => symbol '(' :: a ++ more as

/-- A field of the table of pins, by its name. -/
def pin : List Pat := [word "pio", symbol '.', name]

end Pat

/-- What a phrase does. -/
inductive Meaning where
  | pause
  | use (mode : PinMode)
  | guard (mode : PinMode)
  /-- A guard and a use, in a function that is called on the spot. -/
  | reading (mode : PinMode)
  /-- The client for messages is connected, if it is not. -/
  | connect
  /-- A message is sent; the arguments follow. -/
  | publish
  /-- The value of a variable as a number. -/
  | amount
  /-- The head of a loop, up to the number of times. -/
  | count
  /-- The other scripts are ended. -/
  | clear
  deriving DecidableEq, Repr

/-- What is still to come of a phrase, and what was kept of it. -/
structure Phrase where
  meaning : Meaning
  rest : List Pat
  kept : List Token
  /-- The tokens of a channel that has begun. -/
  path : List Token
  deriving DecidableEq, Repr

namespace Phrase

open Pat

/-- The statements that put a pin into a mode. -/
def setup : PinMode → List Pat
  | .output =>
    word "pio" :: fields ["pin", "setdir"] ++ arguments [word "pio" :: fields ["OUTPUT"], pin]
  | .input =>
    word "pio" :: fields ["pin", "setdir"] ++ arguments [word "pio" :: fields ["INPUT"], pin]
  | .pwm =>
    word "cfg" :: fields ["w"] ++ entry ++ symbol '=' :: word "pwm" :: fields ["attach"]
      ++ arguments [pin, [number "1000"], [number "0"]]
      ++ word "cfg" :: fields ["w"] ++ entry ++ symbol ':' :: word "start" :: arguments []
  | .analog =>
    word "cfg" :: fields ["a"] ++ entry ++ symbol '=' :: word "adc" :: fields ["setup"]
      ++ arguments [word "adc" :: fields ["ADC1"], word "adc" :: fields ["AVDD"], [number "3220"]]
      ++ [symbol ':', word "setupchan", symbol '(', number "12", symbol ',', channel]

/-- A guard, behind `if cfg`. -/
def guard (mode : PinMode) : List Pat :=
  fields ["p"] ++ entry ++ exactly (.symbol ['~', '=']) :: number (Nat.repr mode.code)
    :: word "then" :: setup mode ++ word "cfg" :: fields ["p"] ++ entry
    ++ [symbol '=', number (Nat.repr mode.code), word "end"]

/-- The use of a pin in a mode, behind the name of the table. -/
def use : PinMode → List Pat
  | .output => fields ["pin", "setval"] ++ arguments [[word "v"], pin]
  | .input => fields ["pin", "getval"] ++ arguments [pin]
  | .pwm =>
    fields ["w"] ++ entry ++ symbol ':' :: word "setduty"
      :: arguments [[word "v", symbol '/', number "100"]]
  | .analog => fields ["a"] ++ entry ++ symbol ':' :: word "read" :: arguments []

/-- A guard and a use in a function that is called on the spot, behind `function`. -/
def reading (mode : PinMode) (table : String) : List Pat :=
  arguments [] ++ word "if" :: word "cfg" :: guard mode ++ word "return" :: word table :: use mode
    ++ word "end" :: symbol ')' :: arguments []

/-- Connecting the client for messages, behind `if cfg`. -/
def connect : List Pat :=
  fields ["m"] ++ exactly (.symbol ['=', '=']) :: word "nil" :: word "then"
    :: word "cfg" :: fields ["m"] ++ symbol '=' :: word "mqtt" :: fields ["client"]
    ++ arguments [[string], [string], [port], [word "false"]]
    ++ word "cfg" :: fields ["m"] ++ symbol ':' :: word "connect" :: arguments [[string], [string]]
    ++ [word "end"]

/-- Ending every script, behind `for`. -/
def clear : List Pat :=
  word "k" :: word "in" :: word "pairs" :: arguments [[word "cr"]] ++ word "do" :: word "print"
    :: arguments
      [[string, exactly (.symbol ['.', '.']), word "k", exactly (.symbol ['.', '.']), string]]
    ++ [word "cr", symbol '[', word "k", symbol ']', symbol '=', word "nil", word "end"]

/-- The phrases that begin with a word, from behind it. -/
def beginning (letters : List Char) : List Phrase :=
  match String.ofList letters with
  | "c" => [⟨.pause, fields ["yield"] ++ arguments [], [], []⟩]
  | "pio" => [⟨.use .output, use .output, [], []⟩, ⟨.use .input, use .input, [], []⟩]
  | "cfg" =>
    [⟨.use .pwm, use .pwm, [], []⟩, ⟨.use .analog, use .analog, [], []⟩,
      ⟨.guard .output, guard .output, [], []⟩, ⟨.guard .input, guard .input, [], []⟩,
      ⟨.guard .pwm, guard .pwm, [], []⟩, ⟨.guard .analog, guard .analog, [], []⟩,
      ⟨.connect, connect, [], []⟩, ⟨.publish, fields ["m"] ++ [symbol ':', word "publish"], [], []⟩]
  | "function" =>
    [⟨.reading .input, reading .input "pio", [], []⟩,
    ⟨.reading .analog, reading .analog "cfg", [], []⟩]
  | "tonumber" =>
    [⟨.amount, arguments [[word "vars", symbol '[', string, symbol ']']] ++ [word "or", number "0"],
      [], []⟩]
  | "for" =>
    [⟨.count, [word "i", symbol '=', number "1", symbol ','], [], []⟩, ⟨.clear, clear, [], []⟩]
  | _ => []

/-- Takes a token, if it fits. What a string holds does not matter. -/
def take (p : Phrase) (t : Token) : Option Phrase :=
  match t, p.rest with
  | _, [] => none
  | .string _, .string :: rest => some { p with rest := rest }
  | .string _, _ => none
  | t, .exactly t' :: rest => if t = t' then some { p with rest := rest } else none
  | .word letters, .name :: rest =>
    if reservedWords.contains (String.ofList letters) then none
    else some { p with rest := rest, kept := p.kept ++ [.word letters] }
  | .numeral text, .numeral :: rest =>
    some { p with rest := rest, kept := p.kept ++ [.numeral text] }
  | .numeral _, .port :: rest => some { p with rest := rest }
  | t, .channel :: rest =>
    if t = .symbol [')'] then
      if isArgument p.path then some { p with rest := rest, path := [] } else none
    else some { p with path := p.path ++ [t] }
  | _, _ => none

/-- The pin whose number was kept, if it is one number throughout. -/
def pin? (p : Phrase) : Option String :=
  match p.kept.filterMap fun t => match t with | .numeral text => some text | _ => none with
  | [] => none
  | n :: rest => if rest.all (· == n) then some (String.ofList n) else none

/-- What a pin was called last. -/
def handle? (p : Phrase) : Option String :=
  p.kept.getLast?.bind fun t =>
    match t with
    | .word text | .numeral text => some (String.ofList text)
    | _ => none

end Phrase

/-! ## Words -/

/-- What a word is. -/
inductive Kind where
  | does | then_ | else_ | ends | while_ | if_
  /-- `local` or `return`. -/
  | leads
  | negates
  /-- A value of its own. -/
  | constant
  /-- A function that touches no pin and lets no other script run. -/
  | called
  /-- A table of such functions. -/
  | library
  /-- A variable, or the name of a field. -/
  | stored
  | unknown
  deriving DecidableEq, Repr

/-- What a word is. -/
def kindOf (letters : List Char) : Kind :=
  match String.ofList letters with
  | "do" => .does
  | "then" => .then_
  | "else" => .else_
  | "end" => .ends
  | "while" => .while_
  | "if" => .if_
  | "local" | "return" => .leads
  | "not" => .negates
  | "nil" | "true" | "false" => .constant
  | "print" | "_s" | "_d" | "_lg" | "_ll" | "_lh" | "_la" | "_ld" | "_li" | "_lr" => .called
  | "math" | "tmr" | "mqtt" => .library
  | "vars" | "cn" | "t" | "r" | "v" | "length" => .stored
  | _ => .unknown

/-! ## The reader

A token that belongs to no phrase has an effect that depends on what stands in front of it and on
the innermost construct that is open. Nothing else is looked at. -/

/-- A construct that is open. -/
inductive Level where
  /-- What is around the text: a place for statements, or for a value. -/
  | around (statements : Bool)
  | paren | square | curly
  /-- Between `if` and `then`. -/
  | condition
  /-- Between `while` and `do`. -/
  | whileHead
  /-- Between the number of times and `do`. -/
  | countHead
  | block
  /-- The body of a loop with a condition. -/
  | loop
  /-- The body of a loop with a count. -/
  | many
  /-- Behind `then`. -/
  | yes
  /-- Behind `else`. -/
  | no
  deriving DecidableEq, Repr

/-- Whether statements may stand there. -/
def Level.isBlock : Level → Bool
  | around statements => statements
  | block | loop | many | yes | no => true
  | _ => false

/-- What stands in front of a place. -/
inductive Prior where
  /-- A whole value or statement. A bracket here would call the value. -/
  | settled
  /-- The name of a function. -/
  | callee
  | library
  | dot
  /-- Something that a value has to follow. -/
  | operand
  /-- A round bracket around a value. -/
  | bracket
  /-- `if`. -/
  | condition
  deriving DecidableEq, Repr

/-- Whether a value may begin there. -/
def Prior.isReady : Prior → Bool
  | operand | bracket | condition => true
  | _ => false

/-- What a token or a phrase comes to. -/
structure Effect where
  signs : List Sign := []
  /-- Whether the innermost construct stays open. -/
  keeps : Bool := true
  /-- What is opened. -/
  opens : List Level := []
  prior : Prior
  deriving DecidableEq, Repr

/-- A word that is no part of a phrase, inside a construct. -/
def Kind.effect (kind : Kind) (prior : Prior) (top : Level) : Option Effect :=
  match kind, top with
  | .does, .whileHead => some ⟨[.next], false, [.loop], .settled⟩
  | .does, .countHead => some ⟨[.many], false, [.many], .settled⟩
  | .does, top => if top.isBlock then some ⟨[], true, [.block], .settled⟩ else none
  | .then_, .condition => some ⟨[.branch], false, [.yes], .settled⟩
  | .else_, .yes => some ⟨[.next], false, [.no], .settled⟩
  | .ends, .block => some ⟨[], false, [], .settled⟩
  | .ends, .yes => some ⟨[.next, .close], false, [], .settled⟩
  | .ends, .loop | .ends, .many | .ends, .no => some ⟨[.close], false, [], .settled⟩
  | .while_, top => if top.isBlock then some ⟨[.loop], true, [.whileHead], .operand⟩ else none
  | .if_, top => if top.isBlock then some ⟨[], true, [.condition], .condition⟩ else none
  | .leads, top => if top.isBlock then some ⟨[], true, [], .operand⟩ else none
  | .negates, _ => if prior.isReady then some ⟨[], true, [], .operand⟩ else none
  | .constant, _ => if prior.isReady then some ⟨[], true, [], .settled⟩ else none
  | .called, _ => some ⟨[], true, [], .callee⟩
  | .library, _ => some ⟨[], true, [], .library⟩
  | .stored, _ => some ⟨[], true, [], .settled⟩
  | _, _ => none

/-- The bracket that closes a construct. -/
def Level.closer? : Level → Option Char
  | paren => some ')'
  | square => some ']'
  | curly => some '\x7d'
  | _ => none

/-- The marks that a value has to follow. -/
def operators : List (List Char) :=
  [[','], ['='], ['=', '='], ['<'], ['>'], ['+'], ['-'], ['*'], ['/'], ['%'], ['^'], ['.', '.']]

/-- An operator, a bracket or another mark that is no part of a phrase, inside a construct. -/
def symbolEffect (marks : List Char) (prior : Prior) (top : Level) : Option Effect :=
  if top.closer?.any (fun c => marks == [c]) then some ⟨[], false, [], .settled⟩
  else if operators.contains marks then some ⟨[], true, [], .operand⟩
  else match marks with
    | ['('] =>
      if prior = .callee then some ⟨[], true, [.paren], .operand⟩
      else if prior.isReady then some ⟨[], true, [.paren], .bracket⟩
      else none
    | ['['] => if prior = .settled then some ⟨[], true, [.square], .operand⟩ else none
    | ['\x7b'] => if prior.isReady then some ⟨[], true, [.curly], .operand⟩ else none
    | ['.'] => if prior = .library then some ⟨[], true, [], .dot⟩ else none
    | _ => none

/-- A token that is no part of a phrase, inside a construct. -/
def Token.effect (t : Token) (prior : Prior) (top : Level) : Option Effect :=
  match t with
  | .word letters =>
    if prior = .dot then
      if reservedWords.contains (String.ofList letters) then none else some ⟨[], true, [], .callee⟩
    else (kindOf letters).effect prior top
  | .numeral _ | .string _ => if prior.isReady then some ⟨[], true, [], .settled⟩ else none
  | .symbol marks => symbolEffect marks prior top
  | .stray _ => none

/-- A phrase that is complete, inside a construct. -/
def Phrase.effect (p : Phrase) (prior : Prior) (top : Level) : Option Effect :=
  match p.meaning with
  | .pause => some ⟨[.pause], true, [], .settled⟩
  | .use mode => p.handle?.map fun handle => ⟨[.use mode handle], true, [], .settled⟩
  | .guard mode =>
    if prior = .condition ∧ top = .condition then
      p.pin?.map fun pin => ⟨[.guard pin mode], false, [], .settled⟩
    else none
  | .reading mode =>
    if prior = .bracket ∧ top = .paren then
      p.pin?.bind fun pin => p.handle?.map fun handle =>
        ⟨[.guard pin mode, .use mode handle], false, [], .settled⟩
    else none
  | .connect =>
    if prior = .condition ∧ top = .condition then some ⟨[], false, [], .settled⟩ else none
  | .publish => some ⟨[], true, [], .callee⟩
  | .amount => some ⟨[], true, [], .settled⟩
  | .count => if top.isBlock then some ⟨[], true, [.countHead], .operand⟩ else none
  | .clear => if top.isBlock then some ⟨[], true, [], .settled⟩ else none

/-- A place in a text: what is open there, innermost first, what stands in front of it, and the
phrases that have begun and may still be completed. -/
structure Reader where
  levels : List Level
  prior : Prior
  begun : List Phrase := []
  deriving DecidableEq, Repr

namespace Reader

/-- The place that an effect leads to. -/
def after (top : Level) (below : List Level) (e : Effect) : List Sign × Reader :=
  (e.signs, ⟨e.opens ++ (if e.keeps then top :: below else below), e.prior, []⟩)

/-- The phrases that begin with a token. -/
def beginning (prior : Prior) : Token → List Phrase
  | .word letters => if prior = .dot then [] else Phrase.beginning letters
  | _ => []

/-- What a token leads to: a phrase goes on, or something is done inside the innermost construct. -/
inductive Heard where
  | on (begun : List Phrase)
  | now (effect : Level → Option Effect)

/-- Takes a token, as far as the constructs that are open do not matter. -/
def hear (prior : Prior) (begun : List Phrase) (t : Token) : Heard :=
  match begun with
  | [] =>
    match beginning prior t with
    | [] => .now (t.effect prior)
    | p :: ps => .on (p :: ps)
  | p :: ps =>
    match (p :: ps).filterMap (·.take t) with
    | [] => .now fun _ => none
    | q :: qs => if q.rest = [] then .now (q.effect prior) else .on (q :: qs)

/-- Takes a token. -/
def take (r : Reader) (t : Token) : Option (List Sign × Reader) :=
  match r.levels with
  | [] => none
  | top :: below =>
    match hear r.prior r.begun t with
    | .on begun => some ([], { r with begun := begun })
    | .now effect => (effect top).map (after top below)

/-- Takes tokens. -/
def run (r : Reader) : List Token → Option (List Sign × Reader)
  | [] => some ([], r)
  | t :: ts => (r.take t).bind fun x => (run x.2 ts).map fun y => (x.1 ++ y.1, y.2)

/-- In front of a text of statements. -/
def start : Reader := ⟨[.around true], .settled, []⟩

end Reader

/-- The signs of a text of whole statements, if it can be read. -/
def signs? (text : String) : Option (List Sign) :=
  (lex text.toList).bind fun l =>
    if l.ending = .inside then none
    else (Reader.run .start l.tokens).bind fun x =>
      if x.2.levels = [.around true] ∧ x.2.begun = [] then some x.1 else none

end BlockLink.Lua
