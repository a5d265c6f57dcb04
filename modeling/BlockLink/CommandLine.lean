import BlockLink.Board.Json
import BlockLink.Link.Run

/-!
# `BlockLink/CommandLine.lean` — what the commands do, without the terminal

Three commands. `compile` turns a project file into a program on standard output. `run` sends it to
a board and prints what the board does until the connection ends. `repl` passes typed lines to the
board's console. Here are their decisions and texts; reading files, opening the port and printing
are left to `BlockLink/Main.lean`.

Scripts are known by their position in the project file.
-/

set_option autoImplicit false

namespace BlockLink.CommandLine

open BlockLink.Text

/-! ## Commands -/

/-- What is asked for. -/
inductive Command where
  | compile (source : String) (board : Option String)
  | run (source device : String) (board : Option String) (noYield : Bool)
  | repl (device : String)
  deriving DecidableEq, Repr

/-- The words behind the name of a command, sorted. -/
structure Options where
  sources : List String := []
  device : Option String := none
  board : Option String := none
  noYield : Bool := false
  deriving DecidableEq, Repr

/-- Sorts the words behind the name of a command; `none` for an option that does not exist or has
no value. -/
def Options.ofWords? : List String → Option Options
  | [] => some {}
  | "--no-yield" :: rest => (ofWords? rest).map fun o => { o with noYield := true }
  | "--device" :: device :: rest => (ofWords? rest).map fun o => { o with device := some device }
  | "--board" :: board :: rest => (ofWords? rest).map fun o => { o with board := some board }
  | word :: rest =>
    if word.startsWith "--" then none
    else (ofWords? rest).map fun o => { o with sources := word :: o.sources }

/-- The command that the words of a command line ask for. -/
def Command.ofWords? : List String → Option Command
  | [] => none
  | name :: words => do
    match name, ← Options.ofWords? words with
    | "compile", ⟨[source], none, board, false⟩ => some (.compile source board)
    | "run", ⟨[source], some device, board, noYield⟩ => some (.run source device board noYield)
    | "repl", ⟨[], some device, none, false⟩ => some (.repl device)
    | _, _ => none

/-- What is said when the words ask for nothing. -/
def usage : String :=
  "usage: compile SOURCE [--board FILE]\n"
    ++ "       run SOURCE --device FILE [--board FILE] [--no-yield]\n"
    ++ "       repl --device FILE\n"

/-! ## Failures -/

/-- Why a command ends early. -/
inductive Failure where
  | unreadable (path : String)
  /-- A project file that is not JSON, or not the JSON of a project. -/
  | badProject
  | noScripts
  | badBoard (e : BoardError)
  | compileFailed (script : Nat) (e : CompileError)
  | cannotOpen (device reason : String)
  | linkFailed (e : LinkError)
  deriving DecidableEq, Repr

/-- The exit code for a failure. -/
def Failure.exitCode : Failure → Nat
  | .unreadable _ => 1
  | .badProject | .noScripts | .badBoard _ => 2
  | .compileFailed _ _ => 3
  | .cannotOpen _ _ => 4
  | .linkFailed _ => 6

/-- What is said of a failure. -/
def Failure.message : Failure → String
  | .unreadable path => "failed to read file '" ++ path ++ "'"
  | .badProject => "failed to parse block file: "
  | .noScripts => "block file had no scripts"
  | .badBoard e => e.message
  | .compileFailed script e => "script " ++ Nat.repr script ++ ": " ++ e.message
  | .cannotOpen device reason => "failed to open '" ++ device ++ "': " ++ reason
  | .linkFailed e => e.message

/-- What the system says of a file that is not there. -/
def noSuchFile : String := "No such file or directory (os error 2)"

/-- What a failure leaves on standard error. -/
def Failure.report (f : Failure) : String :=
  f.message ++ "\r\n"

/-! ## Files -/

/-- A file named on the command line: its path, and its bytes if it can be read. -/
structure File where
  path : String
  bytes : Option (List UInt8)

/-- The text of a file. -/
def File.text (f : File) : Except Failure String :=
  match f.bytes.bind bytesText? with
  | some s => pure s
  | none => throw (.unreadable f.path)

/-- Opens a project file, which has to hold a script. -/
def openProject (f : File) : Except Failure Project := do
  match Project.fromText? (← f.text) with
  | none => throw .badProject
  | some p => if p.scripts.isEmpty then throw .noScripts else pure p

/-- Opens a board file, if one is named. -/
def openBoard : Option File → Except Failure Board
  | none => pure .blank
  | some f => do
    match Board.fromText (← f.text) with
    | .ok b => pure b
    | .error e => throw (.badBoard e)

/-- Opens a project file and then a board file. -/
def openFiles (project : File) (board : Option File) : Except Failure (Project × Board) := do
  let project ← openProject project
  let board ← openBoard board
  pure (project, board)

/-- The scripts of a project with their positions. -/
def scripts (p : Project) : List (Nat × Block) :=
  p.scripts.zipIdx.map fun (b, i) => (i, b)

/-! ## Compiling -/

/-- What `compile` prints: the program, and the blocks in it that do nothing. -/
structure Compiled where
  program : String
  warnings : List Diagnostic

/-- Compiles scripts in order, each under its id, to their units and what is reported of all of
them. The first one that fails ends it. -/
def compileUnits (board : Board) (yields : Bool) :
    List (Nat × Block) → Registry Nat → CompileState →
      Except Failure (List (CompiledUnit Nat) × List Diagnostic)
  | [], _, state => pure ([], state.diagnostics)
  | (script, block) :: rest, registry, state => do
    let (id, registry) := registry.assign script
    match block.compileFrom board ⟨.id id, yields⟩ state.forgetPins with
    | (.error e, _) => throw (.compileFailed script e)
    | (.ok source, state) =>
      let (units, diagnostics) ← compileUnits board yields rest registry state
      pure (⟨id, source, script⟩ :: units, diagnostics)

/-- Compiles a project to the program that starts all its scripts. -/
def compile (p : Project) (board : Board) (settings : Settings) : Except Failure Compiled := do
  let (units, warnings) ← compileUnits board settings.shouldYield (scripts p) .empty .initial
  pure ⟨Program.build units (units.map (·.id)) settings.mark, warnings⟩

/-- How a warning is printed. -/
def warningLine (d : Diagnostic) : String :=
  "warning: " ++ d.message

/-! ## What a link prints -/

/-- What a status is called. -/
def statusText : Status → String
  | .ready => "board ready"
  | .uploading chunks => "uploading (" ++ Nat.repr chunks ++ " chunks)"
  | .uploaded => "uploaded"
  | .unchanged => "program unchanged"
  | .stopped => "stopped"
  | .suspended => "suspended"
  | .resumed => "resumed"
  | .inert d => warningLine d
  | .compileFailed message => "compile error: " ++ message
  | .resetRequired => "write failed, please reset the board"
  | .unresponsive => "board stopped responding"
  | .disconnected => "disconnected"

/-- What a pin shows. -/
def readingText : PinReading → String
  | .digital true => "true"
  | .digital false => "false"
  | .analog text => text

/-- How feedback is printed; highlights are not. -/
def feedbackLine? : Feedback Nat → Option String
  | .bubble script text => some ("script " ++ Nat.repr script ++ " > " ++ escaped text)
  | .highlight _ _ => none
  | .pin pin reading => some ("pin " ++ wordText pin ++ " = " ++ readingText reading)
  | .watcher name value => some (name ++ " = " ++ value)
  | .output line => some ("board: " ++ line)
  | .status s => some ("[" ++ statusText s ++ "]")

/-- What a link's effects print. -/
def printed (effects : List (LinkEffect Nat)) : List String :=
  effects.filterMap fun
    | .feedback f => feedbackLine? f
    | .write _ => none

/-- The frames that a link's effects write. -/
def frames (effects : List (LinkEffect Nat)) : List Frame :=
  effects.filterMap fun
    | .write f => some f
    | .feedback _ => none

/-! ## Running a link -/

/-- The settings of a run: `--no-yield` turns yielding off. -/
def runSettings (noYield : Bool) : Settings :=
  { shouldYield := !noYield }

/-- The link of `run`, which is asked at once to run all scripts. -/
def startRun (p : Project) (board : Board) (settings : Settings) :
    Link Nat × List (LinkEffect Nat) :=
  let (link, effects) := Link.start board settings .flowing
  let (link, more) := link.request (.run (scripts p))
  (link, effects ++ more)

/-- The link of `repl`. -/
def startRepl (settings : Settings) : Link Nat × List (LinkEffect Nat) :=
  Link.start .blank settings .flowing

/-- A line typed on the terminal, without the line end behind it. -/
def typedLine (s : String) : String :=
  let cs := s.toList
  if cs.getLast? = some '\n' then
    let line := cs.dropLast
    String.ofList (if line.getLast? = some '\r' then line.dropLast else line)
  else s

/-- What reaches a link from outside. -/
inductive Input where
  /-- The board sends bytes. -/
  | bytes (data : List UInt8)
  /-- The board closes its side. -/
  | boardClosed
  /-- A line is typed, line end and all. -/
  | typed (line : String)
  /-- Nothing more is typed. -/
  | typingEnded

/-- Hands something from outside to a link. -/
def feed (link : Link Nat) : Input → Link Nat × List (LinkEffect Nat)
  | .bytes data => link.receive data
  | .boardClosed => link.endInput
  | .typed line => link.request (.raw (typedLine line))
  | .typingEnded => link.endRequests

/-- How `run` ends with its link. -/
def runFailure? (link : Link Nat) : Option Failure :=
  match link.loop with
  | .done (.error e) => some (.linkFailed e)
  | _ => none

end BlockLink.CommandLine
