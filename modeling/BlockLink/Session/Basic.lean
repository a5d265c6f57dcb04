import BlockLink.Event
import BlockLink.Program
import BlockLink.Session.Compile
import BlockLink.Session.Feedback
import BlockLink.Session.Settings
import BlockLink.Upload

/-!
# `BlockLink/Session/Basic.lean` — the editor's side of a connection

A session holds all that the editor believes about a board: which units are alive, which ids belong
to which scripts, and how far an upload has come. It touches no port. Each operation gives the frame
to write, if there is one, and what to show; each line from the board goes through `handleLine`.
-/

set_option autoImplicit false

namespace BlockLink

/-- The editor's side of a connection to a board. -/
structure Session (Origin : Type) where
  board : Board
  settings : Settings
  registry : Registry Origin
  /-- The units believed to be alive on the board. -/
  units : SortedMap UnitId (CompiledUnit Origin)
  upload : Upload
  /-- The clicked reporter whose value is awaited. -/
  adhoc : Option Origin
  /-- The diagnostics that have been shown. -/
  reported : List Diagnostic
  /-- Whether the board's prompt is awaited. -/
  booting : Bool
  deriving DecidableEq

/-- What an operation of a session answers. -/
structure Reply (Origin α : Type) where
  result : α
  shown : List (Feedback Origin)
  session : Session Origin

namespace Session

variable {Origin : Type}

/-- A session with nothing sent. -/
def new (board : Board) (settings : Settings) : Session Origin :=
  { board, settings, registry := .empty, units := .empty, upload := .new settings.chunkSize
    adhoc := none, reported := [], booting := false }

/-- Whether a program is on its way. -/
def isUploading (s : Session Origin) : Bool :=
  s.upload.isUploading

/-- The diagnostics among the given ones that have not been shown. -/
def unreported (s : Session Origin) (ds : List Diagnostic) : List Diagnostic :=
  ds.filter fun d => d ∉ s.reported

/-- Marks diagnostics as shown. -/
def markReported (s : Session Origin) (ds : List Diagnostic) : Session Origin :=
  { s with reported := s.reported ++ s.unreported ds }

/-- Shows the diagnostics that have not been shown. -/
def showReports (s : Session Origin) (ds : List Diagnostic) : List (Feedback Origin) :=
  (s.unreported ds).map fun d => .status (.inert d)

/-- Un-highlights a script, if there is one. -/
def lowlight : Option Origin → List (Feedback Origin)
  | some o => [.highlight o false]
  | none => []

/-- Starts talking to a board. The frame is repeated until the board shows its prompt. -/
def wakeUp (s : Session Origin) : Reply Origin Frame :=
  ⟨.wakeUp, [], { s with booting := true }⟩

/-- Forgets every unit, id and highlight, and what was sent. -/
def clear (s : Session Origin) : List (Feedback Origin) × Session Origin :=
  (s.units.values.map (fun u => .highlight u.origin false) ++ lowlight s.adhoc,
   { s with units := .empty, adhoc := none, registry := s.registry.clear
            upload := s.upload.forget })

/-- Stops everything on the board. -/
def stopAll (s : Session Origin) : Reply Origin Frame :=
  let (shown, s) := s.clear
  ⟨.stopAll, shown ++ [.status .stopped], s⟩

/-- Suspends everything on the board. -/
def suspendAll (s : Session Origin) : Reply Origin Frame :=
  ⟨.suspendAll, [.status .suspended], s⟩

/-- Resumes everything on the board. -/
def resumeAll (s : Session Origin) : Reply Origin Frame :=
  ⟨.resumeAll, [.status .resumed], s⟩

/-- The link failed; an upload is abandoned. -/
def linkFailed (s : Session Origin) (e : LinkError) : List (Feedback Origin) × Session Origin :=
  let s := { s with upload := s.upload.cancel }
  match e with
  | .writeContention _ | .io _ => ([.status .resetRequired], s)
  | .deviceUnresponsive => ([.status .unresponsive], s)
  | .closed =>
    let (shown, s) := s.clear
    (shown ++ [.status .disconnected], s)

/-- Compiles a clicked reporter and asks the board for its value. -/
def evaluate (s : Session Origin) (origin : Origin) (block : Block) :
    Reply Origin (Except CompileError Frame) :=
  let (compiled, state) :=
    if block.reports then block.compileFrom s.board ⟨.adhoc, false⟩ .initial
    else (.error (.notAReporter block.selector), .initial)
  match compiled with
  | .error e => ⟨.error e, [.status (.compileFailed e.message)], s⟩
  | .ok expression =>
    ⟨.ok (.command (Program.adhocCommand expression)),
     s.showReports state.diagnostics ++ lowlight s.adhoc ++ [.highlight origin true],
     { s.markReported state.diagnostics with adhoc := some origin }⟩

/-! ## Lines from the board -/

/-- How the widget of a pin shows a value. -/
def reading (s : Session Origin) (pin : Pin) (value : String) : PinReading :=
  let digital := match s.board.pinout with
    | some p => p.isDigital pin
    | none => false
  if digital then .digital (value = "1" || value = "true") else .analog value

/-- What the end of a unit does. The board no longer runs what was last sent, so running it again
has to send it. -/
def unitEnded (s : Session Origin) (id : UnitId) : Session Origin :=
  if s.units.contains id then
    { s with units := s.units.erase id, upload := s.upload.forgetSent }
  else s

/-- Handles an event; `line` is the line it came from. -/
def handleEvent (s : Session Origin) (line : String) : Event → Reply Origin (Option Frame)
  | .chunkReady =>
    let (frame, upload) := s.upload.chunkReady
    ⟨frame, if frame = some .trailer then [.status .uploaded] else [], { s with upload }⟩
  | .reporterResult .adhoc value =>
    match s.adhoc with
    | some o => ⟨none, [.bubble o value, .highlight o false], { s with adhoc := none }⟩
    | none => ⟨none, [], s⟩
  | .reporterResult (.id id) value =>
    match s.registry.resolve id with
    | some o => ⟨none, [.bubble o value], s⟩
    | none => ⟨none, [], s⟩
  | .threadStarted id _ =>
    match s.registry.resolve id with
    | some o => ⟨none, [.highlight o true], s⟩
    | none => ⟨none, [], s⟩
  | .threadEnded id _ =>
    match s.registry.resolve id with
    | some o => ⟨none, [.highlight o false], s.unitEnded id⟩
    | none => ⟨none, [], s⟩
  | .pinValue pin value => ⟨none, [.pin pin (s.reading pin value)], s⟩
  | .variableValue name value => ⟨none, [.watcher name value], s⟩
  | .deviceReady =>
    if s.booting then ⟨none, [.status .ready], { s with booting := false }⟩
    else ⟨none, [.output line], s⟩
  | .unrecognized text => ⟨none, [.output text], s⟩

/-- Handles a line from the board. -/
def handleLine (s : Session Origin) (line : String) : Reply Origin (Option Frame) :=
  s.handleEvent line (Event.ofLine line)

/-- Handles `C` until the upload is over. -/
def drainFor : Nat → Session Origin → Reply Origin (List Frame)
  | 0, s => ⟨[], [], s⟩
  | n + 1, s =>
    match s.handleLine "C" with
    | ⟨none, shown, s⟩ => ⟨[], shown, s⟩
    | ⟨some frame, shown, s⟩ =>
      let rest := drainFor n s
      ⟨frame :: rest.result, shown ++ rest.shown, rest.session⟩

/-- Handles `C` until the upload is over. -/
def drain (s : Session Origin) : Reply Origin (List Frame) :=
  drainFor s.upload.stepsLeft s

/-! ## Running scripts -/

variable [DecidableEq Origin]

/-- A script was deleted in the editor. Its id is released, and lines about it are ignored. -/
def removeChain (s : Session Origin) (origin : Origin) : List (Feedback Origin) × Session Origin :=
  match s.registry.freeOrigin origin with
  | (none, _) => ([], s)
  | (some id, registry) =>
    let shown := if s.units.contains id then [.highlight origin false] else []
    (shown, { s with registry, units := s.units.erase id })

/-- Adds units to those alive, in place of ones with the same id. -/
def addUnits (units : SortedMap UnitId (CompiledUnit Origin)) (new : List (CompiledUnit Origin)) :
    SortedMap UnitId (CompiledUnit Origin) :=
  new.foldl (fun m u => m.insert u.id u) units

/-- Sends the program of the live units, which starts those with the given ids. -/
def sendProgram (s : Session Origin) (toStart : List UnitId) : Reply Origin (Option Frame) :=
  let (status, upload) := s.upload.send (Program.build s.units.values toStart s.settings.mark)
  let s := { s with upload }
  match status with
  | .skipped => ⟨none, [.status .unchanged], s⟩
  | .started chunks => ⟨some .uploadStart, [.status (.uploading chunks)], s⟩
  | .queued chunks => ⟨none, [.status (.uploading chunks)], s⟩

/-- Compiles scripts and starts them; the other live units stay. A script that is alive is replaced
under its id. If one of them fails to compile, nothing changes. -/
def run (s : Session Origin) (scripts : List (Origin × Block)) :
    Reply Origin (Except CompileError (Option Frame)) :=
  let compiled := compileScripts s.board s.settings.shouldYield scripts [] s.registry .initial
  match compiled.result with
  | .error (_, e) =>
    ⟨.error e, [.status (.compileFailed e.message)], { s with registry := compiled.registry }⟩
  | .ok units =>
    let ds := compiled.state.diagnostics
    let sent := sendProgram
      { s.markReported ds with registry := compiled.registry, units := addUnits s.units units }
      (units.map (·.id))
    ⟨.ok sent.result, s.showReports ds ++ sent.shown, sent.session⟩

end Session

end BlockLink
