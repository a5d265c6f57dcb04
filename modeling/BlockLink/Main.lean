import BlockLink.CommandLine

/-!
# `BlockLink/Main.lean` — the program

The outer layer: it reads files and the port, prints, and lets time pass for a link. Whatever is
decided is decided in `BlockLink/CommandLine.lean`.

The port is a device file that has been set to the board's speed. Two tasks wait for input, one for
the board and one for the terminal, and leave what comes in a queue. The main task looks at the
queue every few milliseconds.
-/

set_option autoImplicit false

namespace BlockLink.Terminal

open BlockLink.CommandLine

/-- Reads a file, if it can be read. -/
def readFile (path : String) : IO File := do
  try
    let bytes ← IO.FS.readBinFile path
    return ⟨path, some bytes.data.toList⟩
  catch _ => return ⟨path, none⟩

/-- Reads a project file and a board file, if one is named. -/
def readFiles (source : String) (board : Option String) :
    IO (Except Failure (Project × Board)) := do
  let source ← readFile source
  let board ← board.mapM readFile
  return openFiles source board

/-- Prints a failure, and gives its exit code. -/
def fail (f : Failure) : IO UInt32 := do
  IO.eprint f.report
  return UInt32.ofNat f.exitCode

/-- What the system says of a device that cannot be opened. -/
def openReason : IO.Error → String
  | .noFileOrDirectory _ _ _ => noSuchFile
  | e => toString e

/-- The two ends of a port. -/
structure Serial where
  reader : IO.FS.Handle
  writer : IO.FS.Handle

/-- Opens a port. -/
def openDevice (path : String) : IO (Except Failure Serial) := do
  try
    let writer ← IO.FS.Handle.mk path .readWrite
    let reader ← IO.FS.Handle.mk path .read
    return .ok ⟨reader, writer⟩
  catch e => return .error (.cannotOpen path (openReason e))

/-- What has come in and not been looked at. -/
abbrev Queue := IO.Ref (List Input)

/-- Leaves something in the queue. -/
def Queue.push (queue : Queue) (input : Input) : BaseIO Unit :=
  queue.modify (· ++ [input])

/-- Waits for bytes from the board until it closes its side. -/
partial def listen (reader : IO.FS.Handle) (queue : Queue) : IO Unit := do
  let byte ← try reader.read 1 catch _ => pure .empty
  if byte.isEmpty then queue.push .boardClosed
  else
    queue.push (.bytes byte.data.toList)
    listen reader queue

/-- Waits for lines on the terminal until there are no more. -/
partial def listenTyped (input : IO.FS.Stream) (queue : Queue) : IO Unit := do
  let line ← try input.getLine catch _ => pure ""
  if line.isEmpty then queue.push .typingEnded
  else
    queue.push (.typed line)
    listenTyped input queue

/-- Does what a link asks for. A write that fails ends the link, unless it only poked the board. -/
partial def perform (device : Serial) : Link Nat × List (LinkEffect Nat) → IO (Link Nat)
  | (link, []) => return link
  | (link, .feedback f :: rest) => do
    if let some line := feedbackLine? f then IO.println line
    perform device (link, rest)
  | (link, .write frame :: rest) => do
    try
      device.writer.write ⟨frame.toBytes.toArray⟩
      device.writer.flush
    catch e =>
      if frame ≠ .wakeUp ∧ ¬ link.isDone then
        return ← perform device (link.fail (.io (toString e)))
    perform device (link, rest)

/-- How long the queue is left alone, in milliseconds. -/
def pollInterval : UInt32 := 10

/-- Runs a link until it ends; `last` is the time up to which it has run. -/
partial def pump (device : Serial) (queue : Queue) (link : Link Nat) (last : Nat) :
    IO (Link Nat) := do
  if link.isDone then return link
  let inputs ← queue.modifyGet fun inputs => (inputs, [])
  let now ← IO.monoMsNow
  let link ← perform device (link.sleep (now - last))
  let link ← inputs.foldlM (fun link input => perform device (feed link input)) link
  IO.sleep pollInterval
  pump device queue link now

/-- Runs a link that has just been started. -/
def drive (device : Serial) (queue : Queue) (start : Link Nat × List (LinkEffect Nat)) :
    IO (Link Nat) := do
  let now ← IO.monoMsNow
  let link ← perform device start
  let _ ← IO.asTask (listen device.reader queue) .dedicated
  pump device queue link now

/-- Compiles a project to standard output. -/
def compileCommand (source : String) (board : Option String) : IO UInt32 := do
  let files ← readFiles source board
  match files.bind fun (project, board) => compile project board {} with
  | .error f => fail f
  | .ok c =>
    for d in c.warnings do
      IO.eprintln (warningLine d)
    IO.print c.program
    return 0

/-- Runs a project on a board. -/
def runCommand (source path : String) (board : Option String) (noYield : Bool) : IO UInt32 := do
  match ← readFiles source board with
  | .error f => fail f
  | .ok (project, board) =>
    match ← openDevice path with
    | .error f => fail f
    | .ok device =>
      let queue ← IO.mkRef []
      let link ← drive device queue (startRun project board (runSettings noYield))
      match runFailure? link with
      | some f => fail f
      | none => return 0

/-- Passes typed lines to a board. -/
def replCommand (path : String) : IO UInt32 := do
  match ← openDevice path with
  | .error f => fail f
  | .ok device =>
    let queue ← IO.mkRef []
    let _ ← IO.asTask (listenTyped (← IO.getStdin) queue) .dedicated
    let _ ← drive device queue (startRepl {})
    return 0

end BlockLink.Terminal

open BlockLink

/-- Runs the command that the words of the command line ask for. -/
def main (words : List String) : IO UInt32 := do
  match CommandLine.Command.ofWords? words with
  | some (.compile source board) => Terminal.compileCommand source board
  | some (.run source device board noYield) => Terminal.runCommand source device board noYield
  | some (.repl device) => Terminal.replCommand device
  | none =>
    IO.eprint CommandLine.usage
    return 2
