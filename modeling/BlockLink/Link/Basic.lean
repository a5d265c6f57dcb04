import BlockLink.Link.Request
import BlockLink.WriteGate

/-!
# `BlockLink/Link/Basic.lean` — two writers, one port

A link joins a session to a serial port. Two tasks share the port through a gate:

* the **loop** takes one line or one request at a time, hands it to the session, and writes the
  frame that results; while that frame waits, the loop takes nothing else;
* the **waker** pokes the board at fixed times until the board has shown its prompt. Ticks it misses
  because it is still writing follow each other at once when it is done.

A frame that the board has to acknowledge sets a deadline. When it passes without an acknowledgement
the session is told, and the upload is abandoned.

Time is a number of milliseconds. A link changes in two ways: `Link.step?` does one thing that can
happen at the present moment, and `Link/Run.lean` lets events come in and time pass.
-/

set_option autoImplicit false

namespace BlockLink

/-- How the port takes bytes. -/
inductive Port where
  | flowing
  /-- Bytes wait. -/
  | stalled
  /-- Every write fails, now and later. -/
  | broken
  deriving DecidableEq, Repr

/-- The port after a change. A broken port stays broken. -/
def Port.become : Port → Port → Port
  | .broken, _ => .broken
  | _, port => port

/-- What the loop is doing. -/
inductive LoopState where
  | listening
  /-- The gate was taken; the next attempt is due at a given time. -/
  | retrying (frame : Frame) (due : Nat)
  /-- The loop has passed the gate and waits for the port. -/
  | holding (frame : Frame)
  | done (result : Except LinkError Unit)

/-- What the waker is doing. -/
inductive WakerState where
  /-- It waits for its next tick. -/
  | sleeping
  | retrying (due : Nat)
  | holding
  | stopped
  deriving DecidableEq, Repr

/-- A link to a board. -/
structure Link (Origin : Type) where
  session : Session Origin
  gate : WriteGate
  port : Port
  now : Nat
  loop : LoopState
  waker : WakerState
  nextTick : Nat
  /-- Tells the waker to stop at its next tick. -/
  ready : Bool
  ackDeadline : Option Nat
  /-- Bytes from the board that have not been taken. -/
  inbox : List UInt8
  /-- Whether the board has closed its side. -/
  inputEnded : Bool
  /-- Requests that have not been taken. -/
  requests : List (Request Origin)
  /-- Whether no more requests will come. -/
  requestsEnded : Bool

/-- What a link does to the world. -/
inductive LinkEffect (Origin : Type) where
  | write (frame : Frame)
  | feedback (f : Feedback Origin)
  deriving DecidableEq, Repr

namespace Link

variable {Origin : Type}

/-- Whether the loop has ended. -/
def isDone (l : Link Origin) : Bool :=
  match l.loop with
  | .done _ => true
  | _ => false

/-- What the session shows. -/
def showing (shown : List (Feedback Origin)) : List (LinkEffect Origin) :=
  shown.map .feedback

/-! ## Lines -/

/-- The line without its line end, in which a carriage return may stand before the line feed. -/
def dropReturn (line : List UInt8) : List UInt8 :=
  if line.getLast? = some 13 then line.dropLast else line

/-- Splits off the first line that is complete. At the end of the input the rest is a line too, and
is taken as it is. -/
def takeLine? (l : Link Origin) : Option (List UInt8 × List UInt8) :=
  let (line, rest) := l.inbox.span (· ≠ 10)
  match rest with
  | _ :: rest => some (dropReturn line, rest)
  | [] => if l.inputEnded ∧ line ≠ [] then some (line, []) else none

/-! ## The loop -/

/-- Ends the loop. -/
def finish (l : Link Origin) (result : Except LinkError Unit) : Link Origin :=
  { l with loop := .done result, ready := true }

/-- Tells the session of a failure and ends the loop with it. -/
def fail (l : Link Origin) (e : LinkError) : Link Origin × List (LinkEffect Origin) :=
  let (shown, session) := l.session.linkFailed e
  ({ l with session }.finish (.error e), showing shown)

/-- The loop tries to pass the gate with a frame. -/
def tryWrite (l : Link Origin) (frame : Frame) : Link Origin × List (LinkEffect Origin) :=
  match l.gate.acquire with
  | (.granted, gate) => ({ l with gate, loop := .holding frame }, [])
  | (.busy, gate) =>
    ({ l with gate, loop := .retrying frame (l.now + l.session.settings.writeRetryMs) }, [])
  | (.refused e, gate) =>
    let (shown, session) := l.session.linkFailed e
    ({ l with gate, session, loop := .listening }, showing shown)

/-- The loop writes the frame that came of a line or a request, if one did. -/
def answer (l : Link Origin) (r : Reply Origin (Option Frame)) :
    Link Origin × List (LinkEffect Origin) :=
  let l := { l with session := r.session }
  match r.result with
  | none => (l, showing r.shown)
  | some frame =>
    let (l, effects) := l.tryWrite frame
    (l, showing r.shown ++ effects)

/-- The frame of the loop is through. -/
def written (l : Link Origin) (frame : Frame) : Link Origin × List (LinkEffect Origin) :=
  let ackDeadline :=
    if frame.expectsAck then l.session.settings.ackTimeoutMs.map (l.now + ·) else l.ackDeadline
  ({ l with gate := l.gate.release, ackDeadline, loop := .listening }, [.write frame])

/-- What the system says of a write to a broken port. -/
def brokenPort : LinkError := .io "broken pipe"

/-- What the system says of a line that is not text. -/
def notText : LinkError := .io "stream did not contain valid UTF-8"

/-- The loop takes a line. One that reads `C`, blanks behind it aside, clears the deadline. -/
def takeLine (l : Link Origin) (bytes : List UInt8) : Link Origin × List (LinkEffect Origin) :=
  match bytesText? bytes with
  | none => l.fail notText
  | some line =>
    let r := l.session.handleLine line
    let ackDeadline := if Text.trimEnd line.toList = ['C'] then none else l.ackDeadline
    { l with ackDeadline, ready := l.ready || !r.session.booting }.answer r

/-! ## The waker -/

/-- The waker tries to pass the gate; a refusal costs it this tick. -/
def tryWake (l : Link Origin) : Link Origin :=
  match l.gate.acquire with
  | (.granted, gate) => { l with gate, waker := .holding }
  | (.busy, gate) => { l with gate, waker := .retrying (l.now + l.session.settings.writeRetryMs) }
  | (.refused _, gate) => { l with gate, waker := .sleeping }

/-- One thing the waker can do now. -/
def stepWaker? (l : Link Origin) : Option (Link Origin × List (LinkEffect Origin)) :=
  match l.waker with
  | .stopped => none
  | .sleeping =>
    if l.nextTick ≤ l.now then
      if l.ready then some ({ l with waker := .stopped }, [])
      else some ({ l with nextTick := l.nextTick + l.session.settings.wakeIntervalMs }.tryWake, [])
    else none
  | .retrying due => if due ≤ l.now then some (l.tryWake, []) else none
  | .holding =>
    match l.port with
    | .flowing => some ({ l with gate := l.gate.release, waker := .sleeping }, [.write .wakeUp])
    | .stalled => none
    | .broken => some ({ l with gate := l.gate.release, waker := .sleeping }, [])

/-! ## What can happen -/

variable [DecidableEq Origin]

/-- One thing the loop can do now. When a line or an expired deadline and a request are there at
once, nothing says which is looked at first. Here the order is fixed: a line, the end of the input,
the deadline, a request. A request that is taken in front of a line is the run in which the bytes of
the line come in later, so statements about all orders of arrival cover it. Only a request that is
taken after its deadline has passed and before the loop has seen that is left out. -/
def stepLoop? (l : Link Origin) : Option (Link Origin × List (LinkEffect Origin)) :=
  match l.loop with
  | .done _ => none
  | .retrying frame due => if due ≤ l.now then some (l.tryWrite frame) else none
  | .holding frame =>
    match l.port with
    | .flowing => some (l.written frame)
    | .stalled => none
    | .broken => some ({ l with gate := l.gate.release }.fail brokenPort)
  | .listening =>
    match l.takeLine? with
    | some (line, inbox) => some ({ l with inbox }.takeLine line)
    | none =>
      if l.inputEnded then some (l.fail .closed)
      else if l.ackDeadline.any (· ≤ l.now) then
        let (shown, session) := l.session.linkFailed .deviceUnresponsive
        some ({ l with session, ackDeadline := none }, showing shown)
      else
        match l.requests with
        | r :: requests => some ({ l with requests }.answer (l.session.handleRequest r))
        | [] => if l.requestsEnded then some (l.finish (.ok ()), []) else none

/-- One thing that can happen now. -/
def step? (l : Link Origin) : Option (Link Origin × List (LinkEffect Origin)) :=
  l.stepLoop?.or l.stepWaker?

end Link

end BlockLink
