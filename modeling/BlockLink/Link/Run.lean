import BlockLink.Link.Basic

/-!
# `BlockLink/Link/Run.lean` — events and the passing of time

Whatever can happen without time passing happens at once: every event is followed by steps until
none is possible. Time passes from one due moment to the next, with the same in between. A loop that
has ended takes nothing more, but a poke that the waker has begun still goes out when it can.
-/

set_option autoImplicit false

namespace BlockLink.Link

variable {Origin : Type} [DecidableEq Origin]

/-- At most a given number of steps. -/
def settleFor : Nat → Link Origin → Link Origin × List (LinkEffect Origin)
  | 0, l => (l, [])
  | n + 1, l =>
    match l.step? with
    | none => (l, [])
    | some (l, effects) =>
      let (l, more) := settleFor n l
      (l, effects ++ more)

omit [DecidableEq Origin] in
/-- More steps than can happen without time passing: two for every byte, request and tick that
waits, and as many attempts to pass the gate as it allows. -/
def stepBound (l : Link Origin) : Nat :=
  let ticks := (l.now - l.nextTick) / l.session.settings.wakeIntervalMs + 1
  2 * (l.inbox.length + l.requests.length + ticks + l.gate.maxAttempts.toNat) + 16

/-- Every step that can happen now. -/
def settle (l : Link Origin) : Link Origin × List (LinkEffect Origin) :=
  settleFor l.stepBound l

/-- An event comes in. -/
def react (l : Link Origin) (event : Link Origin → Link Origin) :
    Link Origin × List (LinkEffect Origin) :=
  (event l).settle

omit [DecidableEq Origin] in
/-- A link at time zero, before anything has happened. With a wake interval of zero there are no
ticks. -/
def initial (board : Board) (settings : Settings) (port : Port) : Link Origin :=
  { session := (Session.new board settings).wakeUp.session
    gate := .new settings.maxWriteAttempts, port, now := 0, loop := .listening
    waker := if settings.wakeIntervalMs = 0 then .stopped else .sleeping
    nextTick := 0, ready := false, ackDeadline := none, inbox := [], inputEnded := false
    requests := [], requestsEnded := false }

/-- A link that has been started: the first tick has come. -/
def start (board : Board) (settings : Settings) (port : Port) :
    Link Origin × List (LinkEffect Origin) :=
  settle (initial board settings port)

/-- The board sends bytes. Nothing comes from a board that has closed its side. -/
def receive (l : Link Origin) (bytes : List UInt8) : Link Origin × List (LinkEffect Origin) :=
  l.react fun l => if l.inputEnded then l else { l with inbox := l.inbox ++ bytes }

/-- The board closes its side. -/
def endInput (l : Link Origin) : Link Origin × List (LinkEffect Origin) :=
  l.react fun l => { l with inputEnded := true }

/-- The editor asks for something, unless it has said that it asks for nothing more. -/
def request (l : Link Origin) (r : Request Origin) : Link Origin × List (LinkEffect Origin) :=
  l.react fun l => if l.requestsEnded then l else { l with requests := l.requests ++ [r] }

/-- The editor will ask for nothing more. -/
def endRequests (l : Link Origin) : Link Origin × List (LinkEffect Origin) :=
  l.react fun l => { l with requestsEnded := true }

/-- The port changes, unless it is broken. -/
def setPort (l : Link Origin) (port : Port) : Link Origin × List (LinkEffect Origin) :=
  l.react fun l => { l with port := l.port.become port }

omit [DecidableEq Origin] in
/-- The moments at which something is due. -/
def dueTimes (l : Link Origin) : List Nat :=
  let loop := match l.loop with
    | .retrying _ due => [due]
    | .listening => l.ackDeadline.toList
    | _ => []
  let waker := match l.waker with
    | .sleeping => [l.nextTick]
    | .retrying due => [due]
    | _ => []
  loop ++ waker

/-- Lets time pass until a given moment, stopping at most a given number of times on the way. -/
def passUntil (moment : Nat) : Nat → Link Origin → Link Origin × List (LinkEffect Origin)
  | 0, l => ({ l with now := moment }, [])
  | n + 1, l =>
    match (l.dueTimes.filter (· ≤ moment)).min? with
    | none => ({ l with now := moment }, [])
    | some due =>
      let (l, effects) := settle { l with now := max l.now due }
      let (l, more) := passUntil moment n l
      (l, effects ++ more)

/-- Lets time pass. What is due now has happened, so each stop on the way takes at least a
millisecond. -/
def sleep (l : Link Origin) (ms : Nat) : Link Origin × List (LinkEffect Origin) :=
  passUntil (l.now + ms) ms l

end BlockLink.Link
