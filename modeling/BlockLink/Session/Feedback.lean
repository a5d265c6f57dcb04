import BlockLink.Compile.Error

/-!
# `BlockLink/Session/Feedback.lean` — what the user is shown

Everything a session has to say to the editor is a value; the session itself shows nothing.
-/

set_option autoImplicit false

namespace BlockLink

/-- A pin value as a pin widget shows it. -/
inductive PinReading where
  | digital (high : Bool)
  | analog (text : String)
  deriving DecidableEq, Repr

/-- What happens to the connection. -/
inductive Status where
  /-- The board showed its prompt. -/
  | ready
  | uploading (chunks : Nat)
  | uploaded
  /-- The board has this program, so nothing was sent. -/
  | unchanged
  | stopped
  | suspended
  | resumed
  /-- A block does nothing. -/
  | inert (d : Diagnostic)
  | compileFailed (message : String)
  /-- Writes keep failing; the board has to be reset by hand. -/
  | resetRequired
  /-- The board stopped acknowledging. -/
  | unresponsive
  | disconnected
  deriving DecidableEq, Repr

/-- Something for the editor to show. -/
inductive Feedback (Origin : Type) where
  | bubble (origin : Origin) (text : String)
  | highlight (origin : Origin) (on : Bool)
  | pin (pin : UInt32) (reading : PinReading)
  | watcher (name value : String)
  /-- Console output that is not part of the protocol. -/
  | output (line : String)
  | status (s : Status)
  deriving DecidableEq, Repr

end BlockLink
