import BlockLink.Program

/-!
# `BlockLink/Session/Settings.lean` — how a session behaves
-/

set_option autoImplicit false

namespace BlockLink

/-- The settings of a session. Times are in milliseconds. -/
structure Settings where
  /-- How many bytes of a program go into one chunk. -/
  chunkSize : Nat := 254
  /-- From which blocked attempt on a write fails. -/
  maxWriteAttempts : UInt32 := 10
  /-- The pause between attempts of a blocked write. -/
  writeRetryMs : Nat := 100
  /-- Whether loops and waits let the other scripts run. -/
  shouldYield : Bool := true
  /-- How long the board may take to acknowledge; `none` is for ever. -/
  ackTimeoutMs : Option Nat := some 5000
  /-- How often a board that has not shown its prompt is poked. -/
  wakeIntervalMs : Nat := 2000
  /-- The mark that programs carry. -/
  mark : String := Program.fingerprint
  deriving DecidableEq, Repr

end BlockLink
