import BlockLink.Frame

/-!
# `BlockLink/WriteGate.lean` — one write at a time

Several tasks write to the same port. The gate lets one through, counts the attempts that find it
taken, and refuses from a given number of them on. The count belongs to the current holder: it
starts again whenever the gate is passed.
-/

set_option autoImplicit false

namespace BlockLink

/-- Keeps writers apart. -/
structure WriteGate where
  writing : Bool
  /-- How many attempts have found the gate taken since it was last passed. -/
  attempts : UInt32
  maxAttempts : UInt32
  deriving DecidableEq, Repr

/-- What comes of an attempt to pass the gate. -/
inductive Passage where
  | granted
  /-- The gate is taken, and the attempt may be repeated later. -/
  | busy
  /-- The gate is taken, and this was an attempt too many. -/
  | refused (error : LinkError)
  deriving DecidableEq, Repr

namespace WriteGate

/-- A gate that is free. -/
def new (maxAttempts : UInt32) : WriteGate := ⟨false, 0, maxAttempts⟩

/-- Tries to pass the gate. -/
def acquire (g : WriteGate) : Passage × WriteGate :=
  if g.writing then
    let attempts := g.attempts + 1
    let passage := if g.maxAttempts ≤ attempts then .refused (.writeContention attempts) else .busy
    (passage, { g with attempts })
  else (.granted, { g with writing := true, attempts := 0 })

/-- Leaves the gate. -/
def release (g : WriteGate) : WriteGate :=
  { g with writing := false }

end WriteGate

end BlockLink
