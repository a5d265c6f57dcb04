/-!
# `BlockLink/Unit.lean` — the units a board runs

A script that has been compiled for a board is a unit, and the board knows it by a 32-bit id. What
the board prints about units carries that id, or the letter `r` for a reporter that was clicked in
the editor and belongs to no unit.
-/

set_option autoImplicit false

namespace BlockLink

/-- The id a board knows a unit by. -/
abbrev UnitId := UInt32

/-- A 32-bit number in decimal. -/
def wordText (n : UInt32) : String :=
  Nat.repr n.toNat

/-- Whom a printed value belongs to. -/
inductive UnitRef where
  | id (n : UnitId)
  /-- A reporter that was clicked rather than run. -/
  | adhoc
  deriving DecidableEq, Repr

/-- How a unit is named in printed lines. -/
def UnitRef.text : UnitRef → String
  | .id n => wordText n
  | .adhoc => "r"

/-- A unit: its id, its Lua source, and the script it came from. -/
structure CompiledUnit (Origin : Type) where
  id : UnitId
  source : String
  origin : Origin
  deriving DecidableEq, Repr

end BlockLink
