import BlockLink.Device.Basic

/-!
# `BlockLink/Device/Trampoline.lean` — how a board takes turns

The trampoline keeps a table of coroutines and counts the live ones. Starting a unit puts its body
into the table, in place of one that is there, and resumes it once. A pass goes around the table in
id order: a coroutine that has not returned is resumed once, and one that has is dropped and its
end printed after the pass.

A body is any type with a way to resume it: it may change the device, and afterwards it either waits
for its next turn or has returned.
-/

set_option autoImplicit false

namespace BlockLink

/-- The life of a unit on the board. -/
inductive UnitState where
  | pending
  | running
  | dead
  deriving DecidableEq, Repr

/-- What a coroutine does when it is resumed: what is left of it, whether it has returned, and the
device after it. -/
structure Resumed (Body : Type) where
  body : Body
  returned : Bool
  device : Device

/-- A type of coroutine bodies. -/
class Coroutine (Body : Type) where
  resume : Body → Device → Resumed Body

/-- A coroutine in the table. -/
structure Bound (Body : Type) where
  body : Body
  state : UnitState
  /-- How often it has been resumed. -/
  resumes : Nat

/-- The coroutines of a board. -/
structure Trampoline (Body : Type) where
  declared : SortedMap UnitId Body
  table : SortedMap UnitId (Bound Body)
  /-- The number of coroutines in the table, as the board counts them. -/
  live : Nat

namespace Trampoline

variable {Body : Type}

/-- No coroutines. -/
def initial : Trampoline Body := ⟨.empty, .empty, 0⟩

/-- Gives a unit a body. Nothing runs until it is started. -/
def declare (t : Trampoline Body) (id : UnitId) (body : Body) : Trampoline Body :=
  { t with declared := t.declared.insert id body }

/-- The line that says a unit came alive. -/
def startedLine (id : UnitId) : String :=
  "rc:" ++ wordText id ++ ":"

/-- The line that says a unit ended. -/
def endedLine (id : UnitId) : String :=
  "dc:" ++ wordText id ++ ":"

/-- Resumes a coroutine once. The first time, its start is printed. -/
def resume [Coroutine Body] (id : UnitId) (b : Bound Body) (d : Device) : Bound Body × Device :=
  let d := if b.state = .pending then d.print (startedLine id) else d
  let r := Coroutine.resume b.body d
  (⟨r.body, if r.returned then .dead else .running, b.resumes + 1⟩, r.device)

/-- Starts a unit with the body it was last given; `false` if it has none. -/
def start [Coroutine Body] (t : Trampoline Body) (id : UnitId) (d : Device) :
    Bool × Trampoline Body × Device :=
  match t.declared.get? id with
  | none => (false, t, d)
  | some body =>
    let live := if t.table.contains id then t.live else t.live + 1
    let (bound, d) := resume id ⟨body, .pending, 0⟩ d
    (true, ⟨t.declared.erase id, t.table.insert id bound, live⟩, d)

/-- Resumes the coroutines of a table that are not dead, in order. -/
def resumeAll [Coroutine Body] :
    List (UnitId × Bound Body) → Device → List (UnitId × Bound Body) × Device
  | [], d => ([], d)
  | (id, b) :: rest, d =>
    let (b, d) := if b.state = .dead then (b, d) else resume id b d
    let (rest, d) := resumeAll rest d
    ((id, b) :: rest, d)

/-- The ids of the coroutines in the table that are dead. -/
def deadIds (t : Trampoline Body) : List UnitId :=
  (t.table.entries.filter fun e => e.2.state = .dead).map (·.1)

/-- Drops a dead coroutine and prints its end. -/
def collect (td : Trampoline Body × Device) (id : UnitId) : Trampoline Body × Device :=
  let (t, d) := td
  ({ t with table := t.table.erase id, live := t.live - 1 }, d.print (endedLine id))

/-- Goes around the table once. Those found dead are dropped when the others have been resumed. -/
def pass [Coroutine Body] (t : Trampoline Body) (d : Device) : Trampoline Body × Device :=
  let dead := t.deadIds
  let (entries, d) := resumeAll t.table.entries d
  dead.foldl collect ({ t with table := ⟨entries⟩ }, d)

/-- Makes passes until no coroutine is left, but no more than given; counts them. -/
def run [Coroutine Body] : Nat → Trampoline Body → Device → Nat × Trampoline Body × Device
  | 0, t, d => (0, t, d)
  | max + 1, t, d =>
    if t.live = 0 then (0, t, d)
    else
      let (t, d) := t.pass d
      let (passes, t, d) := run max t d
      (passes + 1, t, d)

/-- Drops every coroutine without a word. -/
def stopAll (t : Trampoline Body) : Trampoline Body :=
  { t with table := .empty, live := 0 }

/-- The state of a unit: `none` if it has no body and is not in the table. -/
def state? (t : Trampoline Body) (id : UnitId) : Option UnitState :=
  match t.table.get? id with
  | some b => some b.state
  | none => (t.declared.get? id).map fun _ => .pending

/-- How often a unit in the table has been resumed. -/
def resumes (t : Trampoline Body) (id : UnitId) : Nat :=
  match t.table.get? id with
  | some b => b.resumes
  | none => 0

end Trampoline

end BlockLink
