import BlockLink.SortedMap
import BlockLink.Table
import BlockLink.Unit

/-!
# `BlockLink/Registry.lean` — which script holds which id

Every script that has been compiled holds an id until it is released. A fresh id is one more than
the largest id held, so an id is never given to a second script while the first one holds it.

The registry keeps both directions. `bindings` goes from ids to scripts, in id order, because the
largest id is asked for; `ids` goes from scripts to ids. An operation finds its entry in one of them
and has to change the other to match.
-/

set_option autoImplicit false

namespace BlockLink

/-- The scripts that hold ids. -/
structure Registry (Origin : Type) where
  /-- The script under each id. -/
  bindings : SortedMap UnitId Origin
  /-- The id of each script. -/
  ids : Table Origin UnitId
  deriving DecidableEq, Repr

namespace Registry

variable {Origin : Type}

/-- No script holds an id. -/
def empty : Registry Origin := ⟨.empty, .empty⟩

instance : Inhabited (Registry Origin) := ⟨empty⟩

/-- The script that holds an id. -/
def resolve (r : Registry Origin) (id : UnitId) : Option Origin :=
  r.bindings.get? id

/-- An id that no script holds: one more than the largest, or zero. -/
def freshId (r : Registry Origin) : UnitId :=
  match r.bindings.lastKey? with
  | some id => id + 1
  | none => 0

/-- The number of ids held. -/
def size (r : Registry Origin) : Nat :=
  r.bindings.size

/-- Whether no script holds an id. -/
def isEmpty (r : Registry Origin) : Bool :=
  r.bindings.isEmpty

/-- Releases all ids. -/
def clear (r : Registry Origin) : Registry Origin :=
  { r with bindings := .empty, ids := .empty }

variable [DecidableEq Origin]

/-- The id that a script holds. -/
def idOf (r : Registry Origin) (o : Origin) : Option UnitId :=
  r.ids.get? o

/-- The id of a script: the one it holds, or else a fresh one. -/
def assign (r : Registry Origin) (o : Origin) : UnitId × Registry Origin :=
  match r.ids.get? o with
  | some id => (id, r)
  | none => (r.freshId, ⟨r.bindings.insert r.freshId o, r.ids.insert o r.freshId⟩)

/-- Releases an id, and gives the script that held it. -/
def free (r : Registry Origin) (id : UnitId) : Option Origin × Registry Origin :=
  match r.bindings.take id with
  | (some o, bindings) => (some o, ⟨bindings, r.ids.erase o⟩)
  | (none, _) => (none, r)

/-- Releases the id of a script, and gives it. -/
def freeOrigin (r : Registry Origin) (o : Origin) : Option UnitId × Registry Origin :=
  match r.ids.get? o with
  | some id => (some id, ⟨r.bindings.erase id, r.ids.erase o⟩)
  | none => (none, r)

end Registry

end BlockLink
