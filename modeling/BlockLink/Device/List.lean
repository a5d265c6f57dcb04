/-!
# `BlockLink/Device/List.lean` — lists as generated code keeps them

The items of a list are numbered from one, and an index outside makes an operation do nothing. An
index is any integer and is compared as one, which is what a position of 64 bits gives for every
integer that Lua has; on a machine with shorter positions a large index would be cut before it is
compared.

Items are compared by what they are made of. Lua compares tables by identity, so for items that are
tables themselves `contains` speaks of tables that are kept once.
-/

set_option autoImplicit false

namespace BlockLink

/-- A list on the board. -/
structure DeviceList (α : Type) where
  items : List α
  deriving DecidableEq, Repr

namespace DeviceList

variable {α : Type}

/-- The number of items. -/
def length (l : DeviceList α) : Nat :=
  l.items.length

/-- Where in the items an index points. Positions have room for every index. -/
def slot? (l : DeviceList α) (i : Int) : Option Nat :=
  if 1 ≤ i ∧ i ≤ (l.length : Int) then some (i.toNat - 1) else none

/-- The item at an index. -/
def item? (l : DeviceList α) (i : Int) : Option α :=
  (l.slot? i).bind fun k => l.items[k]?

/-- Whether an item is in the list. -/
def contains [DecidableEq α] (l : DeviceList α) (a : α) : Bool :=
  a ∈ l.items

/-- The list with an item at its end. -/
def add (l : DeviceList α) (a : α) : DeviceList α :=
  ⟨l.items ++ [a]⟩

/-- Puts an item in front of the one at an index, and says whether there is one. -/
def insert (l : DeviceList α) (i : Int) (a : α) : Bool × DeviceList α :=
  match l.slot? i with
  | some k => (true, ⟨l.items.take k ++ a :: l.items.drop k⟩)
  | none => (false, l)

/-- Replaces the item at an index, and says whether there is one. -/
def replace (l : DeviceList α) (i : Int) (a : α) : Bool × DeviceList α :=
  match l.slot? i with
  | some k => (true, ⟨l.items.set k a⟩)
  | none => (false, l)

/-- Removes the item at an index, and says whether there is one. -/
def delete (l : DeviceList α) (i : Int) : Bool × DeviceList α :=
  match l.slot? i with
  | some k => (true, ⟨l.items.eraseIdx k⟩)
  | none => (false, l)

/-- Removes all items. -/
def deleteAll (_ : DeviceList α) : DeviceList α :=
  ⟨[]⟩

end DeviceList

end BlockLink
