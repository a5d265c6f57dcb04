/-!
# `BlockLink/Block/Basic.lean` — blocks, slots and projects

A script is a chain of blocks: each block names what it does by its selector, holds its inputs in
slots, and may have a successor. Slots nest: a reporter can be dropped into one, a C-shaped slot
holds a chain of its own, and an expandable slot holds further slots.

`Block.chain` is the view of a block as the list of blocks from it downwards, and `Block.followedBy`
appends one chain to another.
-/

set_option autoImplicit false

namespace BlockLink

/-- The visual shape of a block. -/
inductive BlockKind where
  | command
  | reporter
  | predicate
  | hat
  deriving DecidableEq, Repr, Inhabited

mutual

/-- A block together with the chain below it. -/
inductive Block where
  | mk (selector : String) (kind : BlockKind) (inputs : List Slot) (next : Option Block)

/-- An input slot of a block. -/
inductive Slot where
  /-- Text typed into the slot, or picked from its menu. -/
  | literal (text : String)
  /-- A name that the block itself binds. -/
  | upvar (name : String)
  /-- A C-shaped slot with a chain, or empty. -/
  | script (body : Option Block)
  /-- A block dropped into the slot for its value. -/
  | reporter (block : Block)
  /-- An expandable slot; its slots stand in its place. -/
  | variadic (slots : List Slot)

end

instance : Inhabited Block := ⟨.mk "" .command [] none⟩

namespace Block

/-- What the block does, by name. -/
def selector : Block → String
  | .mk s _ _ _ => s

/-- The shape of the block. -/
def kind : Block → BlockKind
  | .mk _ k _ _ => k

/-- The inputs of the block. -/
def inputs : Block → List Slot
  | .mk _ _ i _ => i

/-- The block below. -/
def next : Block → Option Block
  | .mk _ _ _ n => n

mutual

/-- The block and every block below it, in order. -/
def chain : Block → List Block
  | .mk s k i n => .mk s k i n :: chainBelow n

/-- The chain that starts at a block, if there is one. -/
def chainBelow : Option Block → List Block
  | none => []
  | some b => b.chain

end

mutual

/-- The chain with another one appended at its end. -/
def followedBy : Block → Block → Block
  | .mk s k i n, last => .mk s k i (some (followedBelow n last))

/-- A chain appended below a block: at the end of what is there, or directly. -/
def followedBelow : Option Block → Block → Block
  | none, last => last
  | some b, last => b.followedBy last

end

/-- Whether the block has a value to show. -/
def reports (b : Block) : Bool :=
  b.kind = .reporter || b.kind = .predicate

end Block

/-- A project file: scripts under a name. -/
structure Project where
  name : String
  scripts : List Block

end BlockLink
