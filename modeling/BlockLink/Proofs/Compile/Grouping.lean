import BlockLink.Proofs.Compile.Source

/-!
# `BlockLink/Proofs/Compile/Grouping.lean` — expandable slots leave no trace

An expandable slot stands for the slots in it, and these may be expandable again, and hold reporters
and scripts whose blocks have such slots. `Block.ungrouped` is the tree with all of them opened, and
it compiles to the same thing from every state: the number of an operand counts through groups, so
it is the same with and without them, and the number is all that errors and the second operand of
*and* and *or* depend on.

The compiler opens groups as it comes to them. It could also open all groups of a block first and
compile what it then finds, which has no groups; and it could compile a chain with one case for
subscriptions and a common one for everything else. `Block.compileOpened` does both, with an arm
each for the group and for the subscription that cannot turn up there. It is the same computation
whatever the two arms do.
-/

set_option autoImplicit false

namespace BlockLink

/-! ## Trees without groups

A group in a group is opened too, so opening is one recursion over the tree, and every slot turns
into a list of slots. -/

mutual

/-- The tree with the slots of every expandable slot in its place. -/
def Block.ungrouped : Block → Block
  | .mk selector kind inputs next =>
    .mk selector kind (Slot.ungroupedList inputs) (Block.ungroupedBelow next)

/-- The chain that starts at a block, if there is one, without groups. -/
def Block.ungroupedBelow : Option Block → Option Block
  | none => none
  | some b => some b.ungrouped

/-- What a slot is without groups: several slots if it is expandable. -/
def Slot.ungrouped : Slot → List Slot
  | .literal text => [.literal text]
  | .upvar name => [.upvar name]
  | .script body => [.script (Block.ungroupedBelow body)]
  | .reporter block => [.reporter block.ungrouped]
  | .variadic slots => Slot.ungroupedList slots

/-- What slots are without groups. -/
def Slot.ungroupedList : List Slot → List Slot
  | [] => []
  | slot :: rest => slot.ungrouped ++ Slot.ungroupedList rest

end

mutual

/-- Whether there is no expandable slot in the tree. -/
def Block.hasNoGroup : Block → Bool
  | .mk _ _ inputs next => Slot.haveNoGroup inputs && Block.hasNoGroupBelow next

/-- Whether there is no expandable slot in the chain that starts at a block. -/
def Block.hasNoGroupBelow : Option Block → Bool
  | none => true
  | some b => b.hasNoGroup

/-- Whether a slot is not expandable and holds none that is. -/
def Slot.hasNoGroup : Slot → Bool
  | .literal _ | .upvar _ => true
  | .script body => Block.hasNoGroupBelow body
  | .reporter block => block.hasNoGroup
  | .variadic _ => false

/-- Whether slots are not expandable and hold none that is. -/
def Slot.haveNoGroup : List Slot → Bool
  | [] => true
  | slot :: rest => slot.hasNoGroup && Slot.haveNoGroup rest

end

theorem Slot.haveNoGroup_append (as bs : List Slot) :
    Slot.haveNoGroup (as ++ bs) = (Slot.haveNoGroup as && Slot.haveNoGroup bs) := by
  induction as with
  | nil => rfl
  | cons slot as ih => rw [List.cons_append, Slot.haveNoGroup, Slot.haveNoGroup, ih, Bool.and_assoc]

mutual

theorem Block.hasNoGroup_ungrouped : ∀ b : Block, b.ungrouped.hasNoGroup = true
  | .mk _ _ inputs next => by
    rw [Block.ungrouped, Block.hasNoGroup, Slot.haveNoGroup_ungroupedList inputs,
      Block.hasNoGroupBelow_ungroupedBelow next]
    rfl

theorem Block.hasNoGroupBelow_ungroupedBelow : ∀ next : Option Block,
    Block.hasNoGroupBelow (Block.ungroupedBelow next) = true
  | none => rfl
  | some b => Block.hasNoGroup_ungrouped b

theorem Slot.haveNoGroup_ungrouped : ∀ slot : Slot, Slot.haveNoGroup slot.ungrouped = true
  | .literal _ | .upvar _ => rfl
  | .script body => by
    rw [Slot.ungrouped, Slot.haveNoGroup, Slot.hasNoGroup,
      Block.hasNoGroupBelow_ungroupedBelow body]
    rfl
  | .reporter block => by
    rw [Slot.ungrouped, Slot.haveNoGroup, Slot.hasNoGroup, Block.hasNoGroup_ungrouped block]
    rfl
  | .variadic slots => Slot.haveNoGroup_ungroupedList slots

theorem Slot.haveNoGroup_ungroupedList : ∀ slots : List Slot,
    Slot.haveNoGroup (Slot.ungroupedList slots) = true
  | [] => rfl
  | slot :: rest => by
    rw [Slot.ungroupedList, Slot.haveNoGroup_append, Slot.haveNoGroup_ungrouped slot,
      Slot.haveNoGroup_ungroupedList rest]
    rfl

end

/-! ## They compile to the same

The operands of slots are numbered through. A group of three slots takes three numbers, just as the
three slots would without it, and this is all there is to show: a list of slots compiles to what its
parts compile to, the second part numbered from where the first ends. -/

variable {board : Board} {ctx : Context} {selector : Selector}

namespace Slot

/-- The slots behind others are numbered from the operands that those have. -/
theorem compileList_append (index : Nat) (as bs : List Slot) :
    compileList board ctx selector index (as ++ bs) = (do
      let first ← compileList board ctx selector index as
      let others ← compileList board ctx selector (index + first.length) bs
      pure (first ++ others)) := by
  induction as generalizing index with
  | nil => simp [compileList]
  | cons slot as ih =>
    rw [List.cons_append, compileList, compileList]
    simp only [ih, bind_assoc, pure_bind, List.length_append, Nat.add_assoc, List.append_assoc]

theorem compileList_singleton (index : Nat) (slot : Slot) :
    compileList board ctx selector index [slot] = slot.compile board ctx selector index := by
  simp [compileList]

/-- A slot may be replaced by slots that compile like it, and the slots behind it too. -/
theorem compileList_open {slot : Slot} {opened rest rest' : List Slot}
    (hslot : ∀ index, compileList board ctx selector index opened = slot.compile board ctx
      selector index)
    (hrest : ∀ index,
      compileList board ctx selector index rest' = compileList board ctx selector index rest)
    (index : Nat) :
    compileList board ctx selector index (opened ++ rest')
      = compileList board ctx selector index (slot :: rest) := by
  rw [compileList_append, compileList, hslot]
  simp only [hrest]

end Slot

mutual

/-- The opened tree is the same computation, so it gives the same from every state. -/
theorem Block.compile_ungrouped : ∀ (b : Block) (ctx : Context),
    b.ungrouped.compile board ctx = b.compile board ctx
  | .mk name kind inputs next, ctx => by
    have hinputs : ∀ selector, Slot.compileList board ctx selector 0 (Slot.ungroupedList inputs)
        = Slot.compileList board ctx selector 0 inputs :=
      fun selector => Slot.compileList_ungroupedList inputs ctx selector 0
    rw [Block.ungrouped, Block.compile, Block.compile]
    simp only [hinputs, Block.compileBelow_ungroupedBelow next]

theorem Block.compileBelow_ungroupedBelow : ∀ (next : Option Block) (ctx : Context),
    Block.compileBelow board ctx (Block.ungroupedBelow next) = Block.compileBelow board ctx next
  | none, _ => rfl
  | some b, ctx => by
    rw [Block.ungroupedBelow, Block.compileBelow, Block.compileBelow, Block.compile_ungrouped b]

/-- What a slot turns into compiles to the operands of the slot, from the same number on. -/
theorem Slot.compileList_ungrouped :
    ∀ (slot : Slot) (ctx : Context) (selector : Selector) (index : Nat),
    Slot.compileList board ctx selector index slot.ungrouped = slot.compile board ctx selector index
  | .literal text, _, _, index => Slot.compileList_singleton index (.literal text)
  | .upvar name, _, _, index => Slot.compileList_singleton index (.upvar name)
  | .script body, ctx, _, index => by
    rw [Slot.ungrouped, Slot.compileList_singleton, Slot.compile, Slot.compile,
      Block.compileBelow_ungroupedBelow body ctx]
  | .reporter block, ctx, _, index => by
    rw [Slot.ungrouped, Slot.compileList_singleton, Slot.compile, Slot.compile,
      Block.compile_ungrouped block ctx]
  | .variadic slots, ctx, selector, index => by
    rw [Slot.ungrouped, Slot.compile, Slot.compileList_ungroupedList slots ctx selector index]

theorem Slot.compileList_ungroupedList : ∀ (slots : List Slot) (ctx : Context) (selector : Selector)
    (index : Nat), Slot.compileList board ctx selector index (Slot.ungroupedList slots)
      = Slot.compileList board ctx selector index slots
  | [], _, _, _ => rfl
  | slot :: rest, ctx, selector, index => by
    rw [Slot.ungroupedList]
    exact Slot.compileList_open (Slot.compileList_ungrouped slot ctx selector)
      (Slot.compileList_ungroupedList rest ctx selector) index

end

/-! ## Opening the slots of a block first

Here only the slots of one block are opened and what is in them is left alone, as `Slot.operands`
does. The order in which things are compiled is the same, so this too is the same computation. -/

mutual

/-- Opening a slot first, and compiling what comes out, is compiling the slot. -/
theorem Slot.compileList_operands (selector : Selector) : ∀ (slot : Slot) (index : Nat),
    Slot.compileList board ctx selector index slot.operands = slot.compile board ctx selector index
  | .literal text, index => Slot.compileList_singleton index (.literal text)
  | .upvar name, index => Slot.compileList_singleton index (.upvar name)
  | .script body, index => Slot.compileList_singleton index (.script body)
  | .reporter block, index => Slot.compileList_singleton index (.reporter block)
  | .variadic slots, index => by
    rw [Slot.operands, Slot.compile, Slot.compileList_operandsOf selector slots index]

theorem Slot.compileList_operandsOf (selector : Selector) : ∀ (slots : List Slot) (index : Nat),
    Slot.compileList board ctx selector index (Slot.operandsOf slots)
      = Slot.compileList board ctx selector index slots
  | [], _ => rfl
  | slot :: rest, index => by
    rw [Slot.operandsOf]
    exact Slot.compileList_open (Slot.compileList_operands selector slot)
      (Slot.compileList_operandsOf selector rest) index

end

/-- Whether a slot is expandable. -/
def Slot.isGroup : Slot → Bool
  | .variadic _ => true
  | _ => false

mutual

theorem Slot.isGroup_of_mem_operands : ∀ (slot : Slot) {x : Slot}, x ∈ slot.operands →
    x.isGroup = false
  | .literal _, _, h | .upvar _, _, h | .script _, _, h | .reporter _, _, h => by
    rw [Slot.operands, List.mem_singleton] at h
    rw [h]
    rfl
  | .variadic slots, _, h => Slot.isGroup_of_mem_operandsOf slots h

theorem Slot.isGroup_of_mem_operandsOf : ∀ (slots : List Slot) {x : Slot},
    x ∈ Slot.operandsOf slots → x.isGroup = false
  | slot :: rest, _, h => by
    rw [Slot.operandsOf, List.mem_append] at h
    rcases h with h | h
    · exact Slot.isGroup_of_mem_operands slot h
    · exact Slot.isGroup_of_mem_operandsOf rest h

end

theorem Slot.sizeOf_append (as bs : List Slot) : sizeOf (as ++ bs) + 1 = sizeOf as + sizeOf bs := by
  induction as with
  | nil => simp [Nat.add_comm]
  | cons slot as ih =>
    simp only [List.cons_append, List.cons.sizeOf_spec]
    omega

mutual

theorem Slot.sizeOf_operands_le : ∀ slot : Slot, sizeOf slot.operands ≤ 2 + sizeOf slot
  | .literal _ | .upvar _ | .script _ | .reporter _ => by
    simp only [Slot.operands, List.cons.sizeOf_spec, List.nil.sizeOf_spec]
    omega
  | .variadic slots => by
    have hslots := Slot.sizeOf_operandsOf_le slots
    simp only [Slot.operands, Slot.variadic.sizeOf_spec]
    omega

/-- Opening slots does not make them larger. -/
theorem Slot.sizeOf_operandsOf_le :
    ∀ slots : List Slot, sizeOf (Slot.operandsOf slots) ≤ sizeOf slots
  | [] => Nat.le_refl _
  | slot :: rest => by
    have hslot := Slot.sizeOf_operands_le slot
    have hrest := Slot.sizeOf_operandsOf_le rest
    have happend := Slot.sizeOf_append slot.operands (Slot.operandsOf rest)
    simp only [Slot.operandsOf, List.cons.sizeOf_spec]
    omega

end

/-- What is to be done where compiling should never come to. -/
structure Arms where
  /-- At an expandable slot among slots that were opened. -/
  group : List Slot → CompileM Operand
  /-- At a subscription where the code of any other block is put together. -/
  subscription : Operands → CompileM Code

/-- The code of a block that is no subscription. -/
def Arms.emit (arms : Arms) (board : Board) (ctx : Context) (ops : Operands) : CompileM Code :=
  if ops.selector = .subscribeToMqttMessage then arms.subscription ops else
    Template.emit board ctx ops

mutual

/-- Compiles a chain, opening the slots of each block before any of them is compiled. -/
def Block.compileOpened (arms : Arms) (board : Board) (ctx : Context) : Block → CompileM Code
  | .mk name _ inputs next => do
    match Selector.ofName? name with
    | none => throw (.unknownSelector name)
    | some selector =>
      if selector = .subscribeToMqttMessage then
        let items ← Slot.compileOpenedList arms board ctx selector 0 (Slot.operandsOf inputs)
        match board.broker with
        | none =>
          CompileM.inert selector .noBroker
          pure .empty
        | some broker =>
          let body ← CompileM.isolated
            (Block.compileOpenedBelow arms board { ctx with yields := false } next)
          Template.subscribe broker ctx ⟨selector, items⟩ body
      else
        CompileM.forgetPinsIf selector.yields
        let items ← Slot.compileOpenedList arms board ctx selector 0 (Slot.operandsOf inputs)
        CompileM.forgetPinsIf selector.yields
        let code ← arms.emit board ctx ⟨selector, items⟩
        let rest ← Block.compileOpenedBelow arms board ctx next
        pure (code ++ rest)
termination_by b => sizeOf b
decreasing_by
  all_goals
    have hsize := Slot.sizeOf_operandsOf_le inputs
    simp only [Block.mk.sizeOf_spec]
    omega

/-- Compiles the chain that starts at a block, if there is one. -/
def Block.compileOpenedBelow (arms : Arms) (board : Board) (ctx : Context) :
    Option Block → CompileM Code
  | none => pure .empty
  | some b => b.compileOpened arms board ctx
termination_by next => sizeOf next

/-- Compiles a slot that is not expandable to its operand. -/
def Slot.compileOpened (arms : Arms) (board : Board) (ctx : Context) : Slot → CompileM Operand
  | .literal text => pure (.literal text)
  | .upvar name => pure (.name name)
  | .script body =>
    return .script (← CompileM.isolated (Block.compileOpenedBelow arms board ctx body))
  | .reporter block => return .expression (← block.compileOpened arms board ctx)
  | .variadic slots => arms.group slots
termination_by slot => sizeOf slot

/-- Compiles slots that are not expandable in order. -/
def Slot.compileOpenedList (arms : Arms) (board : Board) (ctx : Context) (selector : Selector)
    (index : Nat) : List Slot → CompileM (List Operand)
  | [] => pure []
  | slot :: rest => do
    let first ← CompileM.operandAt selector index (slot.compileOpened arms board ctx)
    let others ← Slot.compileOpenedList arms board ctx selector (index + 1) rest
    pure (first :: others)
termination_by slots => sizeOf slots

end

theorem CompileM.operandAt_pure {α : Type} (selector : Selector) (index : Nat) (a : α) :
    CompileM.operandAt selector index (pure a) = pure a := by
  unfold CompileM.operandAt
  split <;> rfl

theorem CompileM.operandAt_map {α β : Type} (selector : Selector) (index : Nat) (f : α → β)
    (act : CompileM α) :
    CompileM.operandAt selector index (f <$> act) = f <$> CompileM.operandAt selector
      index act := by
  unfold CompileM.operandAt CompileM.restoringPins
  split
  · simp only [map_bind, bind_map_left, map_pure]
  · rfl

theorem Arms.emit_of_ne (arms : Arms) {selector : Selector} (h : selector ≠ .subscribeToMqttMessage)
    (items : List Operand) :
    arms.emit board ctx ⟨selector, items⟩ = Template.emit board ctx ⟨selector, items⟩ :=
  if_neg h

section

variable (arms : Arms)

mutual

/-- Whatever the two arms do, the result is that of the compiler. -/
theorem Block.compileOpened_eq : ∀ (b : Block) (ctx : Context),
    b.compileOpened arms board ctx = b.compile board ctx
  | .mk name kind inputs next, ctx => by
    -- Opened slots have no groups, and compile as the slots they came from.
    have hitems : ∀ selector, Slot.compileOpenedList arms board ctx selector 0
        (Slot.operandsOf inputs)
        = Slot.compileList board ctx selector 0 inputs := by
      intro selector
      rw [Slot.compileOpenedList_eq (Slot.operandsOf inputs)
        (fun x => Slot.isGroup_of_mem_operandsOf inputs), Slot.compileList_operandsOf]
    rw [Block.compileOpened, Block.compile]
    cases hname : Selector.ofName? name with
    | none => rfl
    | some selector =>
      by_cases hsel : selector = .subscribeToMqttMessage
      · subst hsel
        cases board.broker with
        | none => simp only [if_true, hitems]
        | some broker => simp only [if_true, hitems, Block.compileOpenedBelow_eq next]
      · simp only [hsel, if_false, hitems, arms.emit_of_ne hsel, Block.compileOpenedBelow_eq next]
termination_by b => sizeOf b
decreasing_by
  all_goals
    have hsize := Slot.sizeOf_operandsOf_le inputs
    simp only [Block.mk.sizeOf_spec]
    omega

theorem Block.compileOpenedBelow_eq : ∀ (next : Option Block) (ctx : Context),
    Block.compileOpenedBelow arms board ctx next = Block.compileBelow board ctx next
  | none, _ => by rw [Block.compileOpenedBelow, Block.compileBelow]
  | some b, ctx =>
    by rw [Block.compileOpenedBelow, Block.compileBelow, Block.compileOpened_eq b ctx]
termination_by next => sizeOf next

theorem Slot.compileOpened_eq : ∀ slot : Slot, slot.isGroup = false →
    ∀ (ctx : Context) (selector : Selector) (index : Nat),
      (fun x => [x]) <$> CompileM.operandAt selector index (slot.compileOpened arms board ctx)
        = slot.compile board ctx selector index
  | .literal text, _, _, selector, index => by
    rw [Slot.compileOpened, Slot.compile, CompileM.operandAt_pure, map_pure]
  | .upvar name, _, _, selector, index => by
    rw [Slot.compileOpened, Slot.compile, CompileM.operandAt_pure, map_pure]
  | .script body, _, ctx, selector, index => by
    rw [Slot.compileOpened, Slot.compile, Block.compileOpenedBelow_eq body ctx,
      ← CompileM.operandAt_map]
    simp only [map_bind, map_pure]
  | .reporter block, _, ctx, selector, index => by
    rw [Slot.compileOpened, Slot.compile, Block.compileOpened_eq block ctx,
      ← CompileM.operandAt_map]
    simp only [map_bind, map_pure]
  | .variadic _, h, _, _, _ => Bool.noConfusion h
termination_by slot => sizeOf slot

theorem Slot.compileOpenedList_eq : ∀ slots : List Slot, (∀ x ∈ slots, x.isGroup = false) →
    ∀ (ctx : Context) (selector : Selector) (index : Nat),
      Slot.compileOpenedList arms board ctx selector index slots
        = Slot.compileList board ctx selector index slots
  | [], _, _, _, _ => by rw [Slot.compileOpenedList, Slot.compileList]
  | slot :: rest, h, ctx, selector, index => by
    rw [List.forall_mem_cons] at h
    rw [Slot.compileOpenedList, Slot.compileList, ← Slot.compileOpened_eq slot h.1 ctx
      selector index]
    simp only [bind_map_left, List.length_singleton, List.singleton_append,
      Slot.compileOpenedList_eq rest h.2]
termination_by slots => sizeOf slots

end

end

/-- Opening every group of a tree leaves no group and changes nothing that compiling gives, from any
state: not the text or the error, not the pins and not the diagnostics. And a compiler that opens
the slots of each block first comes neither to a group among them nor to a subscription among the
other blocks: it compiles the same whatever it would do there. -/
theorem grouping_leaves_no_trace (board : Board) (ctx : Context) (b : Block) (s : CompileState) :
    b.ungrouped.hasNoGroup = true ∧
      b.ungrouped.compileFrom board ctx s = b.compileFrom board ctx s ∧
      ∀ arms : Arms, b.compileOpened arms board ctx = b.compile board ctx := by
  refine ⟨b.hasNoGroup_ungrouped, ?_, fun arms => b.compileOpened_eq arms ctx⟩
  unfold Block.compileFrom
  rw [Block.compile_ungrouped]

end BlockLink
