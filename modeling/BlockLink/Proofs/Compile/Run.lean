import BlockLink.Compile.Chain
import BlockLink.Proofs.SortedMap

/-!
# `BlockLink/Proofs/Compile/Run.lean` — what a computation of the compiler gives

The compiler is a computation with an error inside a state, and its proofs all begin in the same
way: a block compiled, so each of its parts did, and the states follow one another. `CompileM.Gives`
is that a computation goes through from a state, with a result and a state behind it. It is taken
apart at every `>>=`, and each operation on the pins has its own reading, so no later proof opens
the monad.
-/

set_option autoImplicit false

namespace BlockLink

namespace CompileState

/-- Forgets the modes of all pins if a condition holds. -/
def forgetPinsIf (s : CompileState) (b : Bool) : CompileState :=
  if b then s.forgetPins else s

@[simp]
theorem forgetPinsIf_true (s : CompileState) : s.forgetPinsIf true = s.forgetPins := rfl

@[simp]
theorem forgetPinsIf_false (s : CompileState) : s.forgetPinsIf false = s := rfl

@[simp]
theorem pins_forgetPins (s : CompileState) : s.forgetPins.pins = .empty := rfl

@[simp]
theorem pins_report (s : CompileState) (d : Diagnostic) : (s.report d).pins = s.pins := by
  unfold report
  split <;> rfl

end CompileState

namespace CompileM

variable {α β : Type} {s s' : CompileState}

/-- The computation goes through from a state, with a result and the state after it. -/
def Gives (act : CompileM α) (s : CompileState) (a : α) (s' : CompileState) : Prop :=
  act.run.run s = (.ok a, s')

theorem Gives.unique {act : CompileM α} {a b : α} {t : CompileState} (h : act.Gives s a s')
    (h' : act.Gives s b t) : a = b := by
  have hboth : (Except.ok a, s') = (Except.ok b, t) := h.symm.trans h'
  exact Except.ok.inj (Prod.mk.inj hboth).1

/-! ## The monad

`Gives` is a state-passing relation for success alone: an error has no reading, so it contradicts
every hypothesis that a computation went through. -/

@[simp]
theorem gives_pure {a b : α} : (pure a : CompileM α).Gives s b s' ↔ b = a ∧ s' = s := by
  constructor
  · intro h
    cases h
    exact ⟨rfl, rfl⟩
  · rintro ⟨rfl, rfl⟩
    rfl

/-- What goes through did so in two steps, with a state between them. -/
@[simp]
theorem gives_bind {act : CompileM α} {f : α → CompileM β} {b : β} :
    (act >>= f).Gives s b s' ↔ ∃ a t, act.Gives s a t ∧ (f a).Gives t b s' := by
  unfold Gives
  rw [ExceptT.run_bind, StateT.run_bind]
  cases h : act.run.run s with
  | mk r t =>
    cases r with
    | error e =>
      refine iff_of_false (fun hf => ?_) ?_
      · cases hf
      · rintro ⟨a, t', ha, -⟩
        cases ha
    | ok a =>
      constructor
      · exact fun hf => ⟨a, t, rfl, hf⟩
      · rintro ⟨a', t', ha, hf⟩
        cases ha
        exact hf

@[simp]
theorem gives_map {act : CompileM α} {f : α → β} {b : β} :
    (f <$> act).Gives s b s' ↔ ∃ a, act.Gives s a s' ∧ b = f a := by
  rw [← bind_pure_comp, gives_bind]
  constructor
  · rintro ⟨a, t, hact, hpure⟩
    obtain ⟨rfl, rfl⟩ := gives_pure.1 hpure
    exact ⟨a, hact, rfl⟩
  · rintro ⟨a, hact, rfl⟩
    exact ⟨a, s', hact, gives_pure.2 ⟨rfl, rfl⟩⟩

@[simp]
theorem gives_throw {e : CompileError} {a : α} : ¬ (throw e : CompileM α).Gives s a s' := by
  intro h
  cases h

/-- A computation without state goes through if it is not an error. -/
@[simp]
theorem gives_lift {x : Except CompileError α} {a : α} :
    (liftM x : CompileM α).Gives s a s' ↔ x = .ok a ∧ s' = s := by
  constructor
  · intro h
    cases h
    exact ⟨rfl, rfl⟩
  · rintro ⟨rfl, rfl⟩
    rfl

@[simp]
theorem gives_modify {f : CompileState → CompileState} {u : Unit} :
    (modify f : CompileM Unit).Gives s u s' ↔ s' = f s := by
  constructor
  · intro h
    cases h
    rfl
  · rintro rfl
    rfl

/-! ## Pins

The operations on the memory of pins, each as the state that it leaves. -/

@[simp]
theorem gives_forgetPins {u : Unit} : forgetPins.Gives s u s' ↔ s' = s.forgetPins :=
  gives_modify

@[simp]
theorem gives_forgetPinsIf {b : Bool} {u : Unit} :
    (forgetPinsIf b).Gives s u s' ↔ s' = s.forgetPinsIf b := by
  cases b with
  | true => exact gives_forgetPins
  | false => exact gives_pure.trans (by simp)

@[simp]
theorem gives_inert {selector : Selector} {reason : InertReason} {u : Unit} :
    (inert selector reason).Gives s u s' ↔ s' = s.report ⟨selector, reason⟩ :=
  gives_modify

/-- A guard is written unless the pin is known to be in the mode, and it is known behind it in any
case. -/
@[simp]
theorem gives_requireMode {pin : Pin} {mode : PinMode} {setup : String} {g : Option Code} :
    (requireMode pin mode setup).Gives s g s' ↔
      g = (if s.pins.get? pin = some mode then none else some (.guard pin mode setup)) ∧
        s' = { s with pins := s.pins.insert pin mode } := by
  -- What was known and what is known now come out of one exchange.
  have hrun : (requireMode pin mode setup).run.run s =
      (.ok (if (s.pins.exchange pin mode).1 = some mode then none else some
        (.guard pin mode setup)),
        { s with pins := (s.pins.exchange pin mode).2 }) := rfl
  rw [SortedMap.exchange_eq] at hrun
  constructor
  · intro h
    cases hrun.symm.trans h
    exact ⟨rfl, rfl⟩
  · rintro ⟨rfl, rfl⟩
    exact hrun

/-- The body of a loop or a branch starts from no knowledge of the pins and leaves none. -/
@[simp]
theorem gives_isolated {act : CompileM α} {a : α} :
    (isolated act).Gives s a s' ↔ ∃ t, act.Gives s.forgetPins a t ∧ s' = t.forgetPins := by
  simp only [isolated, gives_bind, gives_forgetPins, gives_pure]
  constructor
  · rintro ⟨_, _, rfl, b, t, hact, _, _, rfl, rfl, rfl⟩
    exact ⟨t, hact, rfl⟩
  · rintro ⟨t, hact, rfl⟩
    exact ⟨(), _, rfl, a, t, hact, (), _, rfl, rfl, rfl⟩

/-- What an operand that may be skipped records is dropped again. -/
theorem gives_restoringPins {act : CompileM α} {a : α} :
    (restoringPins act).Gives s a s' ↔ ∃ t, act.Gives s a t ∧ s' = { t with pins := s.pins } := by
  have hget : ∀ {b t}, (get : CompileM CompileState).Gives s b t ↔ b = s ∧ t = s := by
    intro b t
    constructor
    · intro h
      cases h
      exact ⟨rfl, rfl⟩
    · rintro ⟨rfl, rfl⟩
      rfl
  simp only [restoringPins, gives_bind, hget, gives_modify, gives_pure]
  constructor
  · rintro ⟨_, _, ⟨rfl, rfl⟩, b, t, hact, _, _, rfl, rfl, rfl⟩
    exact ⟨t, hact, rfl⟩
  · rintro ⟨t, hact, rfl⟩
    exact ⟨_, _, ⟨rfl, rfl⟩, a, t, hact, (), _, rfl, rfl, rfl⟩

end CompileM

/-! ## Blocks

What it takes for a block to compile, with the states in between: its slots, then its own code, then
what is below it. A subscription takes the chain below it as its body. -/

variable {board : Board} {ctx : Context} {s s' : CompileState}

/-- A block other than a subscription compiles its inputs, then itself, then what is below it. -/
theorem Block.gives_compile {name : String} {kind : BlockKind} {inputs : List Slot}
    {next : Option Block} {selector : Selector} (hname : Selector.ofName? name = some selector)
    (hsel : selector ≠ .subscribeToMqttMessage) {code : Code} :
    ((Block.mk name kind inputs next).compile board ctx).Gives s code s' ↔
      ∃ items t own u rest,
        (Slot.compileList board ctx selector 0 inputs).Gives
          (s.forgetPinsIf selector.yields) items t ∧
        (Template.emit board ctx ⟨selector, items⟩).Gives (t.forgetPinsIf selector.yields) own u ∧
        (Block.compileBelow board ctx next).Gives u rest s' ∧ code = own ++ rest := by
  have hcompile : (Block.mk name kind inputs next).compile board ctx = do
      CompileM.forgetPinsIf selector.yields
      let items ← Slot.compileList board ctx selector 0 inputs
      CompileM.forgetPinsIf selector.yields
      let own ← Template.emit board ctx ⟨selector, items⟩
      let rest ← Block.compileBelow board ctx next
      return own ++ rest := by
    rw [Block.compile, hname]
    cases selector <;> first | rfl | exact absurd rfl hsel
  rw [hcompile]
  simp only [CompileM.gives_bind, CompileM.gives_forgetPinsIf, CompileM.gives_pure]
  constructor
  · rintro ⟨_, _, rfl, items, t, hitems, _, _, rfl, own, u, hown, rest, v, hrest, rfl, rfl⟩
    exact ⟨items, t, own, u, rest, hitems, hown, hrest, rfl⟩
  · rintro ⟨items, t, own, u, rest, hitems, hown, hrest, rfl⟩
    exact ⟨(), _, rfl, items, t, hitems, (), _, rfl, own, u, hown, rest, _, hrest, rfl, rfl⟩

/-- A subscription compiles its inputs, and what is below it as the body of its callback. -/
theorem Block.gives_subscribe {name : String} {kind : BlockKind} {inputs : List Slot}
    {next : Option Block} (hname : Selector.ofName? name = some .subscribeToMqttMessage)
    {code : Code} (h : ((Block.mk name kind inputs next).compile board ctx).Gives s code s') :
    ∃ items t, (Slot.compileList board ctx .subscribeToMqttMessage 0 inputs).Gives s items t ∧
      (code = .empty ∨ ∃ broker body u,
        (Block.compileBelow board { ctx with yields := false } next).Gives t.forgetPins body u ∧
        Template.subscribe broker ctx ⟨.subscribeToMqttMessage, items⟩ body = .ok code) := by
  rw [Block.compile, hname] at h
  obtain ⟨items, t, hitems, h⟩ := CompileM.gives_bind.1 h
  refine ⟨items, t, hitems, ?_⟩
  cases hbroker : board.broker with
  | none =>
    simp only [hbroker] at h
    obtain ⟨-, u, -, h⟩ := CompileM.gives_bind.1 h
    exact .inl (CompileM.gives_pure.1 h).1
  | some broker =>
    simp only [hbroker] at h
    obtain ⟨body, u, hbody, h⟩ := CompileM.gives_bind.1 h
    obtain ⟨v, hbody, -⟩ := CompileM.gives_isolated.1 hbody
    exact .inr ⟨broker, body, v, hbody, (CompileM.gives_lift.1 h).1⟩

@[simp]
theorem Block.gives_compileBelow_none {code : Code} :
    (Block.compileBelow board ctx none).Gives s code s' ↔ code = .empty ∧ s' = s := by
  rw [Block.compileBelow, CompileM.gives_pure]

theorem Block.compileBelow_some (b : Block) :
    Block.compileBelow board ctx (some b) = b.compile board ctx := by
  rw [Block.compileBelow]

theorem Block.exists_gives_of_compileFrom {b : Block} {source : String}
    (h : (b.compileFrom board ctx s).1 = .ok source) :
    ∃ code s', (b.compile board ctx).Gives s code s' ∧ source = code.render := by
  unfold Block.compileFrom at h
  cases hrun : (b.compile board ctx).run.run s with
  | mk result s' =>
    rw [hrun] at h
    cases result with
    | error e => cases h
    | ok code =>
      cases h
      exact ⟨code, s', hrun, rfl⟩

/-! ## Slots

The number of an operand counts the operands in front of it, and a slot may have several. -/

namespace Slot

variable {selector : Selector} {index : Nat} {items : List Operand}

@[simp]
theorem gives_nil :
    (Slot.compileList board ctx selector index []).Gives s items s' ↔ items = [] ∧ s' = s := by
  rw [Slot.compileList, CompileM.gives_pure]

/-- The slots behind are numbered from the operands that the first one has. -/
@[simp]
theorem gives_cons {slot : Slot} {rest : List Slot} :
    (Slot.compileList board ctx selector index (slot :: rest)).Gives s items s' ↔
      ∃ first t others, (slot.compile board ctx selector index).Gives s first t ∧
        (Slot.compileList board ctx selector (index + first.length) rest).Gives t others s' ∧
        items = first ++ others := by
  rw [Slot.compileList]
  simp only [CompileM.gives_bind, CompileM.gives_pure]
  constructor
  · rintro ⟨first, t, hfirst, others, u, hothers, rfl, rfl⟩
    exact ⟨first, t, others, hfirst, hothers, rfl⟩
  · rintro ⟨first, t, others, hfirst, hothers, rfl⟩
    exact ⟨first, t, hfirst, others, s', hothers, rfl, rfl⟩

@[simp]
theorem gives_literal {text : String} :
    ((Slot.literal text).compile board ctx selector index).Gives s items s' ↔
      items = [.literal text] ∧ s' = s := by
  rw [Slot.compile, CompileM.gives_pure]

@[simp]
theorem gives_upvar {name : String} :
    ((Slot.upvar name).compile board ctx selector index).Gives s items s' ↔
      items = [.name name] ∧ s' = s := by
  rw [Slot.compile, CompileM.gives_pure]

/-- An operand that went through did so, whatever was made of the pins behind it. -/
theorem gives_of_operandAt {α : Type} {act : CompileM α} {a : α}
    (h : (CompileM.operandAt selector index act).Gives s a s') : ∃ t, act.Gives s a t := by
  unfold CompileM.operandAt at h
  split at h
  · obtain ⟨t, hact, -⟩ := CompileM.gives_restoringPins.1 h
    exact ⟨t, hact⟩
  · exact ⟨s', h⟩

/-- Whether a slot of a block is one that may be skipped when the code runs. -/
def mayBeSkipped (selector : Selector) (index : Nat) : Bool :=
  (selector == .reportAnd || selector == .reportOr) && index == 1

theorem operandAt_of_taken {α : Type} (h : mayBeSkipped selector index = false) (act : CompileM α) :
    CompileM.operandAt selector index act = act := by
  unfold CompileM.operandAt
  rw [if_neg]
  simpa [mayBeSkipped] using h

/-- A script in a slot is compiled by itself, with the pins forgotten in front of it and behind
it. -/
theorem gives_script {body : Option Block} (h : mayBeSkipped selector index = false) :
    ((Slot.script body).compile board ctx selector index).Gives s items s' ↔
      ∃ code t, (Block.compileBelow board ctx body).Gives s.forgetPins code t ∧
        s' = t.forgetPins ∧ items = [.script code] := by
  rw [Slot.compile, operandAt_of_taken h]
  simp only [bind_pure_comp, CompileM.gives_map, CompileM.gives_isolated]
  constructor
  · rintro ⟨code, ⟨t, hbody, rfl⟩, rfl⟩
    exact ⟨code, t, hbody, rfl, rfl⟩
  · rintro ⟨code, t, hbody, rfl, rfl⟩
    exact ⟨code, ⟨t, hbody, rfl⟩, rfl⟩

theorem gives_reporter {block : Block} (h : mayBeSkipped selector index = false) :
    ((Slot.reporter block).compile board ctx selector index).Gives s items s' ↔
      ∃ code, (block.compile board ctx).Gives s code s' ∧ items = [.expression code] := by
  rw [Slot.compile, operandAt_of_taken h]
  simp only [bind_pure_comp, CompileM.gives_map]

end Slot

end BlockLink
