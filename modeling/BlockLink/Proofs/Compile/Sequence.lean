import BlockLink.Proofs.Compile.Run

/-!
# `BlockLink/Proofs/Compile/Sequence.lean` — compiling one chain behind another

A chain can be taken apart anywhere: compiling it is compiling its front and then, from the state
that this leaves, its back, with the texts put together. `CompileResult.andThen` is that
composition, errors included: what fails ends the whole where it failed, with the pins recorded and
the diagnostics made up to there.

A subscription is the one block that a chain cannot be taken apart behind, because it takes what is
below it as its own body. So the front must not hold one (`compile_followedBy`); the back may.
-/

set_option autoImplicit false

namespace BlockLink

/-! ## What compiling gives

Composition of results is that of computations with an error and a state, restricted to texts: the
state goes through, and an error stops it. -/

/-- Source or an error, and the state after it in either case. -/
abbrev CompileResult := Except CompileError String × CompileState

/-- Goes on behind what went through, and puts the texts together. -/
def CompileResult.andThen (front : CompileResult) (back : CompileState → CompileResult) :
    CompileResult :=
  match front with
  | (.error e, s) => (.error e, s)
  | (.ok x, s) =>
    match back s with
    | (.error e, t) => (.error e, t)
    | (.ok y, t) => (.ok (x ++ y), t)

namespace CompileResult

theorem ok_empty_andThen (s : CompileState) (back : CompileState → CompileResult) :
    andThen (.ok "", s) back = back s := by
  simp only [andThen]
  cases back s with
  | mk result t =>
    cases result with
    | error e => rfl
    | ok y => simp

theorem andThen_assoc (front : CompileResult) (middle back : CompileState → CompileResult) :
    andThen (andThen front middle) back = andThen front fun s => andThen (middle s) back := by
  obtain ⟨result, s⟩ := front
  cases result with
  | error e => rfl
  | ok x =>
    simp only [andThen]
    cases middle s with
    | mk result t =>
      cases result with
      | error e => rfl
      | ok y =>
        simp only
        cases back t with
        | mk result u =>
          cases result with
          | error e => rfl
          | ok z => simp [String.append_assoc]

end CompileResult

/-- What a computation of code gives from a state. -/
def CompileM.resultFrom (act : CompileM Code) (s : CompileState) : CompileResult :=
  ((act.run.run s).1.map Code.render, (act.run.run s).2)

/-- Code in front of code gives the texts one after another, and the first error if there is one. -/
theorem CompileM.resultFrom_seq (front back : CompileM Code) (s : CompileState) :
    (do let own ← front; let rest ← back; pure (own ++ rest) : CompileM Code).resultFrom s
      = (front.resultFrom s).andThen back.resultFrom := by
  unfold resultFrom
  rw [ExceptT.run_bind, StateT.run_bind]
  cases front.run.run s with
  | mk result t =>
    cases result with
    | error e => rfl
    | ok own =>
      show (((back >>= fun rest => pure (own ++ rest) : CompileM Code).run.run t).1.map Code.render,
        ((back >>= fun rest => pure (own ++ rest) : CompileM Code).run.run t).2) = _
      rw [ExceptT.run_bind, StateT.run_bind]
      simp only [Except.map, CompileResult.andThen]
      cases back.run.run t with
      | mk result u =>
        cases result with
        | error e => rfl
        | ok rest => rfl

/-! ## Blocks of a chain

A chain that another one is put below ends in the same blocks; each of them has more below it than
before. -/

namespace Block

/-- The block without what is below it. -/
def single (b : Block) : Block :=
  .mk b.selector b.kind b.inputs none

theorem single_followedBy (a b : Block) : (a.followedBy b).single = a.single := by
  cases a
  rfl

mutual

/-- The blocks of the front have the back below them now, and the blocks of the back are as they
were. -/
theorem chain_followedBy (b : Block) : ∀ a : Block,
    (a.followedBy b).chain = a.chain.map (·.followedBy b) ++ b.chain
  | .mk s k i next => by
    rw [followedBy, chain, chainBelow, chain_followedBelow b next, chain, List.map_cons, followedBy]
    rfl

theorem chain_followedBelow (b : Block) : ∀ next : Option Block,
    (followedBelow next b).chain = (chainBelow next).map (·.followedBy b) ++ b.chain
  | none => rfl
  | some a => chain_followedBy b a

end

variable {board : Board} {ctx : Context}

/-- What the chain that starts at a block gives, if there is one. -/
def resultBelow (board : Board) (ctx : Context) : Option Block → CompileState → CompileResult
  | none, s => (.ok "", s)
  | some b, s => b.compileFrom board ctx s

theorem resultFrom_compileBelow (next : Option Block) (s : CompileState) :
    (Block.compileBelow board ctx next).resultFrom s = resultBelow board ctx next s := by
  cases next with
  | none => rfl
  | some b =>
    rw [Block.compileBelow]
    rfl

/-- The code of the block itself. -/
def compileOwn (board : Board) (ctx : Context) (name : String) (inputs : List Slot) :
    CompileM Code :=
  match Selector.ofName? name with
  | none => throw (.unknownSelector name)
  | some selector => do
    CompileM.forgetPinsIf selector.yields
    let items ← Slot.compileList board ctx selector 0 inputs
    CompileM.forgetPinsIf selector.yields
    Template.emit board ctx ⟨selector, items⟩

/-- A block that is no subscription writes its own code without looking at what is below it. -/
theorem compile_eq_bind {name : String}
    (hname : Selector.ofName? name ≠ some .subscribeToMqttMessage)
    (kind : BlockKind) (inputs : List Slot) (next : Option Block) :
    (Block.mk name kind inputs next).compile board ctx = (do
      let own ← compileOwn board ctx name inputs
      let rest ← Block.compileBelow board ctx next
      pure (own ++ rest)) := by
  rw [Block.compile, compileOwn]
  cases hselector : Selector.ofName? name with
  | none => rfl
  | some selector =>
    have hsel : selector ≠ .subscribeToMqttMessage := fun heq => hname (by rw [hselector, heq])
    simp only [bind_assoc]

/-- A block that is no subscription gives its own code, and then what is below it. -/
theorem compileFrom_eq_andThen {name : String}
    (hname : Selector.ofName? name ≠ some .subscribeToMqttMessage) (kind : BlockKind)
    (inputs : List Slot) (next : Option Block) (s : CompileState) :
    (Block.mk name kind inputs next).compileFrom board ctx s
      = ((compileOwn board ctx name inputs).resultFrom s).andThen (resultBelow board ctx next) := by
  show ((Block.mk name kind inputs next).compile board ctx).resultFrom s = _
  rw [compile_eq_bind hname, CompileM.resultFrom_seq, funext (resultFrom_compileBelow next)]

mutual

/-- By recursion on the front: its first block writes its own code, and the rest is in front of the
back. -/
theorem compileFrom_followedBy (b : Block) : ∀ (a : Block) (s : CompileState),
    (∀ x ∈ a.chain, Selector.ofName? x.selector ≠ some .subscribeToMqttMessage) →
      (a.followedBy b).compileFrom board ctx s
        = CompileResult.andThen (a.compileFrom board ctx s) (b.compileFrom board ctx)
  | .mk name kind inputs next, s, h => by
    rw [chain, List.forall_mem_cons] at h
    have hname : Selector.ofName? name ≠ some .subscribeToMqttMessage := h.1
    rw [followedBy, compileFrom_eq_andThen hname, compileFrom_eq_andThen hname,
      CompileResult.andThen_assoc]
    congr 1
    funext t
    exact resultBelow_followedBelow b next t h.2

theorem resultBelow_followedBelow (b : Block) : ∀ (next : Option Block) (s : CompileState),
    (∀ x ∈ chainBelow next, Selector.ofName? x.selector ≠ some .subscribeToMqttMessage) →
      (followedBelow next b).compileFrom board ctx s
        = (resultBelow board ctx next s).andThen (b.compileFrom board ctx)
  | none, s, _ => (CompileResult.ok_empty_andThen s (b.compileFrom board ctx)).symm
  | some a, s, h => compileFrom_followedBy b a s h

end

end Block

/-- The chain of two chains put together has the blocks of both in order, each of the first with the
second below it. Compiling it from any state is compiling the first and then the second: the same
text, error, pins and diagnostics. Only a subscription in the first would take the second as part of
itself. -/
theorem compile_followedBy (board : Board) (ctx : Context) (a b : Block) (s : CompileState)
    (h : ∀ x ∈ a.chain, Selector.ofName? x.selector ≠ some .subscribeToMqttMessage) :
    (a.followedBy b).chain = a.chain.map (·.followedBy b) ++ b.chain ∧
      (a.followedBy b).chain.map Block.single = a.chain.map Block.single
        ++ b.chain.map Block.single ∧
      (a.followedBy b).compileFrom board ctx s
        = CompileResult.andThen (a.compileFrom board ctx s) (b.compileFrom board ctx) := by
  have hchain := Block.chain_followedBy b a
  refine ⟨hchain, ?_, Block.compileFrom_followedBy b a s h⟩
  have hsingle : Block.single ∘ (·.followedBy b) = Block.single := funext fun x =>
    Block.single_followedBy x b
  rw [hchain, List.map_append, List.map_map, hsingle]

/-- The second chain finds the pin that the first one set up, and fails behind it. -/
theorem compile_followedBy_failing :
    let board : Board := ⟨"", some { Pinout.empty with digitalOutput := ⟨[(2, "P2")]⟩ }, none⟩
    let a : Block := .mk "setPinDigital" .command [.literal "2", .literal "1"]
      (some (.mk "publishMQTTmessage" .command [] none))
    let b : Block := .mk "setPinDigital" .command [.literal "2", .literal "0"]
      (some (.mk "doTurnLeft" .command [] none))
    (∀ x ∈ a.chain, Selector.ofName? x.selector ≠ some .subscribeToMqttMessage) ∧
      (a.followedBy b).compileFrom board ⟨.id 0, true⟩ .initial
        = (.error (.unknownSelector "doTurnLeft"),
          ⟨⟨[(2, .output)]⟩, [⟨.publishMqttMessage, .noBroker⟩]⟩) := by
  intro board a b
  have hfront : ∀ x ∈ a.chain, Selector.ofName? x.selector ≠ some .subscribeToMqttMessage := by
    intro x hx
    rcases List.mem_cons.1 hx with rfl | hx
    · decide
    · rcases List.mem_cons.1 hx with rfl | hx
      · decide
      · cases hx
  refine ⟨hfront, ?_⟩
  rw [(compile_followedBy board ⟨.id 0, true⟩ a b .initial hfront).2.2]
  rfl

end BlockLink
