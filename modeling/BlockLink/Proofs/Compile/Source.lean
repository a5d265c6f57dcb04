import BlockLink.Proofs.Compile.Outcome

/-!
# `BlockLink/Proofs/Compile/Source.lean` — the source of a script as a function

The compiler is a computation with a state and an error that builds trees. Its source text needs
none of this: `Block.source?` gives the text of a chain and the pins known after it from the pins
known before it, with layouts in the place of templates. The recursion is that of the compiler.

`Block.source?_eq_some_iff` says that this is what the compiler does, errors included. What is
proved of the source of scripts is proved of this function.
-/

set_option autoImplicit false

namespace BlockLink

open Operands

/-! ## Operands as texts

A layout is filled with texts, so of an operand that is code only the text counts. -/

/-- The operand with its code as plain text. -/
def Operand.flat : Operand → Operand
  | .expression c => .expression (.text c.render)
  | .script c => .script (.text c.render)
  | x => x

@[simp]
theorem Operand.blank_flat (x : Operand) : x.flat.blank = x.blank := by
  cases x <;> rfl

theorem Operands.shapes_flat (selector : Selector) (items : List Operand) :
    shapes ⟨selector, items.map Operand.flat⟩ = shapes ⟨selector, items⟩ := by
  simp

theorem Operands.fill_flat (selector : Selector) (items : List Operand) (ps : List Piece) :
    fill ⟨selector, items.map Operand.flat⟩ ps = fill ⟨selector, items⟩ ps := by
  have hread : ∀ (read : Operand → Option String), (∀ x, read x.flat = read x) → ∀ i : Nat,
      (items.map Operand.flat)[i]?.bind read = items[i]?.bind read := by
    intro read hread i
    rw [List.getElem?_map]
    cases items[i]? with
    | none => rfl
    | some x => exact hread x
  induction ps with
  | nil => rfl
  | cons p ps ih =>
    have hp : written? ⟨selector, items.map Operand.flat⟩ p = written? ⟨selector, items⟩ p := by
      cases p with
      | value i => exact hread _ (fun x => by cases x <;> rfl) i
      | number i => exact hread _ (fun x => by cases x <;> rfl) i
      | string i => exact hread _ (fun x => by cases x <;> rfl) i
      | script i => exact hread _ (fun x => by cases x <;> rfl) i
      | text | quoted | numeral | pinName | typed => rfl
    rw [fill, fill, hp, ih]

theorem Layout.outcome?_flat (board : Board) (ctx : Context) (selector : Selector)
    (items : List Operand) (m : PinMemory) :
    outcome? board ctx ⟨selector, items.map Operand.flat⟩ m = outcome? board ctx
      ⟨selector, items⟩ m := by
  unfold outcome?
  rw [shapes_flat, funext (fill_flat selector items)]

/-! ## Source

The recursion over blocks and slots, and the equations by which it is used afterwards. -/

/-- Nothing known if a condition holds. -/
def PinMemory.forgetIf (m : PinMemory) (b : Bool) : PinMemory :=
  if b then .empty else m

/-- The pins known after an operand, given those before it and those that its code leaves. -/
def PinMemory.afterOperand (selector : Selector) (index : Nat) (before after : PinMemory) :
    PinMemory :=
  if Slot.mayBeSkipped selector index then before else after

mutual

/-- The source of a block and every block chained below it, and the pins known after it. -/
def Block.source? (board : Board) (ctx : Context) : Block → PinMemory → Option (String × PinMemory)
  | .mk name _ inputs next, m =>
    match Selector.ofName? name with
    | none => none
    | some .subscribeToMqttMessage =>
      let selector := Selector.subscribeToMqttMessage
      (Slot.sources? board ctx selector 0 inputs m).bind fun (items, m) =>
        match board.broker with
        | none => some ("", m)
        | some broker =>
          (Block.sourceBelow? board { ctx with yields := false } next .empty).bind fun (body, _) =>
            (fill ⟨selector, items ++ [.script (.text body)]⟩
              (Layout.subscribe broker ctx (items.map Operand.blank))).map (·, .empty)
    | some selector =>
      (Slot.sources? board ctx selector 0 inputs (m.forgetIf selector.yields)).bind
        fun (items, m) =>
        (Layout.outcome? board ctx ⟨selector, items⟩ (m.forgetIf selector.yields)).bind
          fun (own, m) =>
          (Block.sourceBelow? board ctx next m).map fun (rest, m) => (own ++ rest, m)

/-- The source of the chain that starts at a block, if there is one. -/
def Block.sourceBelow? (board : Board) (ctx : Context) :
    Option Block → PinMemory → Option (String × PinMemory)
  | none, m => some ("", m)
  | some b, m => b.source? board ctx m

/-- The operands of a slot, whose first one has the given number. -/
def Slot.source? (board : Board) (ctx : Context) (selector : Selector) (index : Nat) :
    Slot → PinMemory → Option (List Operand × PinMemory)
  | .literal text, m => some ([.literal text], m)
  | .upvar name, m => some ([.name name], m)
  | .script body, m =>
    (Block.sourceBelow? board ctx body .empty).map fun (code, _) =>
      ([.script (.text code)], m.afterOperand selector index .empty)
  | .reporter block, m =>
    (block.source? board ctx m).map fun (code, after) =>
      ([.expression (.text code)], m.afterOperand selector index after)
  | .variadic slots, m => Slot.sources? board ctx selector index slots m

/-- The operands of slots in order. -/
def Slot.sources? (board : Board) (ctx : Context) (selector : Selector) (index : Nat) :
    List Slot → PinMemory → Option (List Operand × PinMemory)
  | [], m => some ([], m)
  | slot :: rest, m =>
    (slot.source? board ctx selector index m).bind fun (first, m) =>
      (Slot.sources? board ctx selector (index + first.length) rest m).map fun (others, m) =>
        (first ++ others, m)

end

variable {board : Board} {ctx : Context}

/-- What the recursion does at every block but a subscription: operands, the block itself, and the
chain below, with the known pins handed from one to the next. -/
theorem Block.source?_of_ne {name : String} {kind : BlockKind} {inputs : List Slot}
    {next : Option Block} {selector : Selector} (hname : Selector.ofName? name = some selector)
    (hsel : selector ≠ .subscribeToMqttMessage) (m : PinMemory) :
    (Block.mk name kind inputs next).source? board ctx m
      = (Slot.sources? board ctx selector 0 inputs (m.forgetIf selector.yields)).bind
        fun (items, m) =>
          (Layout.outcome? board ctx ⟨selector, items⟩ (m.forgetIf selector.yields)).bind
            fun (own, m) =>
            (Block.sourceBelow? board ctx next m).map fun (rest, m) => (own ++ rest, m) := by
  rw [Block.source?, hname]
  cases selector <;> first | rfl | exact absurd rfl hsel

/-- A subscription takes the chain below it as its callback, which starts with no known pins and has
no yield points. Without a broker it leaves nothing, and the callback is not looked at. -/
theorem Block.source?_subscribe {name : String} {kind : BlockKind} {inputs : List Slot}
    {next : Option Block} (hname : Selector.ofName? name = some .subscribeToMqttMessage)
    (m : PinMemory) :
    (Block.mk name kind inputs next).source? board ctx m
      = (Slot.sources? board ctx .subscribeToMqttMessage 0 inputs m).bind fun (items, m) =>
          match board.broker with
          | none => some ("", m)
          | some broker =>
            (Block.sourceBelow? board { ctx with yields := false } next .empty).bind
              fun (body, _) =>
              (fill ⟨.subscribeToMqttMessage, items ++ [.script (.text body)]⟩
                (Layout.subscribe broker ctx (items.map Operand.blank))).map (·, .empty) := by
  rw [Block.source?, hname]

/-- A block that compiles is in the palette. -/
theorem Block.exists_ofName?_of_source? {name : String} {kind : BlockKind} {inputs : List Slot}
    {next : Option Block} {m : PinMemory} {r : String × PinMemory}
    (h : (Block.mk name kind inputs next).source? board ctx m = some r) :
    ∃ selector, Selector.ofName? name = some selector := by
  cases hname : Selector.ofName? name with
  | none =>
    rw [Block.source?, hname] at h
    cases h
  | some selector => exact ⟨selector, rfl⟩

/-- The source of a chain is the code of its first block and the source of the chain below. -/
theorem Block.source?_eq_bind {name : String} {kind : BlockKind} {inputs : List Slot}
    {next : Option Block} (hname : Selector.ofName? name ≠ some .subscribeToMqttMessage)
    (m : PinMemory) :
    (Block.mk name kind inputs next).source? board ctx m
      = ((Block.mk name kind inputs none).source? board ctx m).bind fun r =>
          (Block.sourceBelow? board ctx next r.2).map fun r' => (r.1 ++ r'.1, r'.2) := by
  cases hselector : Selector.ofName? name with
  | none => rw [Block.source?, Block.source?, hselector]; rfl
  | some selector =>
    have hsel : selector ≠ .subscribeToMqttMessage := fun heq => hname (by rw [hselector, heq])
    rw [Block.source?_of_ne hselector hsel, Block.source?_of_ne hselector hsel]
    cases Slot.sources? board ctx selector 0 inputs (m.forgetIf selector.yields) with
    | none => rfl
    | some r =>
      simp only [Option.bind_some]
      cases Layout.outcome? board ctx ⟨selector, r.1⟩ (r.2.forgetIf selector.yields) with
      | none => rfl
      | some r' => simp [Block.sourceBelow?]

/-! ## The compiler writes the source

One direction says that the source is what the compiler gives, the other that the compiler gives
something where there is a source. Together they are `Block.source?_eq_some_iff`, which later
modules use in place of the state monad. -/

namespace CompileState

@[simp]
theorem pins_forgetPinsIf (s : CompileState) (b : Bool) :
    (s.forgetPinsIf b).pins = s.pins.forgetIf b := by
  cases b <;> rfl

end CompileState

/-- What an operand leaves, and what it goes back to if it may be skipped. -/
theorem Slot.gives_operandAt {α : Type} {selector : Selector} {index : Nat}
    {act : CompileM α} {a : α} {s s' : CompileState} :
    (CompileM.operandAt selector index act).Gives s a s' ↔
      ∃ t, act.Gives s a t ∧ s' = { t with pins := s.pins.afterOperand selector index t.pins } := by
  unfold PinMemory.afterOperand
  cases hskip : Slot.mayBeSkipped selector index with
  | false =>
    rw [Slot.operandAt_of_taken hskip]
    simp
  | true =>
    have hat : CompileM.operandAt selector index act = CompileM.restoringPins act := by
      unfold CompileM.operandAt
      rw [if_pos]
      simpa [Slot.mayBeSkipped] using hskip
    rw [hat, CompileM.gives_restoringPins]
    simp

/-- The steps of the compiler at a subscription, in the order of `Block.source?_subscribe`. -/
theorem Block.gives_subscribe_iff {name : String} {kind : BlockKind} {inputs : List Slot}
    {next : Option Block} (hname : Selector.ofName? name = some .subscribeToMqttMessage)
    {s s' : CompileState} {code : Code} :
    ((Block.mk name kind inputs next).compile board ctx).Gives s code s' ↔
      ∃ items t, (Slot.compileList board ctx .subscribeToMqttMessage 0 inputs).Gives s items t ∧
        match board.broker with
        | none => code = .empty ∧ s' = t.report ⟨.subscribeToMqttMessage, .noBroker⟩
        | some broker => ∃ body u,
          (Block.compileBelow board { ctx with yields := false } next).Gives t.forgetPins body u ∧
          Template.subscribe broker ctx ⟨.subscribeToMqttMessage, items⟩ body = .ok code ∧
          s' = u.forgetPins := by
  rw [Block.compile, hname]
  dsimp only
  rw [CompileM.gives_bind]
  refine exists_congr fun items => exists_congr fun t => and_congr_right fun _ => ?_
  cases board.broker with
  | none => simp [and_comm]
  | some broker =>
    simp only [CompileM.gives_bind, CompileM.gives_isolated, CompileM.gives_lift]
    constructor
    · rintro ⟨body, _, ⟨u, hbody, rfl⟩, hcode, rfl⟩
      exact ⟨body, u, hbody, hcode, rfl⟩
    · rintro ⟨body, u, hbody, hcode, rfl⟩
      exact ⟨body, _, ⟨u, hbody, rfl⟩, hcode, rfl⟩

/-- A subscription goes through exactly if its layout can be filled. -/
theorem Template.subscribe_eq_ok {broker : Broker} {selector : Selector} {items : List Operand}
    {body : Code} {x : String} :
    (∃ code, subscribe broker ctx ⟨selector, items⟩ body = .ok code ∧ code.render = x) ↔
      fill ⟨selector, items.map Operand.flat ++ [Operand.script (.text body.render)]⟩
        (Layout.subscribe broker ctx ((items.map Operand.flat).map Operand.blank)) = some x := by
  have hflat : items.map Operand.flat ++ [Operand.script (.text body.render)]
      = (items ++ [Operand.script body]).map Operand.flat := by
    simp [Operand.flat]
  have hblank : (items.map Operand.flat).map Operand.blank = items.map Operand.blank := by
    simp
  have hwrites : (subscribe broker ctx ⟨selector, items⟩ body).toOption.map Code.render = _ :=
    writes_subscribe ctx broker selector items body
  rw [hflat, hblank, fill_flat, ← Option.bind_some (Layout.subscribe ..) (fill _), ← hwrites]
  cases subscribe broker ctx ⟨selector, items⟩ body with
  | error e => simp [Except.toOption]
  | ok code => simp [Except.toOption]

mutual

/-- What the compiler gives is the source. The four lemmas follow the recursion of the compiler over
blocks, chains, slots and lists of slots. -/
theorem Block.source?_of_gives : ∀ (b : Block) {ctx : Context} {s s' : CompileState} {code : Code},
    (b.compile board ctx).Gives s code s' → b.source? board ctx s.pins = some (code.render, s'.pins)
  | .mk name kind inputs next, ctx, s, s', code, h => by
    cases hname : Selector.ofName? name with
    | none =>
      rw [Block.compile, hname] at h
      exact absurd h CompileM.gives_throw
    | some selector =>
      by_cases hsel : selector = .subscribeToMqttMessage
      -- A subscription: without a broker the code is empty, with one it is its layout around the
      -- callback.
      · subst hsel
        obtain ⟨items, t, hitems, h⟩ := (Block.gives_subscribe_iff hname).1 h
        rw [Block.source?_subscribe hname, Slot.sources?_of_gives inputs hitems, Option.bind_some]
        cases hbroker : board.broker with
        | none =>
          rw [hbroker] at h
          obtain ⟨rfl, rfl⟩ := h
          simp
        | some broker =>
          rw [hbroker] at h
          obtain ⟨body, u, hbody, hcode, rfl⟩ := h
          have hbelow := Block.sourceBelow?_of_gives next hbody
          rw [CompileState.pins_forgetPins] at hbelow
          dsimp only
          rw [hbelow, Option.bind_some]
          dsimp only
          rw [Template.subscribe_eq_ok.1 ⟨code, hcode, rfl⟩]
          rfl
      · obtain ⟨items, t, own, u, rest, hitems, hown, hrest, rfl⟩ :=
          (Block.gives_compile hname hsel).1 h
        -- Any other block. Its own step is known as `Layout.outcome?` on operands with their code
        -- flattened.
        have hsources := Slot.sources?_of_gives inputs hitems
        have hemit := hown.outcome?
        rw [Template.outcome?_emit, CompileState.pins_forgetPinsIf, ← Layout.outcome?_flat] at hemit
        rw [CompileState.pins_forgetPinsIf] at hsources
        rw [Block.source?_of_ne hname hsel, hsources, Option.bind_some]
        dsimp only
        rw [hemit, Option.bind_some]
        dsimp only
        rw [Block.sourceBelow?_of_gives next hrest]
        rfl

theorem Block.sourceBelow?_of_gives : ∀ (next : Option Block) {ctx : Context} {s s' : CompileState}
    {code : Code}, (Block.compileBelow board ctx next).Gives s code s' →
      Block.sourceBelow? board ctx next s.pins = some (code.render, s'.pins)
  | none, _, _, _, _, h => by
    obtain ⟨rfl, rfl⟩ := Block.gives_compileBelow_none.1 h
    rfl
  | some b, _, _, _, _, h => by
    rw [Block.compileBelow_some] at h
    exact Block.source?_of_gives b h

theorem Slot.source?_of_gives : ∀ (slot : Slot) {ctx : Context} {selector : Selector} {index : Nat}
    {s s' : CompileState} {items : List Operand},
    (slot.compile board ctx selector index).Gives s items s' →
      slot.source? board ctx selector index s.pins = some (items.map Operand.flat, s'.pins)
  | .literal text, _, _, _, _, _, _, h => by
    obtain ⟨rfl, rfl⟩ := Slot.gives_literal.1 h
    rfl
  | .upvar name, _, _, _, _, _, _, h => by
    obtain ⟨rfl, rfl⟩ := Slot.gives_upvar.1 h
    rfl
  | .script body, ctx, selector, index, s, s', items, h => by
    rw [Slot.compile, Slot.gives_operandAt] at h
    simp only [bind_pure_comp, CompileM.gives_map, CompileM.gives_isolated] at h
    obtain ⟨_, ⟨code, ⟨t, hbody, rfl⟩, rfl⟩, rfl⟩ := h
    have hbelow := Block.sourceBelow?_of_gives body hbody
    rw [CompileState.pins_forgetPins] at hbelow
    rw [Slot.source?, hbelow]
    rfl
  | .reporter block, ctx, selector, index, s, s', items, h => by
    rw [Slot.compile, Slot.gives_operandAt] at h
    simp only [bind_pure_comp, CompileM.gives_map] at h
    obtain ⟨t, ⟨code, hblock, rfl⟩, rfl⟩ := h
    rw [Slot.source?, Block.source?_of_gives block hblock]
    rfl
  | .variadic slots, ctx, selector, index, s, s', items, h => by
    rw [Slot.compile] at h
    rw [Slot.source?, Slot.sources?_of_gives slots h]

theorem Slot.sources?_of_gives :
    ∀ (slots : List Slot) {ctx : Context} {selector : Selector} {index : Nat}
    {s s' : CompileState} {items : List Operand},
    (Slot.compileList board ctx selector index slots).Gives s items s' →
      Slot.sources? board ctx selector index slots s.pins = some (items.map Operand.flat, s'.pins)
  | [], _, _, _, _, _, _, h => by
    obtain ⟨rfl, rfl⟩ := Slot.gives_nil.1 h
    rfl
  | slot :: rest, _, _, _, _, _, _, h => by
    obtain ⟨first, t, others, hfirst, hothers, rfl⟩ := Slot.gives_cons.1 h
    rw [Slot.sources?, Slot.source?_of_gives slot hfirst, Option.bind_some]
    dsimp only
    rw [List.length_map, Slot.sources?_of_gives rest hothers]
    simp

end

mutual

/-- The other way around: where there is a source, the compiler succeeds with it. Only the code is
determined, not how it is divided into labelled parts, so the operands are compared flattened. -/
theorem Block.exists_gives_of_source? :
    ∀ (b : Block) {ctx : Context} {s : CompileState} {x : String}
    {m : PinMemory}, b.source? board ctx s.pins = some (x, m) →
      ∃ code s', (b.compile board ctx).Gives s code s' ∧ code.render = x ∧ s'.pins = m
  | .mk name kind inputs next, ctx, s, x, m, h => by
    obtain ⟨selector, hname⟩ := Block.exists_ofName?_of_source? h
    by_cases hsel : selector = .subscribeToMqttMessage
    · subst hsel
      rw [Block.source?_subscribe hname] at h
      obtain ⟨⟨_, m₁⟩, hsources, h⟩ := Option.bind_eq_some_iff.1 h
      obtain ⟨items, t, hitems, rfl, rfl⟩ := Slot.exists_gives_of_sources? inputs hsources
      cases hbroker : board.broker with
      | none =>
        rw [hbroker] at h
        cases h
        -- No broker: the compiler reports that and goes on with the same pins.
        exact ⟨_, _, (Block.gives_subscribe_iff hname).2
          ⟨items, t, hitems, by rw [hbroker]; exact ⟨rfl, rfl⟩⟩,
          rfl, by simp⟩
      | some broker =>
        rw [hbroker] at h
        obtain ⟨⟨_, m₂⟩, hbelow, h⟩ := Option.bind_eq_some_iff.1 h
        obtain ⟨body, u, hbody, rfl, rfl⟩ :=
          Block.exists_gives_of_sourceBelow? next (s := t.forgetPins) hbelow
        obtain ⟨_, hfill, heq⟩ := Option.map_eq_some_iff.1 h
        cases heq
        obtain ⟨code, hcode, rfl⟩ := Template.subscribe_eq_ok.2 hfill
        exact ⟨code, _, (Block.gives_subscribe_iff hname).2
          ⟨items, t, hitems, by rw [hbroker]; exact ⟨body, u, hbody, hcode, rfl⟩⟩, rfl, rfl⟩
    -- Any other block: operands, own code and chain below are found one after another.
    · rw [Block.source?_of_ne hname hsel, ← CompileState.pins_forgetPinsIf] at h
      obtain ⟨⟨_, m₁⟩, hsources, h⟩ := Option.bind_eq_some_iff.1 h
      obtain ⟨items, t, hitems, rfl, rfl⟩ := Slot.exists_gives_of_sources? inputs hsources
      dsimp only at h
      rw [Layout.outcome?_flat, ← CompileState.pins_forgetPinsIf, ← Template.outcome?_emit] at h
      obtain ⟨⟨_, m₂⟩, hemit, h⟩ := Option.bind_eq_some_iff.1 h
      obtain ⟨own, u, hown, rfl, rfl⟩ := CompileM.outcome?_eq_some.1 hemit
      obtain ⟨⟨_, m₃⟩, hbelow, heq⟩ := Option.map_eq_some_iff.1 h
      obtain ⟨rest, s', hrest, rfl, rfl⟩ := Block.exists_gives_of_sourceBelow? next hbelow
      cases heq
      exact ⟨own ++ rest, s', (Block.gives_compile hname hsel).2
        ⟨items, t, own, u, rest, hitems, hown, hrest, rfl⟩, rfl, rfl⟩

theorem Block.exists_gives_of_sourceBelow? :
    ∀ (next : Option Block) {ctx : Context} {s : CompileState}
    {x : String} {m : PinMemory}, Block.sourceBelow? board ctx next s.pins = some (x, m) →
      ∃ code s', (Block.compileBelow board ctx next).Gives s code s' ∧ code.render = x ∧ s'.pins = m
  | none, _, s, _, _, h => by
    rw [Block.sourceBelow?] at h
    cases h
    exact ⟨.empty, s, Block.gives_compileBelow_none.2 ⟨rfl, rfl⟩, rfl, rfl⟩
  | some b, _, _, _, _, h => by
    rw [Block.compileBelow_some]
    exact Block.exists_gives_of_source? b h

theorem Slot.exists_gives_of_source? :
    ∀ (slot : Slot) {ctx : Context} {selector : Selector} {index : Nat}
    {s : CompileState} {items : List Operand} {m : PinMemory},
    slot.source? board ctx selector index s.pins = some (items, m) →
      ∃ items' s', (slot.compile board ctx selector index).Gives s items' s' ∧
        items'.map Operand.flat = items ∧ s'.pins = m
  | .literal text, _, _, _, s, _, _, h => by
    cases h
    exact ⟨_, s, Slot.gives_literal.2 ⟨rfl, rfl⟩, rfl, rfl⟩
  | .upvar name, _, _, _, s, _, _, h => by
    cases h
    exact ⟨_, s, Slot.gives_upvar.2 ⟨rfl, rfl⟩, rfl, rfl⟩
  | .script body, ctx, selector, index, s, items, m, h => by
    obtain ⟨⟨_, m₁⟩, hbelow, heq⟩ := Option.map_eq_some_iff.1 h
    obtain ⟨code, t, hbody, rfl, rfl⟩ := Block.exists_gives_of_sourceBelow? body
        (s := s.forgetPins) hbelow
    cases heq
    -- A script in a slot is compiled on its own, and what it knows about pins stays in it.
    refine ⟨[.script code], { t with pins := s.pins.afterOperand selector index .empty }, ?_, rfl,
      rfl⟩
    rw [Slot.compile, Slot.gives_operandAt]
    simp only [bind_pure_comp, CompileM.gives_map, CompileM.gives_isolated]
    exact ⟨t.forgetPins, ⟨code, ⟨t, hbody, rfl⟩, rfl⟩, rfl⟩
  | .reporter block, ctx, selector, index, s, items, m, h => by
    obtain ⟨⟨_, m₁⟩, hsource, heq⟩ := Option.map_eq_some_iff.1 h
    obtain ⟨code, t, hblock, rfl, rfl⟩ := Block.exists_gives_of_source? block hsource
    cases heq
    refine ⟨[.expression code], { t with pins := s.pins.afterOperand selector index t.pins }, ?_,
      rfl, rfl⟩
    rw [Slot.compile, Slot.gives_operandAt]
    simp only [bind_pure_comp, CompileM.gives_map]
    exact ⟨t, ⟨code, hblock, rfl⟩, rfl⟩
  | .variadic slots, ctx, selector, index, s, items, m, h => by
    rw [Slot.compile]
    exact Slot.exists_gives_of_sources? slots h

theorem Slot.exists_gives_of_sources? : ∀ (slots : List Slot) {ctx : Context} {selector : Selector}
    {index : Nat} {s : CompileState} {items : List Operand} {m : PinMemory},
    Slot.sources? board ctx selector index slots s.pins = some (items, m) →
      ∃ items' s', (Slot.compileList board ctx selector index slots).Gives s items' s' ∧
        items'.map Operand.flat = items ∧ s'.pins = m
  | [], _, _, _, s, _, _, h => by
    cases h
    exact ⟨[], s, Slot.gives_nil.2 ⟨rfl, rfl⟩, rfl, rfl⟩
  | slot :: rest, ctx, selector, index, s, items, m, h => by
    rw [Slot.sources?] at h
    obtain ⟨⟨_, m₁⟩, hsource, h⟩ := Option.bind_eq_some_iff.1 h
    obtain ⟨first, t, hfirst, rfl, rfl⟩ := Slot.exists_gives_of_source? slot hsource
    dsimp only at h
    rw [List.length_map] at h
    obtain ⟨⟨_, m₂⟩, hsources, heq⟩ := Option.map_eq_some_iff.1 h
    obtain ⟨others, s', hothers, rfl, rfl⟩ := Slot.exists_gives_of_sources? rest hsources
    cases heq
    exact ⟨first ++ others, s', Slot.gives_cons.2 ⟨first, t, others, hfirst, hothers, rfl⟩, by simp,
      rfl⟩

end

/-- The source of a chain, and the pins known after it, are what the compiler gives. -/
theorem Block.source?_eq_some_iff {b : Block} {s : CompileState} {x : String} {m : PinMemory} :
    b.source? board ctx s.pins = some (x, m) ↔
      (b.compileFrom board ctx s).1 = .ok x ∧ (b.compileFrom board ctx s).2.pins = m := by
  unfold Block.compileFrom
  constructor
  · intro h
    obtain ⟨code, s', hgives, rfl, rfl⟩ := Block.exists_gives_of_source? b h
    rw [hgives]
    exact ⟨rfl, rfl⟩
  · cases hrun : (b.compile board ctx).run.run s with
    | mk r s' =>
      cases r with
      | error e =>
        rintro ⟨h, -⟩
        cases h
      | ok code =>
        rintro ⟨h, rfl⟩
        cases h
        exact Block.source?_of_gives b hrun

theorem Block.exists_eq_ok {b : Block} {s : CompileState}
    (h : (b.compileFrom board ctx s).1.isOk = true) :
    ∃ x, (b.compileFrom board ctx s).1 = .ok x := by
  cases hx : (b.compileFrom board ctx s).1 with
  | error e =>
    rw [hx] at h
    cases h
  | ok x => exact ⟨x, rfl⟩

/-! ## Expandable slots

A slot that the user can expand holds a list of slots, and those may again be expandable. The
compiler numbers the operands as they come, whatever slot they stand in. -/

mutual

/-- The slots that the operands of a slot come from, one for each. -/
def Slot.operands : Slot → List Slot
  | .literal text => [.literal text]
  | .upvar name => [.upvar name]
  | .script body => [.script body]
  | .reporter block => [.reporter block]
  | .variadic slots => Slot.operandsOf slots

/-- The slots that the operands of slots come from. -/
def Slot.operandsOf : List Slot → List Slot
  | [] => []
  | slot :: rest => slot.operands ++ Slot.operandsOf rest

end

namespace Slot

variable {selector : Selector} {index : Nat} {m : PinMemory}

theorem sources?_singleton (slot : Slot) :
    sources? board ctx selector index [slot] m = slot.source? board ctx selector index m := by
  rw [sources?]
  cases slot.source? board ctx selector index m with
  | none => rfl
  | some r => simp [sources?]

/-- Slots are compiled from left to right: the second part starts with the number and the pins that
the first one leaves. -/
theorem sources?_append (as bs : List Slot) :
    sources? board ctx selector index (as ++ bs) m
      = (sources? board ctx selector index as m).bind fun r =>
          (sources? board ctx selector (index + r.1.length) bs r.2).map fun r' =>
          (r.1 ++ r'.1, r'.2) := by
  induction as generalizing index m with
  | nil =>
    rw [List.nil_append, sources?, Option.bind_some]
    cases sources? board ctx selector (index + ([] : List Operand).length) bs m <;> rfl
  | cons slot as ih =>
    rw [List.cons_append, sources?, sources?]
    cases slot.source? board ctx selector index m with
    | none => rfl
    | some r =>
      rw [Option.bind_some, Option.bind_some]
      dsimp only
      rw [ih]
      cases sources? board ctx selector (index + r.1.length) as r.2 with
      | none => rfl
      | some r' =>
        simp only [Option.bind_some, Option.map_some, List.length_append, ← Nat.add_assoc]
        cases sources? board ctx selector (index + r.1.length + r'.1.length) bs r'.2 with
        | none => rfl
        | some r'' => simp

end Slot

mutual

/-- An expandable slot is compiled as if what was dropped into it stood in slots of its own. -/
theorem Slot.sources?_operands (selector : Selector) :
    ∀ (slot : Slot) (index : Nat) (m : PinMemory),
    Slot.sources? board ctx selector index slot.operands m = slot.source? board ctx selector index m
  | .literal text, _, _ => Slot.sources?_singleton (.literal text)
  | .upvar name, _, _ => Slot.sources?_singleton (.upvar name)
  | .script body, _, _ => Slot.sources?_singleton (.script body)
  | .reporter block, _, _ => Slot.sources?_singleton (.reporter block)
  | .variadic slots, index, m => by
    rw [Slot.operands, Slot.source?]
    exact Slot.sources?_operandsOf selector slots index m

theorem Slot.sources?_operandsOf (selector : Selector) :
    ∀ (slots : List Slot) (index : Nat) (m : PinMemory),
    Slot.sources? board ctx selector index (Slot.operandsOf slots) m
      = Slot.sources? board ctx selector index slots m
  | [], _, _ => rfl
  | slot :: rest, index, m => by
    rw [Slot.operandsOf, Slot.sources?_append, Slot.sources?_operands selector slot, Slot.sources?]
    cases slot.source? board ctx selector index m with
    | none => rfl
    | some r =>
      rw [Option.bind_some, Option.bind_some, Slot.sources?_operandsOf selector rest]

end

/-- The source of a block that is not a subscription: its operands are compiled in order, its layout
is filled with them, and the source of the chain below it follows. -/
theorem Block.exists_of_source? {name : String} {kind : BlockKind} {inputs : List Slot}
    {next : Option Block} {selector : Selector} (hname : Selector.ofName? name = some selector)
    (hsel : selector ≠ .subscribeToMqttMessage) {m m' : PinMemory} {x : String}
    (h : (Block.mk name kind inputs next).source? board ctx m = some (x, m')) :
    ∃ items ps own rest m₁ m₂,
      Slot.sources? board ctx selector 0 (Slot.operandsOf inputs) (m.forgetIf selector.yields)
        = some (items, m₁) ∧
      Layout.block board ctx ((Layout.use? board selector (items.map Operand.blank)).all
        (m₁.forgetIf selector.yields).knows) selector (items.map Operand.blank) = some ps ∧
      fill ⟨selector, items⟩ ps = some own ∧ Block.sourceBelow? board ctx next m₂
        = some (rest, m') ∧
      x = own ++ rest := by
  rw [Block.source?_of_ne hname hsel, ← Slot.sources?_operandsOf] at h
  obtain ⟨⟨items, m₁⟩, hitems, h⟩ := Option.bind_eq_some_iff.1 h
  obtain ⟨⟨own, m₂⟩, hown, h⟩ := Option.bind_eq_some_iff.1 h
  obtain ⟨⟨rest, m₃⟩, hrest, heq⟩ := Option.map_eq_some_iff.1 h
  cases heq
  obtain ⟨_, hlayout, heq⟩ := Option.map_eq_some_iff.1 hown
  cases heq
  obtain ⟨ps, hps, hfill⟩ := Option.bind_eq_some_iff.1 hlayout
  exact ⟨items, ps, own, rest, m₁, _, hitems, hps, hfill, hrest, rfl⟩

mutual

/-- The operands of a slot without their code. -/
def Slot.shapes : Slot → List Operand
  | .literal text => [.literal text]
  | .upvar name => [.name name]
  | .script _ => [.script .empty]
  | .reporter _ => [.expression .empty]
  | .variadic slots => Slot.shapesOf slots

/-- The operands of slots without their code. -/
def Slot.shapesOf : List Slot → List Operand
  | [] => []
  | slot :: rest => slot.shapes ++ Slot.shapesOf rest

end

mutual

/-- What an operand is apart from its code can be seen on its slot. -/
theorem Slot.map_blank_of_source? :
    ∀ (slot : Slot) {ctx : Context} {selector : Selector} {index : Nat}
    {m m' : PinMemory} {items : List Operand},
    slot.source? board ctx selector index m = some (items, m') →
    items.map Operand.blank = slot.shapes
  | .literal _, _, _, _, _, _, _, h => by
    cases h
    rfl
  | .upvar _, _, _, _, _, _, _, h => by
    cases h
    rfl
  | .script _, _, _, _, _, _, _, h => by
    obtain ⟨_, -, heq⟩ := Option.map_eq_some_iff.1 h
    cases heq
    rfl
  | .reporter _, _, _, _, _, _, _, h => by
    obtain ⟨_, -, heq⟩ := Option.map_eq_some_iff.1 h
    cases heq
    rfl
  | .variadic slots, _, _, _, _, _, _, h => Slot.map_blank_of_sources? slots h

theorem Slot.map_blank_of_sources? : ∀ (slots : List Slot) {ctx : Context} {selector : Selector}
    {index : Nat} {m m' : PinMemory} {items : List Operand},
    Slot.sources? board ctx selector index slots m = some (items, m') →
      items.map Operand.blank = Slot.shapesOf slots
  | [], _, _, _, _, _, _, h => by
    cases h
    rfl
  | slot :: rest, _, _, _, _, _, _, h => by
    rw [Slot.sources?] at h
    obtain ⟨⟨first, m₁⟩, hfirst, h⟩ := Option.bind_eq_some_iff.1 h
    obtain ⟨⟨others, m₂⟩, hothers, heq⟩ := Option.map_eq_some_iff.1 h
    cases heq
    rw [List.map_append, Slot.map_blank_of_source? slot hfirst,
      Slot.map_blank_of_sources? rest hothers,
      Slot.shapesOf]

end

end BlockLink
