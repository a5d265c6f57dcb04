import BlockLink.Proofs.Lua.Structure
import BlockLink.Proofs.Pins.Change

/-!
# `BlockLink/Proofs/Lua/Opening.lean` — how statements begin

Lua goes on reading over the end of a line: a statement that begins with a bracket, behind one that
ends with a call, is a further call of what that call returns. So a statement has to begin with a
word.

Every statement does, whatever its operands are, with one exception. A run of a function begins as
the code of the function does, and a function that was made in place is in brackets. `Block.Emits`
are the statements that a chain is compiled to, each with the context and the pins that it starts
with; `statement_opens_iff` says of each of them how it begins, and `Block.opening?` reads it off a
function that is a reporter.
-/

set_option autoImplicit false

namespace BlockLink

open BlockLink.Text Operands

namespace Lua

/-- The text is empty, or begins with a letter or an underscore. -/
def opensName (s : String) : Bool :=
  s.toList.head?.all fun c => isLetter c || c == '_'

theorem opensName_append {a : String} (h : a ≠ "") (b : String) :
    opensName (a ++ b) = opensName a := by
  obtain ⟨c, cs, hcs⟩ := List.exists_cons_of_ne_nil fun hnil => h (String.toList_eq_nil_iff.1 hnil)
  unfold opensName
  rw [String.toList_append, hcs]
  rfl

theorem opensName_text (c : Char) (cs : List Char) (b : String) :
    opensName (String.ofList (c :: cs) ++ b) = (isLetter c || c == '_') := by
  unfold opensName
  rw [String.toList_append, String.toList_ofList]
  rfl

end Lua

open Lua

/-! ## Layouts

How a layout begins is seen on its first piece. For all but a few reporters this is a fixed text. -/

/-- The layout begins with a fixed text, and it is known whether that begins with a name. -/
inductive Layout.Starts (named : Bool) : List Piece → Prop
  | text {c : Char} {cs : List Char} {ps : List Piece} (h : (isLetter c || c == '_') = named) :
      Starts named (.text (String.ofList (c :: cs)) :: ps)

theorem Operands.opensName_of_starts {ops : Operands} {named : Bool} {ps : List Piece}
    (hps : Layout.Starts named ps) {x : String} (h : ops.fill ps = some x) :
    x ≠ "" ∧ opensName x = named := by
  cases hps with
  | @text c cs ps hc =>
    obtain ⟨rest, -, rfl⟩ := Option.map_eq_some_iff.1 h
    refine ⟨fun hempty => ?_, (opensName_text c cs rest).trans hc⟩
    simpa using congrArg String.toList hempty

/-- Whether the code of a reporter begins with a name, if this can be seen on its selector. -/
def Selector.opensName : Selector → Bool
  | .reportRandom | .reportTrue | .reportFalse | .reportGetVar | .reportListItem | .reportListLength
  | .reportListContainsItem => true
  | _ => false

namespace Layout

variable {board : Board} {ctx : Context} {shapes : List Operand} {ps : List Piece}

/-- A statement other than a run of a function begins with a name, if it is not empty. -/
theorem starts_of_statement {known : Bool} {selector : Selector}
    (hstatement : selector.isReporter = false) (hrun : selector ≠ .doRun)
    (h : block board ctx known selector shapes = some ps) :
    ps = [] ∨ Starts true ps := by
  -- A write of a pin sets its mode first, unless that is known, and both begin with a name.
  have hwrite : ∀ {mode : PinMode} {level : List Piece},
      (pin? board mode shapes).map (fun named => named.elim []
        fun named => writePin known named.1 named.2 mode level) = some ps → ps = [] ∨
        Starts true ps := by
    intro mode level h
    obtain ⟨named, -, rfl⟩ := Option.map_eq_some_iff.1 h
    cases named with
    | none => exact .inl rfl
    | some named => cases known <;> exact .inr (.text (by decide))
  cases selector with
  | doRun => exact absurd rfl hrun
  | setPinDigital => exact hwrite h
  | setPinAnalog => exact hwrite h
  | publishMqttMessage =>
    cases h
    cases board.broker with
    | none => exact .inl rfl
    | some broker => exact .inr (.text (by decide))
  | doSetVar | doChangeVar =>
    obtain ⟨name, -, rfl⟩ := Option.map_eq_some_iff.1 h
    exact .inr (.text (by decide))
  | doWait =>
    cases h
    split <;> exact .inr (.text (by decide))
  | receiveGo | subscribeToMqttMessage =>
    cases h
    exact .inl rfl
  | doWaitUntil | doForever | doRepeat | doIf | doIfElse | doStopThis | doStopAll | doReport
  | runLua | addListItem | deleteListItem | insertListItem | replaceListItem =>
    cases h
    exact .inr (.text (by decide))
  | _ => cases hstatement

/-- A reading begins with a name exactly if the pin is known to be in its mode, or the board has no
such pin. -/
theorem starts_of_reading {selector : Selector}
    (hsel : selector = .getPinDigital ∨ selector = .getPinAnalog) {m : PinMemory}
    (h : block board ctx ((use? board selector shapes).all m.knows) selector shapes = some ps) :
    Starts ((use? board selector shapes).all m.knows) ps := by
  have hread : ∀ {mode : PinMode}, selector.pinMode? = some mode →
      (pin? board mode shapes).map (fun named => named.elim [.text "nil"] fun named =>
        readPin ((use? board selector shapes).all m.knows) named.1 named.2 mode) = some ps →
      (mode = .input ∨ mode = .analog) → Starts ((use? board selector shapes).all m.knows) ps := by
    intro mode hmode h hreads
    obtain ⟨named, hnamed, rfl⟩ := Option.map_eq_some_iff.1 h
    cases named with
    | none =>
      -- A pin that the board does not have is written as `nil`, and nothing counts as used.
      have huse : use? board selector shapes = none := by
        rw [use?, hmode, Option.bind_some, hnamed]
        rfl
      rw [huse, Option.all_none]
      exact .text (by decide)
    | some named =>
      dsimp only [Option.elim_some]
      cases (use? board selector shapes).all m.knows with
      | false => exact .text (by decide)
      | true => rcases hreads with rfl | rfl <;> exact .text (by decide)
  rcases hsel with rfl | rfl
  · exact hread rfl h (.inl rfl)
  · exact hread rfl h (.inr rfl)

/-- Every other reporter begins with a name or not, whatever its operands are. -/
theorem starts_of_reporter {known : Bool} {selector : Selector}
    (hreporter : selector.isReporter = true) (heval : selector ≠ .evaluate)
    (hdigital : selector ≠ .getPinDigital) (hanalog : selector ≠ .getPinAnalog)
    (h : block board ctx known selector shapes = some ps) : Starts selector.opensName ps := by
  cases selector with
  | evaluate => exact absurd rfl heval
  | getPinDigital => exact absurd rfl hdigital
  | getPinAnalog => exact absurd rfl hanalog
  -- Whatever function is picked, there are brackets around its call.
  | reportMonadic =>
    cases shapes with
    | nil => cases h
    | cons x shapes =>
      cases x with
      | literal s =>
        obtain ⟨menu, -, rfl⟩ := Option.map_eq_some_iff.1 h
        exact .text (by decide)
      | name | expression | script => cases h
  | reportGetVar =>
    obtain ⟨name, -, rfl⟩ := Option.map_eq_some_iff.1 h
    exact .text (by decide)
  | reportJoinWords | reportNewList =>
    cases h
    split <;> exact .text (by decide)
  | reifyScript | reifyReporter | reportSum | reportDifference | reportProduct | reportQuotient
  | reportModulus | reportRandom | reportLessThan | reportEquals | reportGreaterThan | reportAnd
  | reportOr | reportNot | reportTrue | reportFalse | reportListItem | reportListLength
  | reportListContainsItem =>
    cases h
    exact .text (by decide)
  | _ => cases hreporter

end Layout

/-! ## Calls

What a call begins with is what the code of its function begins with, and that may again be a call.
So the recursion goes down the first slots only. -/

/-- What a call begins with, if its function is the operand: a name or not. A call of what is no
expression is left out or written as `nil`. -/
def Operand.Leads (named : Bool) : Operand → Prop
  | .expression c => c.render ≠ "" ∧ opensName c.render = named
  | _ => named = true

/-- A call begins as the code of its function does, and with a bracket if that is empty. -/
theorem Operands.opensName_call {selector : Selector} {c : Code} {items : List Operand}
    {args : List Piece} {x : String}
    (h : fill ⟨selector, .expression c :: items⟩ (.value 0 :: .text "(" :: args) = some x) :
    x ≠ "" ∧ (opensName x = true ↔ c.render ≠ "" ∧ opensName c.render = true) := by
  have hvalue : written? ⟨selector, .expression c :: items⟩ (.value 0) = some c.render := rfl
  rw [fill_cons hvalue, fill_text, Option.map_map] at h
  obtain ⟨rest, -, rfl⟩ := Option.map_eq_some_iff.1 h
  dsimp only [Function.comp_apply]
  -- A reporter may come to nothing, and then the call begins with its own bracket.
  by_cases hempty : c.render = ""
  · have hopens := opensName_text '(' [] rest
    rw [hempty, String.empty_append]
    refine ⟨fun hx => by simpa using congrArg String.toList hx, ?_⟩
    simp only [ne_eq, not_true_eq_false, false_and, iff_false, Bool.not_eq_true]
    exact hopens
  · refine ⟨fun hx => hempty (String.append_eq_empty_iff.1 hx).1, ?_⟩
    rw [opensName_append hempty]
    simp [hempty]

variable {board : Board} {ctx : Context}

mutual

/-- Whether the code of a single reporter begins with a name. A value that is computed by a call
begins as the function does. -/
def Block.opening? (board : Board) (m : PinMemory) : Block → Option Bool
  | .mk name _ inputs next =>
    if next.isSome then none
    else match Selector.ofName? name with
    | none => none
    | some selector =>
      match selector with
      | .evaluate => Slot.openingOf? board m inputs
      | .getPinDigital | .getPinAnalog =>
          some ((Layout.use? board selector (Slot.shapesOf inputs)).all
          ((Slot.pinChangeOf board selector 0 inputs).apply m).knows)
      | selector => if selector.isReporter then some selector.opensName else none

/-- Whether a call of the first operand of a slot begins with a name. -/
def Slot.opening? (board : Board) (m : PinMemory) : Slot → Option Bool
  | .literal _ | .upvar _ | .script _ => some true
  | .reporter block => block.opening? board m
  | .variadic slots => Slot.openingOf? board m slots

/-- Whether a call of the first operand of slots begins with a name. -/
def Slot.openingOf? (board : Board) (m : PinMemory) : List Slot → Option Bool
  | [] => none
  | slot :: rest =>
    if slot.shapes.isEmpty then Slot.openingOf? board m rest else slot.opening? board m

end

mutual

/-- An expandable slot with nothing in it leaves everything as it is. -/
theorem Slot.source?_of_shapes_eq_nil :
    ∀ (slot : Slot) {selector : Selector} {index : Nat} {m : PinMemory},
    slot.shapes = [] → slot.source? board ctx selector index m = some ([], m)
  | .literal _, _, _, _, h | .upvar _, _, _, _, h | .script _, _, _, _, h | .reporter _,
      _, _, _, h => by
    cases h
  | .variadic slots, _, _, _, h => Slot.sources?_of_shapesOf_eq_nil slots h

theorem Slot.sources?_of_shapesOf_eq_nil : ∀ (slots : List Slot) {selector : Selector} {index : Nat}
    {m : PinMemory}, Slot.shapesOf slots = [] →
      Slot.sources? board ctx selector index slots m = some ([], m)
  | [], _, _, _, _ => rfl
  | slot :: rest, _, _, _, h => by
    obtain ⟨hslot, hrest⟩ := List.append_eq_nil_iff.1 h
    rw [Slot.sources?, Slot.source?_of_shapes_eq_nil slot hslot, Option.bind_some]
    dsimp only
    rw [Slot.sources?_of_shapesOf_eq_nil rest hrest]
    rfl

end

/-- A value that is computed by a call begins as its function does. -/
theorem Layout.opensName_of_evaluate {known : Bool} {y : Operand} {items : List Operand}
    {ps : List Piece}
    (hps : block board ctx known .evaluate ((y :: items).map Operand.blank) = some ps) {x : String}
    (h : fill ⟨.evaluate, y :: items⟩ ps = some x) {named : Bool} (hy : y.Leads named) :
    x ≠ "" ∧ opensName x = named := by
  cases y with
  | expression c =>
    obtain ⟨hrender, hopens⟩ := hy
    cases hps
    obtain ⟨hx, hiff⟩ := opensName_call h
    refine ⟨hx, ?_⟩
    rw [Bool.eq_iff_iff, hiff, hopens]
    simp [hrender]
  | literal | name | script =>
    cases hps
    obtain rfl : named = true := hy
    exact opensName_of_starts (.text (by decide)) h

mutual

/-- The code of a single reporter is not empty, and begins as it is said to. -/
theorem Block.opensName_of_opening? : ∀ (b : Block) {m m' : PinMemory} {x : String} {named : Bool},
    b.opening? board m = some named → b.source? board ctx m = some (x, m') →
      x ≠ "" ∧ opensName x = named
  | .mk name kind inputs next, m, m', x, named, hopening, h => by
    rw [Block.opening?] at hopening
    split at hopening
    · cases hopening
    rename_i hnext
    obtain rfl : next = none := by simpa using hnext
    split at hopening
    · cases hopening
    rename_i selector hname
    have hsel : selector ≠ .subscribeToMqttMessage := by
      rintro rfl
      cases hopening
    obtain ⟨items, ps, own, rest, m₁, m₂, hitems, hps, hfill, hrest, rfl⟩ :=
      Block.exists_of_source? hname hsel h
    cases hrest
    rw [String.append_empty]
    rw [Slot.sources?_operandsOf] at hitems
    have hreading : selector = .getPinDigital ∨ selector = .getPinAnalog →
        some ((Layout.use? board selector (Slot.shapesOf inputs)).all
          ((Slot.pinChangeOf board selector 0 inputs).apply m).knows) = some named →
        own ≠ "" ∧ opensName own = named := by
      -- Whether there is a guard is decided by the pins known after all operands.
      intro hread hnamed
      have hstarts := opensName_of_starts (Layout.starts_of_reading hread hps) hfill
      have hyields : selector.yields = false := by
        rcases hread with rfl | rfl <;> rfl
      have hpins := Slot.pins_of_sources? inputs hitems
      rw [hyields] at hstarts hpins
      rw [Slot.map_blank_of_sources? inputs hitems] at hstarts
      replace hpins : m₁ = (Slot.pinChangeOf board selector 0 inputs).apply m := hpins
      rw [← Option.some.inj hnamed, ← hpins]
      exact hstarts
    split at hopening
    · obtain ⟨y, others, rfl, hy⟩ := Slot.leads_of_openingOf? inputs hopening hitems
      exact Layout.opensName_of_evaluate hps hfill hy
    · exact hreading (.inl rfl) hopening
    · exact hreading (.inr rfl) hopening
    · rename_i heval hdigital hanalog
      split at hopening
      · rename_i hreporter
        cases hopening
        exact opensName_of_starts (Layout.starts_of_reporter hreporter heval hdigital hanalog hps)
          hfill
      · cases hopening

/-- The first operand of a slot leads a call as it is said to. -/
theorem Slot.leads_of_opening? :
    ∀ (slot : Slot) {selector : Selector} {index : Nat} {m m' : PinMemory}
    {items : List Operand} {named : Bool}, slot.opening? board m = some named →
    slot.source? board ctx selector index m = some (items, m') →
      ∃ y rest, items = y :: rest ∧ y.Leads named
  | .literal _, _, _, _, _, _, _, hopening, h | .upvar _, _, _, _, _, _, _, hopening, h => by
    cases h
    cases hopening
    exact ⟨_, [], rfl, rfl⟩
  | .script _, _, _, _, _, _, _, hopening, h => by
    obtain ⟨_, -, heq⟩ := Option.map_eq_some_iff.1 h
    cases heq
    cases hopening
    exact ⟨_, [], rfl, rfl⟩
  | .reporter block, _, _, _, _, _, _, hopening, h => by
    obtain ⟨_, hblock, heq⟩ := Option.map_eq_some_iff.1 h
    cases heq
    exact ⟨_, [], rfl, Block.opensName_of_opening? block hopening hblock⟩
  | .variadic slots, _, _, _, _, _, _, hopening, h => Slot.leads_of_openingOf? slots hopening h

theorem Slot.leads_of_openingOf? : ∀ (slots : List Slot) {selector : Selector} {index : Nat}
    {m m' : PinMemory} {items : List Operand} {named : Bool},
    Slot.openingOf? board m slots = some named →
    Slot.sources? board ctx selector index slots m = some (items, m') →
      ∃ y rest, items = y :: rest ∧ y.Leads named
  | [], _, _, _, _, _, _, hopening, _ => by cases hopening
  | slot :: rest, _, _, _, _, _, _, hopening, h => by
    rw [Slot.openingOf?] at hopening
    rw [Slot.sources?] at h
    obtain ⟨⟨first, m₁⟩, hfirst, h⟩ := Option.bind_eq_some_iff.1 h
    obtain ⟨⟨others, m₂⟩, hothers, heq⟩ := Option.map_eq_some_iff.1 h
    cases heq
    split at hopening
    · rename_i hshapes
      rw [Slot.source?_of_shapes_eq_nil slot (List.isEmpty_iff.1 hshapes)] at hfirst
      cases hfirst
      exact Slot.leads_of_openingOf? rest hopening hothers
    · obtain ⟨y, more, rfl, hy⟩ := Slot.leads_of_opening? slot hopening hfirst
      exact ⟨y, more ++ others, rfl, hy⟩

end

/-! ## Statements

The compiler comes to the statements of a chain in many places. Each of them is compiled in the same
way as a chain of its own, with the pins that are known there. -/

mutual

/-- The scripts in the slots of a block, and in those of the reporters in them. -/
def Block.scripts : Block → List Block
  | .mk _ _ inputs _ => Slot.scriptsOf inputs

/-- The scripts in a slot. -/
def Slot.scripts : Slot → List Block
  | .literal _ | .upvar _ | .script none => []
  | .script (some body) => [body]
  | .reporter block => block.scripts
  | .variadic slots => Slot.scriptsOf slots

/-- The scripts in slots. -/
def Slot.scriptsOf : List Slot → List Block
  | [] => []
  | slot :: rest => slot.scripts ++ Slot.scriptsOf rest

end

/-- The block without the chain below it. A subscription is one statement with the chain in it. -/
def Block.alone : Block → Block
  | .mk name kind inputs next =>
    .mk name kind inputs (if Selector.ofName? name = some .subscribeToMqttMessage then
      next else none)

/-- Compiling a chain, the compiler comes to a statement, in a context and with pins that are known:
down the chain, into the scripts in its slots, and into the callback of a subscription. -/
inductive Block.Emits (board : Board) : Context → PinMemory → Block → Context →
    PinMemory → Block → Prop
  | here (ctx : Context) (m : PinMemory) (b : Block) : Emits board ctx m b ctx m b
  | next {ctx ctx' : Context} {m n n' : PinMemory} {name own : String} {kind : BlockKind}
      {inputs : List Slot} {next c : Block}
      (hname : Selector.ofName? name ≠ some .subscribeToMqttMessage)
      (hown : (Block.mk name kind inputs none).source? board ctx m = some (own, n))
      (h : Emits board ctx n next ctx' n' c) :
      Emits board ctx m (.mk name kind inputs (some next)) ctx' n' c
  | inside {ctx ctx' : Context} {m n' : PinMemory} {b body c : Block} (hbody : body ∈ b.scripts)
      (h : Emits board ctx .empty body ctx' n' c) : Emits board ctx m b ctx' n' c
  | callback {ctx ctx' : Context} {m n' : PinMemory} {name : String} {kind : BlockKind}
      {inputs : List Slot} {next c : Block}
      (hname : Selector.ofName? name = some .subscribeToMqttMessage)
      (hbroker : board.broker.isSome = true)
      (h : Emits board { ctx with yields := false } .empty next ctx' n' c) :
      Emits board ctx m (.mk name kind inputs (some next)) ctx' n' c

/-- The operands of a block that compiles compile. -/
theorem Block.exists_sources?_of_source? {name : String} {kind : BlockKind} {inputs : List Slot}
    {next : Option Block} {m : PinMemory} {r : String × PinMemory}
    (h : (Block.mk name kind inputs next).source? board ctx m = some r) :
    ∃ selector m₀ r', Slot.sources? board ctx selector 0 inputs m₀ = some r' := by
  obtain ⟨selector, hname⟩ := Block.exists_ofName?_of_source? h
  by_cases hsel : selector = .subscribeToMqttMessage
  · subst hsel
    rw [Block.source?_subscribe hname] at h
    obtain ⟨r', hr', -⟩ := Option.bind_eq_some_iff.1 h
    exact ⟨_, _, r', hr'⟩
  · rw [Block.source?_of_ne hname hsel] at h
    obtain ⟨r', hr', -⟩ := Option.bind_eq_some_iff.1 h
    exact ⟨_, _, r', hr'⟩

mutual

/-- The scripts in the slots of a block that compiles compile on their own. -/
theorem Block.exists_source?_of_mem_scripts : ∀ (b : Block) {body : Block} {m : PinMemory}
    {r : String × PinMemory}, body ∈ b.scripts → b.source? board ctx m = some r →
      ∃ r', body.source? board ctx .empty = some r'
  | .mk _ _ inputs _, _, _, _, hbody, h => by
    obtain ⟨_, _, _, hinputs⟩ := Block.exists_sources?_of_source? h
    exact Slot.exists_source?_of_mem_scriptsOf inputs hbody hinputs

theorem Slot.exists_source?_of_mem_scripts : ∀ (slot : Slot) {body : Block} {selector : Selector}
    {index : Nat} {m : PinMemory} {r : List Operand × PinMemory}, body ∈ slot.scripts →
    slot.source? board ctx selector index m = some r → ∃ r', body.source? board ctx .empty = some r'
  | .literal _, _, _, _, _, _, hbody, _ | .upvar _, _, _, _, _, _, hbody, _
  | .script none, _, _, _, _, _, hbody, _ => by cases hbody
  | .script (some b), _, _, _, _, _, hbody, h => by
    obtain rfl := List.mem_singleton.1 hbody
    obtain ⟨r', hr', -⟩ := Option.map_eq_some_iff.1 h
    exact ⟨r', hr'⟩
  | .reporter block, _, _, _, _, _, hbody, h => by
    obtain ⟨r', hr', -⟩ := Option.map_eq_some_iff.1 h
    exact Block.exists_source?_of_mem_scripts block hbody hr'
  | .variadic slots, _, _, _, _, _, hbody, h => Slot.exists_source?_of_mem_scriptsOf slots hbody h

theorem Slot.exists_source?_of_mem_scriptsOf :
    ∀ (slots : List Slot) {body : Block} {selector : Selector}
    {index : Nat} {m : PinMemory} {r : List Operand × PinMemory}, body ∈ Slot.scriptsOf slots →
    Slot.sources? board ctx selector index slots m = some r →
      ∃ r', body.source? board ctx .empty = some r'
  | [], _, _, _, _, _, hbody, _ => by cases hbody
  | slot :: rest, _, _, _, _, _, hbody, h => by
    rw [Slot.sources?] at h
    obtain ⟨⟨first, m₁⟩, hfirst, h⟩ := Option.bind_eq_some_iff.1 h
    obtain ⟨_, hothers, -⟩ := Option.map_eq_some_iff.1 h
    rcases List.mem_append.1 hbody with hbody | hbody
    · exact Slot.exists_source?_of_mem_scripts slot hbody hfirst
    · exact Slot.exists_source?_of_mem_scriptsOf rest hbody hothers

end

/-- If a chain compiles, every statement that the compiler comes to compiles. -/
theorem Block.Emits.exists_source? {ctx' : Context} {m n : PinMemory} {b c : Block}
    (hemits : b.Emits board ctx m ctx' n c) {r : String × PinMemory}
    (h : b.source? board ctx m = some r) :
    ∃ r', c.alone.source? board ctx' n = some r' := by
  induction hemits generalizing r with
  | here ctx m b =>
    obtain ⟨name, kind, inputs, next⟩ := b
    rw [Block.alone]
    split
    · exact ⟨r, h⟩
    · rename_i hname
      rw [Block.source?_eq_bind hname] at h
      obtain ⟨own, hown, -⟩ := Option.bind_eq_some_iff.1 h
      exact ⟨own, hown⟩
  | next hname hown _ ih =>
    rw [Block.source?_eq_bind hname, hown, Option.bind_some] at h
    obtain ⟨r', hr', -⟩ := Option.map_eq_some_iff.1 h
    exact ih hr'
  | inside hbody _ ih =>
    obtain ⟨r', hr'⟩ := Block.exists_source?_of_mem_scripts _ hbody h
    exact ih hr'
  | callback hname hbroker _ ih =>
    rw [Block.source?_subscribe hname] at h
    obtain ⟨_, -, h⟩ := Option.bind_eq_some_iff.1 h
    -- Without a broker the callback would not be compiled at all.
    obtain ⟨broker, hsome⟩ := Option.isSome_iff_exists.1 hbroker
    rw [hsome] at h
    obtain ⟨r', hr', -⟩ := Option.bind_eq_some_iff.1 h
    exact ih hr'

/-- The block is a statement. -/
def Block.isStatement (b : Block) : Bool :=
  (Selector.ofName? b.selector).any fun selector => !selector.isReporter

/-- The reporter that computes the function a block runs. -/
def Block.function? (b : Block) : Option Block :=
  if Selector.ofName? b.selector = some .doRun then
    match (Slot.operandsOf b.inputs).head? with
    | some (.reporter f) => some f
    | _ => none
  else none

/-- A run of a function is left out if there is no expression for the function, and otherwise begins
as the function does. -/
theorem Block.opensName_of_run {name : String} {kind : BlockKind} {inputs : List Slot}
    (hname : Selector.ofName? name = some .doRun) {m m' : PinMemory} {text : String}
    (h : (Block.mk name kind inputs none).source? board ctx m = some (text, m')) :
    ((Block.mk name kind inputs none).function? = none ∧ text = "") ∨
      ∃ f code n, (Block.mk name kind inputs none).function? = some f ∧
        f.source? board ctx m = some (code, n) ∧
        (opensName text = true ↔ code ≠ "" ∧ opensName code = true) := by
  have hfunction : (Block.mk name kind inputs none).function?
      = match (Slot.operandsOf inputs).head? with
        | some (.reporter f) => some f
        | _ => none := if_pos hname
  obtain ⟨items, ps, own, rest, m₁, m₂, hitems, hps, hfill, hrest, rfl⟩ :=
    Block.exists_of_source? hname (by decide) h
  cases hrest
  rw [String.append_empty, hfunction, List.head?_eq_getElem?]
  cases items with
  | nil => cases hps
  | cons y items =>
    obtain ⟨slot, m₃, m₄, hslot, hsource, hstart⟩ := Slot.exists_source?_of_getElem?
      (fun _ => Slot.isSingle_of_mem_operandsOf inputs) hitems (i := 0) (x := y) rfl
    obtain rfl : m₃ = m := hstart rfl
    have hsingle := Slot.isSingle_of_mem_operandsOf inputs (List.mem_of_getElem? hslot)
    rw [hslot]
    -- The function is a reporter, or there is no expression for it and nothing is written.
    cases slot with
    | reporter f =>
      obtain ⟨⟨code, n⟩, hcode, heq⟩ := Option.map_eq_some_iff.1 hsource
      cases heq
      cases hps
      exact .inr ⟨f, code, n, rfl, hcode, (opensName_call hfill).2⟩
    | literal | upvar =>
      cases hsource
      cases hps
      cases hfill
      exact .inl ⟨rfl, rfl⟩
    | script =>
      obtain ⟨_, -, heq⟩ := Option.map_eq_some_iff.1 hsource
      cases heq
      cases hps
      cases hfill
      exact .inl ⟨rfl, rfl⟩
    | variadic => cases hsingle

/-- A statement that is not a run of a function begins with a name, if it is not empty. -/
theorem Block.opensName_of_isStatement {b : Block} (hstatement : b.isStatement = true)
    (hrun : Selector.ofName? b.selector ≠ some .doRun) {m m' : PinMemory} {text : String}
    (h : b.alone.source? board ctx m = some (text, m')) : opensName text = true := by
  obtain ⟨name, kind, inputs, next⟩ := b
  obtain ⟨selector, hname, hselector⟩ := (Option.any_eq_true ..).1 hstatement
  replace hname : Selector.ofName? name = some selector := hname
  replace hrun : Selector.ofName? name ≠ some .doRun := hrun
  have hreporter : selector.isReporter = false := by simpa using hselector
  rw [Block.alone] at h
  by_cases hsel : selector = .subscribeToMqttMessage
  -- A subscription is written around its callback, and left out without a broker.
  · subst hsel
    rw [Block.source?_subscribe hname] at h
    obtain ⟨⟨items, m₁⟩, -, h⟩ := Option.bind_eq_some_iff.1 h
    cases hbroker : board.broker with
    | none =>
      rw [hbroker] at h
      cases h
      rfl
    | some broker =>
      rw [hbroker] at h
      obtain ⟨_, -, h⟩ := Option.bind_eq_some_iff.1 h
      obtain ⟨_, hfill, heq⟩ := Option.map_eq_some_iff.1 h
      cases heq
      exact (opensName_of_starts (.text (by decide)) hfill).2
  · rw [if_neg fun heq => hsel (Option.some.inj (hname.symm.trans heq))] at h
    obtain ⟨items, ps, own, rest, m₁, m₂, -, hps, hfill, hrest, rfl⟩ :=
      Block.exists_of_source? hname hsel h
    cases hrest
    rw [String.append_empty]
    rcases Layout.starts_of_statement hreporter (fun heq => hrun (by rw [hname, heq]))
      hps with rfl | hstarts
    · cases hfill
      rfl
    · exact (opensName_of_starts hstarts hfill).2

/-- How every statement begins that a chain is compiled to, in the chain, in the scripts in its
slots and in callbacks. It is empty or begins with a letter or an underscore, except for a run of a
function that a reporter computes: this begins with a name exactly if the code of the reporter is
not empty and does. For a single reporter the answer can be seen on the reporter. -/
theorem statement_opens_iff {b : Block} {s : CompileState} {x : String}
    (hx : (b.compileFrom board ctx s).1 = .ok x) {ctx' : Context} {n : PinMemory} {c : Block}
    (hemits : b.Emits board ctx s.pins ctx' n c) (hstatement : c.isStatement = true) :
    ∃ text, (c.alone.compileFrom board ctx' ⟨n, []⟩).1 = .ok text ∧
      (c.function? = none → opensName text = true) ∧
      ∀ f, c.function? = some f → ∃ code, (f.compileFrom board ctx' ⟨n, []⟩).1 = .ok code ∧
        (opensName text = true ↔ code ≠ "" ∧ opensName code = true) ∧
        ∀ named, f.opening? board n = some named → opensName text = named := by
  obtain ⟨⟨text, n'⟩, hsource⟩ := hemits.exists_source? (Block.source?_eq_some_iff.2 ⟨hx, rfl⟩)
  refine ⟨text, ((Block.source?_eq_some_iff (s := ⟨n, []⟩)).1 hsource).1, ?_⟩
  -- Only a run of a function can begin with anything but a word.
  by_cases hrun : Selector.ofName? c.selector = some .doRun
  · obtain ⟨name, kind, inputs, next⟩ := c
    replace hrun : Selector.ofName? name = some .doRun := hrun
    have halone : (Block.mk name kind inputs next).alone = .mk name kind inputs none := by
      rw [Block.alone, if_neg (by rw [hrun]; decide)]
    have hfunction : (Block.mk name kind inputs next).function?
        = (Block.mk name kind inputs none).function? := rfl
    rw [halone] at hsource
    rw [hfunction]
    rcases Block.opensName_of_run hrun hsource with ⟨hnone, rfl⟩ | ⟨g, code, m, hsome, hcode, hiff⟩
    · exact ⟨fun _ => rfl, fun f hf => absurd (hnone.symm.trans hf) (by simp)⟩
    · refine ⟨fun hnone => absurd (hsome.symm.trans hnone) (by simp), fun f hf => ?_⟩
      obtain rfl := Option.some.inj (hsome.symm.trans hf)
      refine ⟨code, ((Block.source?_eq_some_iff (s := ⟨n, []⟩)).1 hcode).1, hiff,
        fun named hnamed => ?_⟩
      obtain ⟨hne, hopens⟩ := Block.opensName_of_opening? g hnamed hcode
      rw [Bool.eq_iff_iff, hiff, hopens]
      simp [hne]
  · have hnone : c.function? = none := if_neg hrun
    exact ⟨fun _ => Block.opensName_of_isStatement hstatement hrun hsource,
      fun f hf => absurd (hnone.symm.trans hf) (by simp)⟩

/-- A function that is kept in a variable is run in a loop, behind a call. -/
theorem statement_opens_variable :
    let run : Block :=
      .mk "doRun" .command [.reporter (.mk "reportGetVar" .reporter [.literal "f"] none)] none
    let add : Block := .mk "addListItem" .command
      [.literal "1", .reporter (.mk "reportGetVar" .reporter [.literal "l"] none)] (some run)
    let loop : Block := .mk "doForever" .command [.script (some add)] none
    (loop.compileFrom .blank ⟨.id 0, true⟩ .initial).1.isOk = true ∧
      loop.Emits .blank ⟨.id 0, true⟩ .empty ⟨.id 0, true⟩ .empty run ∧ run.isStatement = true ∧
      ∃ text, (run.alone.compileFrom .blank ⟨.id 0, true⟩ .initial).1 = .ok text ∧
        opensName text = true := by
  intro run add loop
  have hok : (loop.compileFrom .blank ⟨.id 0, true⟩ .initial).1.isOk = true := by decide +kernel
  have hown : (Block.mk "addListItem" .command
      [.literal "1", .reporter (.mk "reportGetVar" .reporter [.literal "l"] none)] none).source?
        .blank ⟨.id 0, true⟩ .empty = some ("_la(vars[\"l\"], 1)\n", .empty) := by decide +kernel
  have hemits : loop.Emits .blank ⟨.id 0, true⟩ .empty ⟨.id 0, true⟩ .empty run :=
    .inside (List.mem_singleton.2 rfl) (.next (by decide) hown (.here _ _ run))
  refine ⟨hok, hemits, by decide, ?_⟩
  obtain ⟨x, hx⟩ := Block.exists_eq_ok hok
  obtain ⟨text, htext, -, hfunction⟩ := statement_opens_iff hx hemits (by decide)
  obtain ⟨code, -, -, hopening⟩ := hfunction (.mk "reportGetVar" .reporter [.literal "f"] none) rfl
  exact ⟨text, htext, hopening true (by decide +kernel)⟩

/-- A function that is made in place and run behind a call: its code begins with a bracket, so Lua
reads on and calls what the call in front of it returns. -/
theorem statement_opens_bracket :
    let run : Block := .mk "doRun" .command [.reporter (.mk "reifyScript" .reporter
      [.script (some (.mk "doStopThis" .command [] none))] none)] none
    let add : Block := .mk "addListItem" .command
      [.literal "1", .reporter (.mk "reportGetVar" .reporter [.literal "l"] none)] (some run)
    (add.compileFrom .blank ⟨.id 0, true⟩ .initial).1.toOption
        = some "_la(vars[\"l\"], 1)\n(function()\ndo return end\nend)()\n" ∧
      add.Emits .blank ⟨.id 0, true⟩ .empty ⟨.id 0, true⟩ .empty run ∧ run.isStatement = true ∧
      (run.alone.compileFrom .blank ⟨.id 0, true⟩ .initial).1.toOption
        = some "(function()\ndo return end\nend)()\n" ∧
      opensName "(function()\ndo return end\nend)()\n" = false := by
  intro run add
  have hown : (Block.mk "addListItem" .command
      [.literal "1", .reporter (.mk "reportGetVar" .reporter [.literal "l"] none)] none).source?
        .blank ⟨.id 0, true⟩ .empty = some ("_la(vars[\"l\"], 1)\n", .empty) := by decide +kernel
  exact ⟨by decide +kernel, .next (by decide) hown (.here _ _ run), by decide, by decide +kernel,
    by decide +kernel⟩

end BlockLink
