import BlockLink.Proofs.Lua.Pause
import BlockLink.Proofs.Pins.Change

/-!
# `BlockLink/Proofs/Compile/Yields.lean` — where scripts yield

A script that never yields keeps every other script of the board from running, and a callback that
yields is an error on the board. Scripts yield in their loops and in the blocks that wait, and only
if the context says that they may.

Without yield points the source of a script is clear (`Block.clear_of_source?`, by the recursion of
the compiler from the silence of every layout), so the call only stands in it if it was typed in.
With yield points the source of a loop ends with one, and it stands as a whole in the source of
every script that reaches the loop (`Block.Reaches.within`).
-/

set_option autoImplicit false

namespace BlockLink

open Operands Lua

/-! ## What was typed in

The texts that come from outside the palette: those that the user typed into the slots of the
script, and those that the board has for its broker and its pins. -/

mutual

/-- The texts that were typed into a block and the chain below it. -/
def Block.texts : Block → List String
  | .mk _ _ inputs next => Slot.textsOf inputs ++ Block.textsBelow next

/-- The texts that were typed into the chain that starts at a block, if there is one. -/
def Block.textsBelow : Option Block → List String
  | none => []
  | some b => b.texts

/-- The texts that were typed into a slot and the blocks in it. -/
def Slot.texts : Slot → List String
  | .literal text => [text]
  | .upvar name => [name]
  | .script body => Block.textsBelow body
  | .reporter block => block.texts
  | .variadic slots => Slot.textsOf slots

/-- The texts that were typed into slots. -/
def Slot.textsOf : List Slot → List String
  | [] => []
  | slot :: rest => slot.texts ++ Slot.textsOf rest

end

/-- The texts by which the broker is reached. -/
def Board.brokerTexts (board : Board) : List String :=
  board.broker.elim [] fun broker => [broker.url, broker.deviceId, broker.username, broker.password]

/-- The names that the board has for its pins in any mode. -/
def Board.pinNames (board : Board) : List String :=
  board.pinout.elim [] fun pinout =>
    [PinMode.output, .input, .pwm, .analog].flatMap fun mode => (pinout.table mode).values

variable {board : Board} {ctx : Context}

theorem Board.mem_pinNames {pinout : Pinout} (hpinout : board.pinout = some pinout) {mode : PinMode}
    {e : Pin × String} (he : e ∈ (pinout.table mode).entries) : e.2 ∈ board.pinNames := by
  have hmode : mode ∈ [PinMode.output, .input, .pwm, .analog] := by cases mode <;> decide
  unfold Board.pinNames
  rw [hpinout]
  exact List.mem_flatMap.2 ⟨mode, hmode, List.mem_map_of_mem he⟩

/-- A name that a pin is resolved to is one that the board has. -/
theorem Board.mem_pinNames_of_pinNamed? {mode : PinMode} {text : String} {pin : Pin} {name : String}
    (h : board.pinNamed? mode text = some (pin, name)) : name ∈ board.pinNames := by
  unfold Board.pinNamed? at h
  split at h
  · cases h
  · rename_i pinout hpinout
    split at h
    · cases h
    · obtain ⟨_, hget, heq⟩ := Option.map_eq_some_iff.1 h
      cases heq
      obtain ⟨_, hmem⟩ := SortedMap.exists_mem_of_lookup hget
      exact Board.mem_pinNames hpinout hmem

/-- A board that is accepted has only words and points in its names, so no bracket behind one of
them completes a call. -/
theorem Board.calm_pinNames (hcheck : board.check = .ok board) {name : String}
    (hname : name ∈ board.pinNames) : Calm (name ++ ")") := by
  unfold Board.pinNames at hname
  cases hpinout : board.pinout with
  | none =>
    rw [hpinout] at hname
    exact absurd hname List.not_mem_nil
  | some pinout =>
    rw [hpinout] at hname
    obtain ⟨mode, -, hname⟩ := List.mem_flatMap.1 hname
    obtain ⟨e, he, rfl⟩ := List.mem_map.1 hname
    refine calm_close_of_forall_ne fun c hc => ?_
    rintro rfl
    rcases Board.isNameChar_or_point hcheck hpinout he hc with hletter | hpoint
    · exact absurd hletter (by decide)
    · exact absurd hpoint (by decide)

/-- The texts of the board that layouts write are its pin names and the texts of its broker. -/
theorem Layout.boardCalm (hnames : ∀ name ∈ board.pinNames, Calm (name ++ ")"))
    (hbroker : ∀ t ∈ board.brokerTexts, Calm t) : BoardCalm board where
  pinName := fun hnamed => hnames _ (Board.mem_pinNames_of_pinNamed? hnamed)
  broker := by
    intro broker h
    unfold Board.brokerTexts at hbroker
    rw [h] at hbroker
    exact ⟨hbroker _ (by simp), hbroker _ (by simp), hbroker _ (by simp), hbroker _ (by simp)⟩

/-! ## Scripts without yield points

The induction follows the recursion of `Block.source?`. Its invariant is that the source so far is
clear, which means that neither the call nor a beginning of it at the end can be found in it. -/

/-- One block: its layout is silent without yield points, so the call could only come out of an
operand. -/
theorem Layout.clear_of_outcome? (hboard : BoardCalm board) {selector : Selector}
    {items : List Operand} (hitems : ∀ x ∈ items, x.Calm) {unit : UnitRef} {m m' : PinMemory}
    {own : String} (h : outcome? board ⟨unit, false⟩ ⟨selector, items⟩ m = some (own, m')) :
    Clear own := by
  obtain ⟨_, hown, heq⟩ := Option.map_eq_some_iff.1 h
  cases heq
  obtain ⟨ps, hps, hfill⟩ := Option.bind_eq_some_iff.1 hown
  have hshapes : ∀ x ∈ items.map Operand.blank, x.Calm := by
    intro x hx
    obtain ⟨y, hy, rfl⟩ := List.mem_map.1 hx
    exact (hitems y hy).blank
  exact clear_fill hitems (silent_block hboard hshapes unit hps) hfill

mutual

/-- Without yield points the source of a script into which the call was not typed is clear. -/
theorem Block.clear_of_source? (hboard : Layout.BoardCalm board) : ∀ (b : Block) {unit : UnitRef}
    {m m' : PinMemory} {x : String}, (∀ t ∈ b.texts, Calm t) →
    b.source? board ⟨unit, false⟩ m = some (x, m') → Clear x
  | .mk name kind inputs next, unit, m, m', x, htexts, h => by
    rw [Block.texts] at htexts
    have hinputs : ∀ t ∈ Slot.textsOf inputs, Calm t := fun t ht =>
      htexts t (List.mem_append_left _ ht)
    have hnext : ∀ t ∈ Block.textsBelow next, Calm t := fun t ht =>
      htexts t (List.mem_append_right _ ht)
    obtain ⟨selector, hname⟩ := Block.exists_ofName?_of_source? h
    by_cases hsel : selector = .subscribeToMqttMessage
    -- The callback of a subscription is an operand of its layout, behind those from the slots.
    · subst hsel
      rw [Block.source?_subscribe hname] at h
      obtain ⟨⟨items, m₁⟩, hitems, h⟩ := Option.bind_eq_some_iff.1 h
      have hcalm := Slot.calm_of_sources? hboard inputs hinputs hitems
      cases hbroker : board.broker with
      | none =>
        rw [hbroker] at h
        cases h
        exact Clear.empty
      | some broker =>
        rw [hbroker] at h
        obtain ⟨⟨body, m₂⟩, hbody, h⟩ := Option.bind_eq_some_iff.1 h
        obtain ⟨_, hfill, heq⟩ := Option.map_eq_some_iff.1 h
        cases heq
        refine clear_fill (fun y hy => ?_) (Layout.silent_subscribe hboard hbroker _ _) hfill
        rcases List.mem_append.1 hy with hy | hy
        · exact hcalm y hy
        · rw [List.mem_singleton.1 hy]
          exact Block.clear_of_sourceBelow? hboard next hnext hbody
    · rw [Block.source?_of_ne hname hsel] at h
      obtain ⟨⟨items, m₁⟩, hitems, h⟩ := Option.bind_eq_some_iff.1 h
      obtain ⟨⟨own, m₂⟩, hown, h⟩ := Option.bind_eq_some_iff.1 h
      obtain ⟨⟨rest, m₃⟩, hrest, heq⟩ := Option.map_eq_some_iff.1 h
      cases heq
      have hcalm := Slot.calm_of_sources? hboard inputs hinputs hitems
      exact (Layout.clear_of_outcome? hboard hcalm hown).append
        (Block.clear_of_sourceBelow? hboard next hnext hrest)

theorem Block.clear_of_sourceBelow? (hboard : Layout.BoardCalm board) : ∀ (next : Option Block)
    {unit : UnitRef} {m m' : PinMemory} {x : String}, (∀ t ∈ Block.textsBelow next, Calm t) →
    Block.sourceBelow? board ⟨unit, false⟩ next m = some (x, m') → Clear x
  | none, _, _, _, _, _, h => by
    cases h
    exact Clear.empty
  | some b, _, _, _, _, htexts, h => Block.clear_of_source? hboard b htexts h

/-- What a slot contributes is either typed in or the source of a script. -/
theorem Slot.calm_of_source? (hboard : Layout.BoardCalm board) : ∀ (slot : Slot) {unit : UnitRef}
    {selector : Selector} {index : Nat} {m m' : PinMemory} {items : List Operand},
    (∀ t ∈ slot.texts, Calm t) → slot.source? board ⟨unit, false⟩ selector index m
      = some (items, m') → ∀ x ∈ items, x.Calm
  | .literal text, _, _, _, _, _, _, htexts, h => by
    cases h
    exact List.forall_mem_singleton.2 (htexts text List.mem_cons_self)
  | .upvar name, _, _, _, _, _, _, htexts, h => by
    cases h
    exact List.forall_mem_singleton.2 (htexts name List.mem_cons_self)
  | .script body, _, _, _, _, _, _, htexts, h => by
    obtain ⟨_, hbody, heq⟩ := Option.map_eq_some_iff.1 h
    cases heq
    exact List.forall_mem_singleton.2 (Block.clear_of_sourceBelow? hboard body htexts hbody)
  | .reporter block, _, _, _, _, _, _, htexts, h => by
    obtain ⟨_, hblock, heq⟩ := Option.map_eq_some_iff.1 h
    cases heq
    exact List.forall_mem_singleton.2 (Block.clear_of_source? hboard block htexts hblock)
  | .variadic slots, _, _, _, _, _, _, htexts, h => Slot.calm_of_sources? hboard slots htexts h

theorem Slot.calm_of_sources? (hboard : Layout.BoardCalm board) :
    ∀ (slots : List Slot) {unit : UnitRef}
    {selector : Selector} {index : Nat} {m m' : PinMemory} {items : List Operand},
    (∀ t ∈ Slot.textsOf slots, Calm t) →
    Slot.sources? board ⟨unit, false⟩ selector index slots m = some (items, m') →
    ∀ x ∈ items, x.Calm
  | [], _, _, _, _, _, _, _, h => by
    cases h
    exact fun _ hx => absurd hx List.not_mem_nil
  | slot :: rest, _, _, _, _, _, _, htexts, h => by
    rw [Slot.textsOf] at htexts
    rw [Slot.sources?] at h
    obtain ⟨⟨first, m₁⟩, hfirst, h⟩ := Option.bind_eq_some_iff.1 h
    obtain ⟨⟨others, m₂⟩, hothers, heq⟩ := Option.map_eq_some_iff.1 h
    cases heq
    intro x hx
    rcases List.mem_append.1 hx with hx | hx
    · exact Slot.calm_of_source? hboard slot (fun t ht => htexts t (List.mem_append_left _ ht))
        hfirst x hx
    · exact Slot.calm_of_sources? hboard rest (fun t ht => htexts t (List.mem_append_right _ ht))
        hothers x hx

end

/-! ## Subscriptions

A callback must not yield, so a subscription is compiled without yield points wherever it stands.
What is dropped into its slots is still compiled in the context of the script, which is why the
statement asks that nothing is. -/

/-- Nothing is dropped into the slot. -/
def Slot.isTyped : Slot → Bool
  | .literal _ | .upvar _ => true
  | _ => false

/-- The block is a subscription, and nothing is dropped into its slots. -/
def Block.isTypedSubscription (b : Block) : Bool :=
  Selector.ofName? b.selector == some .subscribeToMqttMessage
    && (Slot.operandsOf b.inputs).all Slot.isTyped

/-- What was typed in is taken over, whether the context has yield points or not. -/
theorem Slot.sources?_of_isTyped {slots : List Slot} (h : ∀ slot ∈ slots, slot.isTyped = true)
    (ctx ctx' : Context) (selector : Selector) (index : Nat) (m : PinMemory) :
    Slot.sources? board ctx selector index slots m = Slot.sources? board ctx' selector
      index slots m := by
  induction slots generalizing index m with
  | nil => rfl
  | cons slot slots ih =>
    have hslot : slot.source? board ctx selector index m = slot.source? board ctx'
        selector index m := by
      have htyped := h slot List.mem_cons_self
      cases slot with
      | literal | upvar => rfl
      | script | reporter | variadic => cases htyped
    rw [Slot.sources?, Slot.sources?, hslot]
    refine congrArg _ (funext fun (first, after) => ?_)
    dsimp only
    rw [ih fun s hs => h s (List.mem_cons_of_mem _ hs)]

/-- A subscription runs in a callback, so its source is the one without yield points. -/
theorem Block.source?_of_isTypedSubscription {b : Block} (h : b.isTypedSubscription = true)
    (m : PinMemory) :
    b.source? board ctx m = b.source? board ⟨ctx.unit, false⟩ m := by
  obtain ⟨name, kind, inputs, next⟩ := b
  rw [Block.isTypedSubscription, Bool.and_eq_true, beq_iff_eq, List.all_eq_true] at h
  obtain ⟨hname, htyped⟩ := h
  replace hname : Selector.ofName? name = some .subscribeToMqttMessage := hname
  replace htyped : ∀ slot ∈ Slot.operandsOf inputs, slot.isTyped = true := htyped
  have hsources : Slot.sources? board ctx .subscribeToMqttMessage 0 inputs m
      = Slot.sources? board ⟨ctx.unit, false⟩ .subscribeToMqttMessage 0 inputs m := by
    rw [← Slot.sources?_operandsOf, Slot.sources?_of_isTyped htyped ctx ⟨ctx.unit, false⟩,
      Slot.sources?_operandsOf]
  rw [Block.source?_subscribe hname, Block.source?_subscribe hname, hsources]
  rfl

/-! ## Loops

The yield point of a loop is the last thing of its body. It is found in the source of a script by
following the way from the script to the loop: along chains, and into scripts that are written into
the source of their block. -/

/-- The operands of a block that are written into it as scripts. -/
def Selector.bodies : Selector → List Nat
  | .doForever => [0]
  | .doRepeat | .doIf => [1]
  | .doIfElse => [1, 2]
  | _ => []

/-- The second block is the first one, stands below it, or in a script that is written into it, and
so on. Below a subscription everything belongs to its callback. -/
inductive Block.Reaches : Block → Block → Prop
  | here (b : Block) : Reaches b b
  | next {name : String} {kind : BlockKind} {inputs : List Slot} {next b : Block}
      (hname : Selector.ofName? name ≠ some .subscribeToMqttMessage) (h : Reaches next b) :
      Reaches (.mk name kind inputs (some next)) b
  | inside {name : String} {kind : BlockKind} {inputs : List Slot} {next : Option Block}
      {selector : Selector} {i : Nat} {body b : Block}
      (hname : Selector.ofName? name = some selector)
      (hi : i ∈ selector.bodies) (hbody : (Slot.operandsOf inputs)[i]? = some (.script (some body)))
      (h : Reaches body b) : Reaches (.mk name kind inputs next) b

/-- The code of a script in a slot, which may be left empty. -/
inductive Slot.Body (board : Board) (ctx : Context) : Slot → String → Prop
  | script {b : Block} {x : String} (h : (b.compileFrom board ctx .initial).1 = .ok x) :
      Body board ctx (.script (some b)) x
  | empty : Body board ctx (.script none) ""
  | blank : Body board ctx (.literal "") ""

/-- The code of a number in a slot. -/
inductive Slot.Count (board : Board) (ctx : Context) : Slot → String → Prop
  | literal (text : String) : Count board ctx (.literal text) (Literal.classify text).luaNumber
  | upvar (name : String) : Count board ctx (.upvar name) (variableText name)
  | reporter {b : Block} {x : String} (h : (b.compileFrom board ctx .initial).1 = .ok x) :
      Count board ctx (.reporter b) x

/-- The block is a loop with this header and the code of this body. -/
inductive Block.Loop (board : Board) (ctx : Context) : Block → String → String → Prop
  | forever {name : String} {kind : BlockKind} {inputs : List Slot}
      {next : Option Block} {slot : Slot} {body : String}
      (hname : Selector.ofName? name = some .doForever)
      (hslot : (Slot.operandsOf inputs)[0]? = some slot) (hbody : slot.Body board ctx body) :
      Loop board ctx (.mk name kind inputs next) "while true do\n" body
  | repeated {name : String} {kind : BlockKind} {inputs : List Slot} {next : Option Block}
      {number slot : Slot} {count body : String} (hname : Selector.ofName? name = some .doRepeat)
      (hnumber : (Slot.operandsOf inputs)[0]? = some number) (hcount : number.Count board ctx count)
      (hslot : (Slot.operandsOf inputs)[1]? = some slot) (hbody : slot.Body board ctx body) :
      Loop board ctx (.mk name kind inputs next) ("for i = 1, " ++ count ++ " do\n") body

/-- What is written for a piece stands in what the layout is filled to. -/
theorem Operands.exists_written?_of_mem {ops : Operands} {ps : List Piece} {p : Piece} (hp : p ∈ ps)
    {x : String} (h : ops.fill ps = some x) : ∃ a, ops.written? p = some a ∧ Within a x := by
  induction ps generalizing x with
  | nil => cases hp
  | cons q ps ih =>
    rw [fill] at h
    obtain ⟨front, hfront, h⟩ := Option.bind_eq_some_iff.1 h
    obtain ⟨rest, hrest, rfl⟩ := Option.map_eq_some_iff.1 h
    rcases List.mem_cons.1 hp with rfl | hp
    · exact ⟨front, hfront, (Within.refl front).append_right rest⟩
    · obtain ⟨a, ha, hwithin⟩ := ih hp hrest
      exact ⟨a, ha, hwithin.append_left front⟩

/-- The layouts of loops and of conditions write each of their scripts. -/
theorem Layout.script_mem_block {known : Bool} {selector : Selector} {shapes : List Operand}
    {ps : List Piece} (h : block board ctx known selector shapes = some ps) {i : Nat}
    (hi : i ∈ selector.bodies) : .script i ∈ ps := by
  cases selector with
  | doForever =>
    cases h
    rw [List.mem_singleton.1 hi]
    simp [whileLoop]
  | doRepeat | doIf =>
    cases h
    rw [List.mem_singleton.1 hi]
    simp
  | doIfElse =>
    cases h
    rcases List.mem_pair.1 hi with rfl | rfl <;> simp
  | _ => cases hi

/-- An operand that is taken as a script is the code of one, or was left empty. -/
theorem Slot.body_of_script? {slot : Slot} (hsingle : slot.isSingle = true) {selector : Selector}
    {index : Nat} {m m' : PinMemory} {x : Operand} {a : String}
    (h : slot.source? board ctx selector index m = some ([x], m')) (ha : x.script? = some a) :
    slot.Body board ctx a := by
  cases slot with
  -- A slot that was left empty arrives as an empty text. Any other text is not taken as a script.
  | literal text =>
    cases h
    replace ha : (if text = "" then some "" else none) = some a := ha
    split at ha
    · rename_i hblank
      cases ha
      rw [hblank]
      exact .blank
    · cases ha
  | upvar name =>
    cases h
    cases ha
  | script body =>
    obtain ⟨⟨code, m₁⟩, hbody, heq⟩ := Option.map_eq_some_iff.1 h
    cases heq
    cases ha
    cases body with
    | none =>
      cases hbody
      exact .empty
    -- Scripts in slots start with no known pins, as a script of its own does.
    | some b => exact .script ((Block.source?_eq_some_iff (s := .initial)).1 hbody).1
  | reporter block =>
    obtain ⟨_, -, heq⟩ := Option.map_eq_some_iff.1 h
    cases heq
    cases ha
  | variadic slots => cases hsingle

/-- An operand that is taken as a number is typed in, a variable, or the code of a reporter. -/
theorem Slot.count_of_number? {slot : Slot} (hsingle : slot.isSingle = true) {selector : Selector}
    {index : Nat} {m' : PinMemory} {x : Operand} {a : String}
    (h : slot.source? board ctx selector index .empty = some ([x], m')) (ha : x.number? = some a) :
    slot.Count board ctx a := by
  cases slot with
  | literal text =>
    cases h
    cases ha
    exact .literal text
  | upvar name =>
    cases h
    cases ha
    exact .upvar name
  | script body =>
    obtain ⟨_, -, heq⟩ := Option.map_eq_some_iff.1 h
    cases heq
    cases ha
  | reporter block =>
    obtain ⟨⟨code, m₁⟩, hblock, heq⟩ := Option.map_eq_some_iff.1 h
    cases heq
    cases ha
    exact .reporter ((Block.source?_eq_some_iff (s := .initial)).1 hblock).1
  | variadic slots => cases hsingle

/-- The block is a loop. -/
def Block.isLoop (b : Block) : Bool :=
  Selector.ofName? b.selector == some .doForever || Selector.ofName? b.selector == some .doRepeat

/-- With yield points the source of a loop starts with its header and its body, and the yield point
stands directly behind the body. -/
theorem Block.within_of_isLoop (hyields : ctx.yields = true) {b : Block} (hloop : b.isLoop = true)
    {m m' : PinMemory} {x : String} (h : b.source? board ctx m = some (x, m')) :
    ∃ header body, b.Loop board ctx header body ∧
    Within (header ++ body ++ "c.yield()\nend\n") x := by
  obtain ⟨name, kind, inputs, next⟩ := b
  have hsingle : ∀ slot ∈ Slot.operandsOf inputs, slot.isSingle = true := fun _ =>
    Slot.isSingle_of_mem_operandsOf inputs
  rw [Block.isLoop, Bool.or_eq_true, beq_iff_eq, beq_iff_eq] at hloop
  rcases hloop with hname | hname
  · replace hname : Selector.ofName? name = some .doForever := hname
    obtain ⟨items, ps, own, rest, m₁, m₂, hitems, hps, hfill, hrest, rfl⟩ :=
      Block.exists_of_source? hname (by decide) h
    obtain ⟨body, hbody, -⟩ := exists_written?_of_mem (Layout.script_mem_block hps (i := 0)
      (by decide)) hfill
    obtain ⟨operand, hoperand, hscript⟩ := Option.bind_eq_some_iff.1 hbody
    obtain ⟨slot, m₃, m₄, hslot, hsource, -⟩ :=
      Slot.exists_source?_of_getElem? hsingle hitems hoperand
    refine ⟨_, body, .forever hname hslot
      (Slot.body_of_script? (hsingle slot (List.mem_of_getElem? hslot)) hsource hscript), "", rest,
      ?_⟩
    cases hps
    simp only [Layout.whileLoop, Layout.yieldPoint, hyields, if_true, fill_cons hbody,
      fill_text, fill_nil,
      List.cons_append, List.nil_append, Option.map_some, Option.some.injEq] at hfill
    have hown : own = "while " ++ "true" ++ " do" ++ "\n" ++ body
        ++ ("c.yield()" ++ "\n" ++ "end" ++ "\n") := by
      simp [← hfill, String.append_assoc, -String.reduceAppend]
    simp [hown]
  · replace hname : Selector.ofName? name = some .doRepeat := hname
    obtain ⟨items, ps, own, rest, m₁, m₂, hitems, hps, hfill, hrest, rfl⟩ :=
      Block.exists_of_source? hname (by decide) h
    obtain ⟨body, hbody, -⟩ := exists_written?_of_mem (Layout.script_mem_block hps (i := 1)
      (by decide)) hfill
    obtain ⟨operand, hoperand, hscript⟩ := Option.bind_eq_some_iff.1 hbody
    obtain ⟨slot, m₃, m₄, hslot, hsource, -⟩ :=
      Slot.exists_source?_of_getElem? hsingle hitems hoperand
    cases hps
    obtain ⟨count, hcount, -⟩ := exists_written?_of_mem (p := .number 0) (by simp) hfill
    obtain ⟨first, hfirst, hnumber⟩ := Option.bind_eq_some_iff.1 hcount
    obtain ⟨number, m₅, m₆, hslot₀, hsource₀, hstart⟩ :=
      Slot.exists_source?_of_getElem? hsingle hitems hfirst
    -- A loop starts with nothing known, so its count is compiled as on its own.
    obtain rfl : m₅ = .empty := hstart rfl
    refine ⟨_, body, .repeated hname hslot₀
      (Slot.count_of_number? (hsingle number (List.mem_of_getElem? hslot₀)) hsource₀ hnumber) hslot
      (Slot.body_of_script? (hsingle slot (List.mem_of_getElem? hslot)) hsource hscript), "", rest,
      ?_⟩
    simp only [Layout.yieldPoint, hyields, if_true, fill_cons hcount, fill_cons hbody,
      fill_text, fill_nil,
      List.cons_append, List.nil_append, Option.map_some, Option.some.injEq] at hfill
    have hown : own = "for i = 1, " ++ count ++ (" do" ++ "\n") ++ body
        ++ ("c.yield()" ++ "\n" ++ "end" ++ "\n") := by
      simp [← hfill, String.append_assoc, -String.reduceAppend]
    simp [hown]

/-- A block that a script reaches is compiled with it, and its source stands in that of the
script. -/
theorem Block.Reaches.within {b loop : Block} (hreach : b.Reaches loop)
    {m m' : PinMemory} {x : String} (h : b.source? board ctx m = some (x, m')) :
    ∃ n n' y, loop.source? board ctx n = some (y, n') ∧ Within y x := by
  induction hreach generalizing m m' x with
  | here b => exact ⟨m, m', x, h, Within.refl x⟩
  | @next name kind inputs next b hname _ ih =>
    rw [Block.source?_eq_bind hname] at h
    obtain ⟨own, -, h⟩ := Option.bind_eq_some_iff.1 h
    obtain ⟨rest, hrest, heq⟩ := Option.map_eq_some_iff.1 h
    cases heq
    obtain ⟨n, n', y, hy, hwithin⟩ := ih hrest
    exact ⟨n, n', y, hy, hwithin.append_left own.1⟩
  | @inside name kind inputs next selector i body b hname hi hbody _ ih =>
    have hne : selector ≠ .subscribeToMqttMessage := by
      rintro rfl
      cases hi
    obtain ⟨items, ps, own, rest, _, _, hitems, hps, hfill, _, rfl⟩ :=
      Block.exists_of_source? hname hne h
    -- The script is one of the pieces of the layout, and the operand for it comes from its slot.
    obtain ⟨code, hcode, hown⟩ := exists_written?_of_mem (Layout.script_mem_block hps hi) hfill
    obtain ⟨operand, hoperand, hscript⟩ := Option.bind_eq_some_iff.1 hcode
    obtain ⟨slot, m₀, m₁, hslot, hsource, -⟩ :=
      Slot.exists_source?_of_getElem? (fun _ => Slot.isSingle_of_mem_operandsOf inputs)
        hitems hoperand
    obtain rfl := Option.some.inj (hbody.symm.trans hslot)
    obtain ⟨⟨inner, m₂⟩, hinner, heq⟩ := Option.map_eq_some_iff.1 hsource
    cases heq
    cases hscript
    obtain ⟨n, n', y, hy, hwithin⟩ := ih hinner
    exact ⟨n, n', y, hy, (hwithin.trans hown).append_right rest⟩

/-- Scripts yield where they may and have to. If the context has no yield points, and in a
subscription whatever the context, the call only stands in the source if it stands in a text that
was typed in. On a board that would not be accepted it may come from the name of a pin and the
bracket behind it. If the context has yield points, every loop that is reached without passing a
subscription stands in the source with its header, the code of its body and directly behind it the
yield point. -/
theorem yield_discipline {b : Block} {s : CompileState} {x : String}
    (hx : (b.compileFrom board ctx s).1 = .ok x) :
    (ctx.yields = false ∨ b.isTypedSubscription = true → Within "c.yield()" x →
      (∃ text ∈ b.texts ++ board.brokerTexts, Within "c.yield()" text) ∨
      (board.check ≠ .ok board ∧ ∃ name ∈ board.pinNames, Within "c.yield()" (name ++ ")"))) ∧
    (ctx.yields = true → ∀ loop, b.Reaches loop → loop.isLoop = true → ∃ header body,
      loop.Loop board ctx header body ∧ Within (header ++ body ++ "c.yield()\nend\n") x) := by
  have hsource := Block.source?_eq_some_iff.2 ⟨hx, rfl⟩
  constructor
  -- If the call stood neither in what was typed in nor in a name, the source would be clear.
  · intro hsilent hwithin
    have hplain : b.source? board ctx s.pins = b.source? board ⟨ctx.unit, false⟩ s.pins := by
      rcases hsilent with hyields | htyped
      · rw [← hyields]
      · exact Block.source?_of_isTypedSubscription htyped s.pins
    rw [hplain] at hsource
    by_contra hnone
    rw [not_or] at hnone
    have hcalm : ∀ text ∈ b.texts ++ board.brokerTexts, Calm text := fun text htext =>
      calm_iff.2 fun hcall => hnone.1 ⟨text, htext, hcall⟩
    have hnames : ∀ name ∈ board.pinNames, Calm (name ++ ")") := by
      intro name hname
      by_cases hcheck : board.check = .ok board
      · exact Board.calm_pinNames hcheck hname
      · exact calm_iff.2 fun hcall => hnone.2 ⟨hcheck, name, hname, hcall⟩
    have hboard := Layout.boardCalm hnames fun t ht => hcalm t (List.mem_append_right _ ht)
    have hclear := Block.clear_of_source? hboard b (fun t ht => hcalm t (List.mem_append_left _ ht))
      hsource
    exact calm_iff.1 hclear.calm hwithin
  · intro hyields loop hreach hloop
    obtain ⟨n, n', y, hy, hwithin⟩ := hreach.within hsource
    obtain ⟨header, body, hparts, htext⟩ := Block.within_of_isLoop hyields hloop hy
    exact ⟨header, body, hparts, htext.trans hwithin⟩

/-- A loop in a loop yields with the number of its turns in front, and the same loops behind a
subscription do not yield. -/
theorem yield_discipline_nested_loops :
    let inner : Block := .mk "doRepeat" .command [.literal "10", .script none] none
    let choice : Block :=
      .mk "doIf" .command [.reporter (.mk "reportTrue" .predicate [] none), .script (some inner)]
        none
    let outer : Block := .mk "doForever" .command [.script (some choice)] none
    let callback : Block :=
      .mk "subscribeToMQTTmessage" .hat [.literal "", .literal "c.yield("] (some outer)
    trickyBoard.check = .ok trickyBoard ∧
    (∃ x, (outer.compileFrom trickyBoard ⟨.id 4, true⟩ .initial).1 = .ok x ∧
      Within "for i = 1, 10 do\nc.yield()\nend\n" x) ∧
    ∃ x, (callback.compileFrom trickyBoard ⟨.id 4, true⟩ .initial).1 = .ok x ∧
      ¬ Within "c.yield()" x := by
  intro inner choice outer callback
  have hcheck : trickyBoard.check = .ok trickyBoard := by decide +kernel
  have hok : (outer.compileFrom trickyBoard ⟨.id 4, true⟩ .initial).1.isOk = true := by
    decide +kernel
  have hok' : (callback.compileFrom trickyBoard ⟨.id 4, true⟩ .initial).1.isOk = true := by
    decide +kernel
  refine ⟨hcheck, ?_, ?_⟩
  · obtain ⟨x, hx⟩ := Block.exists_eq_ok hok
    -- The inner loop is reached through the choice, and its text is computed from its one operand.
    have hreach : outer.Reaches inner :=
      .inside (Selector.ofName?_name .doForever) (i := 0) (by decide) rfl
        (.inside (Selector.ofName?_name .doIf) (i := 1) (by decide) rfl (.here inner))
    obtain ⟨header, body, hloop, hwithin⟩ := (yield_discipline hx).2 rfl inner hreach (by decide)
    refine ⟨x, hx, ?_⟩
    replace hloop : Block.Loop _ _ (.mk "doRepeat" .command [.literal "10", .script none] none)
      header body := hloop
    cases hloop with
    | forever hname => exact absurd hname (by decide)
    | repeated hname hnumber hcount hslot hbody =>
      cases hnumber
      cases hslot
      cases hbody
      cases hcount
      have hten : (Literal.classify "10").luaNumber = "10" := by decide +kernel
      rw [hten] at hwithin
      exact hwithin
  · obtain ⟨x, hx⟩ := Block.exists_eq_ok hok'
    refine ⟨x, hx, fun hwithin => ?_⟩
    obtain ⟨text, htext, hcall⟩ :=
      ((yield_discipline hx).1 (.inr (by decide)) hwithin).resolve_right fun h => h.1 hcheck
    -- Nothing that was typed in holds the call, only its beginning.
    have hcalm : (callback.texts ++ trickyBoard.brokerTexts).all
        (fun t => (watch 0 t.toList).isSome)
        = true := by decide +kernel
    exact calm_iff.1 (Option.isSome_iff_ne_none.1 (List.all_eq_true.1 hcalm text htext)) hcall

/-- A board that was not checked: the name of its digital output is the call itself. -/
def yieldingBoard : Board :=
  ⟨"", some { Pinout.empty with digitalOutput := ⟨[(2, "c.yield()")]⟩ }, none⟩

/-- On a board that would not be accepted a script without yield points yields, although nothing was
typed in that does. -/
theorem pin_name_yields :
    let write : Block := .mk "setPinDigital" .command [.literal "2", .literal "1"] none
    yieldingBoard.check = .error (.badPinName 2 "c.yield()") ∧
      (∀ text ∈ write.texts ++ yieldingBoard.brokerTexts, ¬ Within "c.yield()" text) ∧
      ∃ x, (write.compileFrom yieldingBoard ⟨.id 0, false⟩ .initial).1 = .ok x ∧
        Within "c.yield()" x := by
  intro write
  refine ⟨by decide +kernel, fun text htext => ?_, ?_⟩
  · have hcalm : ["2", "1"].all (fun t => (watch 0 t.toList).isSome) = true := by decide +kernel
    exact calm_iff.1 (Option.isSome_iff_ne_none.1 (List.all_eq_true.1 hcalm text htext))
  · -- The name stands in the guard first.
    refine ⟨"if cfg.p[2] ~= 0 then pio.pin.setdir(pio.OUTPUT, pio." ++ "c.yield()" ++
      (") cfg.p[2] = 0 end do local v = 1 pio.pin.setval(v, pio.c.yield()) " ++
        "print(\"pv:2:\" .. v) end\n"), by decide +kernel, _, _, rfl⟩

end BlockLink
