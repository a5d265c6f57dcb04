import BlockLink.Proofs.Compile.Run
import BlockLink.Proofs.Lua.Pattern

/-!
# `BlockLink/Proofs/Lua/Template.lean` — what each block writes leaves nothing open

Given operands that leave nothing open, the code of a statement is a script and the code of a
reporter an expression. For each template there is one pattern, which goes along it from left to
right: `.text` for a fixed text, and for an operand what is known of it. Whether the pattern comes
back to where it started is computed, and what the operands are does not matter to it.

Raw Lua is left out: it is spliced in as it is.
-/

set_option autoImplicit false

namespace BlockLink

open BlockLink.Text BlockLink.Lua

/-! ## Reading operands

The readers of operands are opened here once. Each lemma is a case distinction for properties of the
code that is read, with a premise for every way in which it can come about. -/

theorem exists_of_bind_eq_ok {α β : Type} {x : Except CompileError α}
    {f : α → Except CompileError β} {b : β} (h : x >>= f = .ok b) :
    ∃ a, x = .ok a ∧ f a = .ok b := by
  cases x with
  | error e => cases h
  | ok a => exact ⟨a, rfl, h⟩

namespace Operands

variable {ops : Operands} {i : Nat} {c : Code}

theorem getElem?_of_get {x : Operand} (h : ops.get i = .ok x) : ops.items[i]? = some x := by
  unfold Operands.get at h
  split at h
  · rename_i hget
    cases h
    exact hget
  · cases h

/-- Taken as a value, an operand is what was typed in, a variable, or the code of a reporter. A
script is not taken as one. -/
theorem value_rec {V : Code → Prop}
    (literal : ∀ s, ops.items[i]? = some (.literal s) → V (Literal.classify s).lua)
    (name : ∀ s, ops.items[i]? = some (.name s) → V (variableText s))
    (expression : ∀ d, ops.items[i]? = some (.expression d) → V d)
    (hc : ops.value i = .ok c) : V c := by
  obtain ⟨x, hx, hc⟩ := exists_of_bind_eq_ok hc
  have hget := getElem?_of_get hx
  cases x with
  | literal s =>
    cases hc
    exact literal s hget
  | name s =>
    cases hc
    exact name s hget
  | expression d =>
    cases hc
    exact expression _ hget
  | script d => cases hc

theorem number_rec {V : Code → Prop}
    (literal : ∀ s, ops.items[i]? = some (.literal s) → V (Literal.classify s).luaNumber)
    (value : ∀ v, ops.value i = .ok v → V v) (hc : ops.number i = .ok c) : V c := by
  obtain ⟨x, hx, hc⟩ := exists_of_bind_eq_ok hc
  cases x with
  | literal s =>
    cases hc
    exact literal s (getElem?_of_get hx)
  | name s | expression d | script d => exact value c hc

/-- Taken as a string, what was typed in stands in quotes, and any other value is converted. -/
theorem string_rec {V : Code → Prop}
    (literal : ∀ s, ops.items[i]? = some (.literal s) → V (quote s))
    (value : ∀ v, ops.value i = .ok v → V ("_s(" ++ v ++ ")")) (hc : ops.string i = .ok c) :
    V c := by
  obtain ⟨x, hx, hc⟩ := exists_of_bind_eq_ok hc
  cases x with
  | literal s =>
    cases hc
    exact literal s (getElem?_of_get hx)
  | name s | expression d | script d =>
    obtain ⟨v, hv, hc⟩ := exists_of_bind_eq_ok hc
    cases hc
    exact value v hv

/-- Taken as a script, an operand is the code of one, or was left empty. -/
theorem script_rec {S : Code → Prop} (empty : S .empty)
    (script : ∀ d, ops.items[i]? = some (.script d) → S d) (hc : ops.script i = .ok c) : S c := by
  obtain ⟨x, hx, hc⟩ := exists_of_bind_eq_ok hc
  cases x with
  | literal s =>
    dsimp only at hc
    split at hc
    · cases hc
      exact empty
    · cases hc
  | script d =>
    cases hc
    exact script _ (getElem?_of_get hx)
  | name s | expression d => cases hc

/-- The level of a write is a digit, or the second operand, converted. -/
theorem level_rec {V : Code → Prop}
    (literal : ∀ s, ops.items[1]? = some (.literal s) →
      V (if (Literal.classify s).isHigh then "1" else "0"))
    (value : ∀ v, ops.value 1 = .ok v → V (Template.call "_d" [v]))
    (hc : Template.level ops = .ok c) : V c := by
  obtain ⟨x, hx, hc⟩ := exists_of_bind_eq_ok hc
  cases x with
  | literal s =>
    cases hc
    exact literal s (getElem?_of_get hx)
  | name s | expression d | script d =>
    obtain ⟨v, hv, hc⟩ := exists_of_bind_eq_ok hc
    cases hc
    exact value v hv

/-- Operands that are taken in a row, one by one. -/
theorem forall₂_of_mapM {read : Nat → Except CompileError Code} {is : List Nat} {cs : List Code}
    (h : is.mapM read = .ok cs) : List.Forall₂ (fun i c => read i = .ok c) is cs := by
  induction is generalizing cs with
  | nil =>
    rw [List.mapM_nil] at h
    cases h
    exact .nil
  | cons i is ih =>
    rw [List.mapM_cons] at h
    obtain ⟨c, hc, h⟩ := exists_of_bind_eq_ok h
    obtain ⟨rest, hrest, h⟩ := exists_of_bind_eq_ok h
    cases h
    exact .cons hc (ih hrest)

/-- What holds of each operand that is taken holds of all that are taken in a row. -/
theorem forall_of_mapM {V : Code → Prop} {read : Nat → Except CompileError Code}
    (hread : ∀ i c, read i = .ok c → V c) {is : List Nat} {cs : List Code}
    (h : is.mapM read = .ok cs) : ∀ c ∈ cs, V c := by
  have hall := forall₂_of_mapM h
  clear h
  induction hall with
  | nil => exact fun c hc => absurd hc (by simp)
  | cons hc _ ih => exact List.forall_mem_cons.2 ⟨hread _ _ hc, ih⟩

end Operands

/-! ## Operands -/

/-- The code of the operand leaves nothing open. -/
def Operand.Sound : Operand → Prop
  | .literal _ | .name _ => True
  | .expression c => IsExpression c.render
  | .script c => IsScript c.render

theorem follows_variableText (name : String) :
    Follows (variableText name)
      ([Part.text ['v', 'a', 'r', 's', '[']] ++ [Part.quoted] ++ [Part.text [']']]) :=
  (Follows.text.append (follows_quote name)).append .text

theorem isExpression_variableText (name : String) : IsExpression (variableText name) :=
  isExpression_of_pattern (follows_variableText name) (by decide)

/-- Operands that leave nothing open. -/
def Operands.Sound (ops : Operands) : Prop :=
  ∀ x ∈ ops.items, x.Sound

namespace Operands.Sound

variable {ops : Operands} {i : Nat} {c : Code}

theorem value (h : ops.Sound) (hc : ops.value i = .ok c) : IsExpression c.render :=
  value_rec (V := fun c => IsExpression c.render) (fun _ _ => isExpression_lua _)
    (fun s _ => isExpression_variableText s) (fun _ hd => h _ (List.mem_of_getElem? hd)) hc

theorem number (h : ops.Sound) (hc : ops.number i = .ok c) : IsExpression c.render :=
  number_rec (V := fun c => IsExpression c.render) (fun _ _ => isExpression_luaNumber _)
    (fun _ => h.value) hc

theorem string (h : ops.Sound) (hc : ops.string i = .ok c) : IsExpression c.render := by
  refine string_rec (V := fun c => IsExpression c.render) (fun s _ => isExpression_quote s) ?_ hc
  intro v hv
  exact isExpression_of_pattern (Follows.text |>.append (h.value hv).follows |>.append .text)
    (by decide)

theorem script (h : ops.Sound) (hc : ops.script i = .ok c) : IsScript c.render :=
  script_rec (S := fun c => IsScript c.render) isScript_empty
    (fun _ hd => h _ (List.mem_of_getElem? hd)) hc

theorem valuesFrom (h : ops.Sound) {cs : List Code} (hcs : ops.valuesFrom i = .ok cs) :
    ∀ c ∈ cs, IsExpression c.render :=
  forall_of_mapM (fun _ _ => h.value) hcs

theorem strings (h : ops.Sound) {cs : List Code} (hcs : ops.strings = .ok cs) :
    ∀ c ∈ cs, IsExpression c.render :=
  forall_of_mapM (fun _ _ => h.string) hcs

end Operands.Sound

/-- Whether the block has a value. -/
def Selector.isReporter : Selector → Bool
  | .evaluate | .reifyScript | .reifyReporter | .reportSum | .reportDifference | .reportProduct
  | .reportQuotient | .reportModulus | .reportMonadic | .reportRandom | .reportLessThan
  | .reportEquals | .reportGreaterThan | .reportAnd | .reportOr | .reportNot | .reportTrue
  | .reportFalse | .reportJoinWords | .reportGetVar | .reportNewList | .reportListItem
  | .reportListLength | .reportListContainsItem | .getPinDigital | .getPinAnalog => true
  | _ => false

/-! ## Parts of templates -/

namespace Template

variable {ctx : Context}

theorem follows_wordText (n : UInt32) : Follows (wordText n) [.digits] :=
  follows_repr n.toNat

theorem isScript_yieldPoint : IsScript (yieldPoint ctx).render := by
  unfold yieldPoint
  split
  · exact isScript_of_pattern (Follows.text |>.append .text) (by decide)
  · exact isScript_empty

/-- Expressions with an operator or a comma between each two; none at all is an empty text. -/
theorem isExpression_join {between : List Char}
    (hbetween :
      isExpressionPattern ([Part.expression] ++ [Part.text between] ++ [Part.expression]) = true)
    {cs : List Code} (h : ∀ c ∈ cs, IsExpression c.render) :
    IsExpression (Code.join (String.ofList between) cs).render := by
  induction cs with
  | nil => exact ⟨.gap, rfl, rfl⟩
  | cons c cs ih =>
    have hc := h c List.mem_cons_self
    cases cs with
    | nil => exact hc
    | cons d ds =>
      have hrest := ih fun e he => h e (List.mem_cons_of_mem _ he)
      exact isExpression_of_pattern (hc.follows |>.append .text |>.append hrest.follows) hbetween

theorem isExpression_call {name : List Char} {args : List Code}
    (hname : isExpressionPattern
      ([Part.text name] ++ [Part.text ['(']] ++ [Part.expression] ++ [Part.text [')']]) = true)
    (h : ∀ c ∈ args, IsExpression c.render) :
    IsExpression (call (String.ofList name) args).render := by
  have hargs : IsExpression (Code.join ", " args).render := isExpression_join (by decide) h
  exact isExpression_of_pattern (Follows.text |>.append .text |>.append hargs.follows
    |>.append .text) hname

/-- An operator with its operands is in brackets, so it can be an operand itself. -/
theorem isExpression_binary {a b : Code} {operator : List Char}
    (hoperator : isExpressionPattern ([Part.text ['(']] ++ [Part.expression] ++ [Part.text [' ']] ++
      [Part.text operator] ++ [Part.text [' ']] ++ [Part.expression] ++ [Part.text [')']]) = true)
    (ha : IsExpression a.render) (hb : IsExpression b.render) :
    IsExpression (binary a (String.ofList operator) b).render :=
  isExpression_of_pattern (Follows.text |>.append ha.follows |>.append .text |>.append .text
    |>.append .text
    |>.append hb.follows |>.append .text) hoperator

theorem isScript_wait {seconds : Code} (h : IsExpression seconds.render) :
    IsScript (wait ctx seconds).render := by
  unfold wait
  split
  · exact isScript_of_pattern (Follows.text |>.append (Follows.text |>.append
      (Follows.text |>.append h.follows |>.append .text) |>.append .text |>.append
      (Follows.text |>.append .text |>.append .text) |>.append .text) |>.append .text) (by decide)
  · exact isScript_of_pattern (Follows.text |>.append h.follows |>.append .text) (by decide)

theorem isScript_waitUntil {condition : Code} (h : IsExpression condition.render) :
    IsScript (waitUntil ctx condition).render := by
  unfold waitUntil
  split
  · exact isScript_of_pattern (Follows.text |>.append (Follows.text |>.append h.follows)
      |>.append .text
      |>.append (Follows.text |>.append .text |>.append .text) |>.append .text |>.append .text)
      (by decide)
  · exact isScript_of_pattern (Follows.text |>.append (Follows.text |>.append h.follows)
      |>.append .text
      |>.append .text |>.append .text |>.append .text) (by decide)

theorem isExpression_newList {cs : List Code} (h : ∀ c ∈ cs, IsExpression c.render) :
    IsExpression (newList cs).render := by
  cases cs with
  | nil => exact isExpression_of_pattern .text (by decide)
  | cons c cs =>
    have hitems : IsExpression (Code.join ", " (c :: cs)).render := isExpression_join (by decide) h
    exact isExpression_of_pattern (Follows.text |>.append hitems.follows |>.append .text
      |>.append (follows_repr _) |>.append .text) (by decide)

theorem isExpression_joinWords {cs : List Code} (h : ∀ c ∈ cs, IsExpression c.render) :
    IsExpression (joinWords cs).render := by
  cases cs with
  | nil => exact isExpression_of_pattern .text (by decide)
  | cons c cs =>
    have hitems : IsExpression (Code.join " .. " (c :: cs)).render :=
      isExpression_join (by decide) h
    exact isExpression_of_pattern (Follows.text |>.append hitems.follows |>.append
      .text) (by decide)

/-- What the functions of the palette put around their operand is balanced. -/
theorem isExpression_of_monadic? {f front back : String}
    (hf : monadic? f = some (front, back)) {x : Code} (hx : IsExpression x.render) :
    IsExpression ("(" ++ Code.text front ++ x ++ Code.text back ++ ")").render := by
  -- One pattern for each line of the table.
  obtain ⟨earlier, later, htable, -⟩ := List.lookup_eq_some_iff.1 hf
  have hmem : (f, front, back) ∈ earlier ++ (f, front, back) :: later := by simp
  rw [← htable] at hmem
  simp only [List.mem_cons, Prod.mk.injEq, List.not_mem_nil, or_false] at hmem
  rcases hmem with ⟨-, rfl, rfl⟩ | ⟨-, rfl, rfl⟩ | ⟨-, rfl, rfl⟩ | ⟨-, rfl, rfl⟩ | ⟨-, rfl, rfl⟩ |
    ⟨-, rfl, rfl⟩ | ⟨-, rfl, rfl⟩ | ⟨-, rfl, rfl⟩ | ⟨-, rfl, rfl⟩ | ⟨-, rfl, rfl⟩ | ⟨-, rfl, rfl⟩ |
    ⟨-, rfl, rfl⟩ | ⟨-, rfl, rfl⟩ | ⟨-, rfl, rfl⟩
  all_goals
    exact isExpression_of_pattern (Follows.text |>.append .text |>.append hx.follows |>.append .text
      |>.append .text) (by decide)

theorem isExpression_monadic {ops : Operands} (h : ops.Sound) {c : Code}
    (hc : monadic ops = .ok c) :
    IsExpression c.render := by
  obtain ⟨x, -, hc⟩ := exists_of_bind_eq_ok hc
  cases x with
  | literal s =>
    obtain ⟨operand, hoperand, hc⟩ := exists_of_bind_eq_ok hc
    split at hc
    · rename_i hf
      cases hc
      exact isExpression_of_monadic? hf (h.number hoperand)
    · cases hc
  | name s | expression code | script code => cases hc

theorem follows_reportVariable (name : String) : Follows (reportVariable name).render
    ([Part.text [' ', 'p', 'r', 'i', 'n', 't', '(']] ++ [Part.quoted] ++
      [Part.text [' ', '.', '.', ' ', '_', 's', '(']] ++
      ([Part.text ['v', 'a', 'r', 's', '[']] ++ [Part.quoted] ++ [Part.text [']']]) ++
      [Part.text [')', ')', '\n']]) :=
  Follows.text |>.append (follows_quote _) |>.append .text |>.append (follows_variableText name)
    |>.append .text

/-! ## Pins

The name of a pin is the one part of a template that is neither fixed nor quoted, and what is asked
of it is asked of the board. -/

/-- Whatever the mode, the statements that set it are whole. -/
theorem isScript_setup {name : String} (h : IsExpression name) (pin : Pin) (mode : PinMode) :
    IsScript (setup pin name mode) := by
  cases mode with
  | output | input =>
    exact isScript_of_pattern (Follows.text |>.append h.follows |>.append .text) (by decide)
  | pwm =>
    exact isScript_of_pattern (Follows.text |>.append (follows_wordText pin) |>.append .text
      |>.append h.follows
      |>.append .text |>.append (follows_wordText pin) |>.append .text) (by decide)
  | analog =>
    exact isScript_of_pattern (Follows.text |>.append (follows_wordText pin) |>.append .text
      |>.append h.follows
      |>.append .text) (by decide)

theorem isScript_guard {setup : String} (h : IsScript setup) (pin : Pin) (mode : PinMode) :
    IsScript (Code.guard pin mode setup).render :=
  isScript_of_pattern (Follows.text |>.append (follows_wordText pin) |>.append .text |>.append
    (follows_repr _)
    |>.append .text |>.append h.follows |>.append .text |>.append (follows_wordText pin)
      |>.append .text
    |>.append (follows_repr _) |>.append .text) (by decide)

/-- The use of a pin is a call, and a statement on its own. -/
theorem isScript_operation {name : String} (h : IsExpression name) (pin : Pin) (mode : PinMode) :
    IsScript (operation pin name mode) := by
  cases mode with
  | output | input =>
    exact isScript_of_pattern (Follows.text |>.append h.follows |>.append .text) (by decide)
  | pwm | analog =>
    exact isScript_of_pattern (Follows.text |>.append (follows_wordText pin) |>.append
      .text) (by decide)

/-- A write is a block with the level in a local variable. -/
theorem isScript_writePin {name : String} (hname : IsExpression name) {guard : Option Code}
    (hguard : ∀ g ∈ guard, IsScript g.render) {level : Code}
    (hlevel : IsExpression level.render) (pin : Pin) (mode : PinMode) :
    IsScript (writePin guard pin name mode level).render := by
  have hfront : IsScript (guard.getD .empty).render := by
    cases guard with
    | none => exact isScript_empty
    | some g => exact hguard g rfl
  exact isScript_of_pattern (hfront.follows |>.append .text |>.append hlevel.follows |>.append .text
    |>.append (isScript_operation hname pin mode).follows
    |>.append (Follows.text |>.append (follows_wordText pin) |>.append .text)) (by decide)

/-- A reading is the use alone, or a function around the guard and the use that is called at
once. -/
theorem isExpression_readPin {name : String} (hname : IsExpression name) {guard : Option Code}
    (hguard : ∀ g ∈ guard, IsScript g.render) (pin : Pin) (mode : PinMode) :
    IsExpression (readPin guard pin name mode).render := by
  have hread := isScript_operation hname pin mode
  cases guard with
  | none => exact isExpression_of_pattern hread.follows (by decide)
  | some g =>
    exact isExpression_of_pattern
      (Follows.text |>.append (Follows.text |>.append (hguard g rfl).follows
      |>.append .text |>.append hread.follows |>.append .text) |>.append .text) (by decide)

end Template

/-- The names that the board has for its pins can be spliced in. -/
def Board.NamesSound (board : Board) : Prop :=
  ∀ pinout, board.pinout = some pinout →
    ∀ mode pin name, (pinout.table mode).get? pin = some name → IsExpression name

namespace Template

variable {board : Board} {ctx : Context} {s s' : CompileState} {ops : Operands}
  {items : List Operand} {c : Code}

/-- The name that an operand is resolved to is the one that the board has for the pin. -/
theorem get?_of_resolvePin {mode : PinMode} {pin : Pin} {name : String}
    (h : (resolvePin board ops mode).Gives s (some (pin, name)) s') :
    ∃ pinout, board.pinout = some pinout ∧ (pinout.table mode).get? pin = some name := by
  unfold resolvePin at h
  cases hpinout : board.pinout with
  | none => simp [hpinout] at h
  | some pinout =>
    simp only [hpinout] at h
    obtain ⟨named, t, -, h⟩ := CompileM.gives_bind.1 h
    cases named with
    | none => simp at h
    | some pin' =>
      cases hget : (pinout.table mode).get? pin' with
      | none => simp [hget] at h
      | some name' =>
        simp only [hget, CompileM.gives_pure, Option.some.injEq, Prod.mk.injEq] at h
        obtain ⟨⟨rfl, rfl⟩, -⟩ := h
        exact ⟨pinout, rfl, hget⟩

theorem isExpression_of_resolvePin (hboard : board.NamesSound) {mode : PinMode} {pin : Pin}
    {name : String} (h : (resolvePin board ops mode).Gives s (some (pin, name)) s') :
    IsExpression name := by
  obtain ⟨pinout, hpinout, hget⟩ := get?_of_resolvePin h
  exact hboard pinout hpinout mode pin name hget

/-- What is put in front of a use is the guard, or nothing. -/
theorem guard_of_requireMode {pin : Pin} {mode : PinMode} {setup : String} {guard : Option Code}
    (h : (CompileM.requireMode pin mode setup).Gives s guard s') :
    ∀ g ∈ guard, g = .guard pin mode setup := by
  obtain ⟨rfl, -⟩ := CompileM.gives_requireMode.1 h
  intro g hg
  split at hg
  · exact absurd hg (by simp)
  · cases hg
    rfl

theorem isScript_of_requireMode {pin : Pin} {mode : PinMode} {setup : String}
    (hsetup : IsScript setup) {guard : Option Code}
    (h : (CompileM.requireMode pin mode setup).Gives s guard s') :
    ∀ g ∈ guard, IsScript g.render := by
  intro g hg
  rw [guard_of_requireMode h g hg]
  exact isScript_guard hsetup pin mode

theorem isExpression_level (h : ops.Sound) (hc : level ops = .ok c) : IsExpression c.render := by
  refine Operands.level_rec (V := fun c => IsExpression c.render) ?_ ?_ hc
  · intro s _
    split
    · exact isExpression_of_pattern .text (by decide)
    · exact isExpression_of_pattern .text (by decide)
  · intro v hv
    exact isExpression_call (by decide) (by simp [h.value hv])

theorem isExpression_readBlock (hboard : board.NamesSound) {mode : PinMode}
    (hc : (readBlock board ops mode).Gives s c s') : IsExpression c.render := by
  obtain ⟨named, t, hnamed, hc⟩ := CompileM.gives_bind.1 hc
  cases named with
  | none =>
    obtain ⟨rfl, -⟩ := CompileM.gives_pure.1 hc
    exact isExpression_of_pattern .text (by decide)
  | some named =>
    obtain ⟨guard, u, hguard, hc⟩ := CompileM.gives_bind.1 hc
    obtain ⟨rfl, -⟩ := CompileM.gives_pure.1 hc
    have hname := isExpression_of_resolvePin hboard hnamed
    exact isExpression_readPin hname (isScript_of_requireMode (isScript_setup hname _ mode) hguard)
      _ mode

/-! ## Calls and messages -/

/-- A call begins with the code of its function, behind which the arguments stand in brackets. -/
theorem isExpression_callOperand (h : ops.Sound) {call? : Option Code}
    (hc : callOperand ops = .ok call?) :
    ∀ c ∈ call?, IsExpression c.render := by
  obtain ⟨x, hx, hc⟩ := exists_of_bind_eq_ok hc
  have hf := h x (List.mem_of_getElem? (Operands.getElem?_of_get hx))
  cases x with
  | expression f =>
    obtain ⟨args, hargs, hc⟩ := exists_of_bind_eq_ok hc
    cases hc
    intro c hc
    cases hc
    have hjoin : IsExpression (Code.join ", " args).render :=
      isExpression_join (by decide) (h.valuesFrom hargs)
    exact isExpression_of_pattern (IsExpression.follows hf |>.append .text |>.append hjoin.follows
      |>.append .text) (by decide)
  | literal text | name text | script code =>
    cases hc
    exact fun c hc => absurd hc (by simp)

/-- Connecting is a condition around two calls. A blank behind it ends its last word. -/
theorem isScript_connect (broker : Broker) : IsScript (broker.connect ++ " ") :=
  isScript_of_pattern (Follows.text |>.append (follows_quote _) |>.append .text |>.append
    (follows_quote _)
    |>.append .text |>.append (follows_repr _) |>.append .text |>.append (follows_quote _)
      |>.append .text
    |>.append (follows_quote _) |>.append .text |>.append .text) (by decide)

/-- Connecting ends in a word, so something that is not part of one has to follow. -/
theorem follows_connect (broker : Broker) {cs : List Char} :
    Follows (broker.connect ++ String.ofList (' ' :: cs)) ([Part.script] ++ [Part.text cs]) := by
  have hblank : String.ofList ([' '] ++ cs) = " " ++ String.ofList cs := String.ofList_append
  rw [← List.singleton_append, hblank, ← String.append_assoc]
  exact (isScript_connect broker).follows.append .text

theorem isExpression_messageFilter (h : ops.Sound) (hc : messageFilter ops = .ok c) :
    IsExpression c.render := by
  obtain ⟨x, -, hc⟩ := exists_of_bind_eq_ok hc
  have hequals : ∀ text : Code, ops.string 0 = .ok text → IsExpression ("p == " ++ text).render :=
    fun text htext =>
      isExpression_of_pattern (Follows.text |>.append (h.string htext).follows) (by decide)
  cases x with
  | literal text =>
    dsimp only at hc
    split at hc
    · cases hc
      exact isExpression_of_pattern .text (by decide)
    · obtain ⟨text, htext, hc⟩ := exists_of_bind_eq_ok hc
      cases hc
      exact hequals text htext
  | name text | expression code | script code =>
    obtain ⟨text, htext, hc⟩ := exists_of_bind_eq_ok hc
    cases hc
    exact hequals text htext

/-- The callback stands in a function with a filter around it. -/
theorem isScript_subscribe (h : ops.Sound) {broker : Broker} {body : Code}
    (hbody : IsScript body.render) (hc : subscribe broker ctx ops body = .ok c) :
    IsScript c.render := by
  obtain ⟨accepts, haccepts, hc⟩ := exists_of_bind_eq_ok hc
  obtain ⟨topic, htopic, hc⟩ := exists_of_bind_eq_ok hc
  cases hc
  have htag : ∀ tag, Follows (unitTag tag ctx.unit) [.quoted] := fun tag => follows_quote _
  have htopic := (h.string htopic).follows
  exact isScript_of_pattern (follows_connect broker |>.append (follows_quote _) |>.append .text
    |>.append htopic |>.append .text |>.append
      (Follows.text |>.append .text |>.append .text |>.append
        (Follows.text |>.append
          (Follows.text |>.append (isExpression_messageFilter h haccepts).follows
            |>.append .text |>.append
          ((Follows.text |>.append (htag _) |>.append .text) |>.append hbody.follows |>.append
            (Follows.text |>.append (htag _) |>.append .text)) |>.append .text) |>.append .text)
        |>.append .text)
    |>.append .text |>.append htopic |>.append .text) (by decide)

/-! ## Templates of the operands alone

The pattern of each template is put together in the order in which the template writes its pieces,
and `decide` scans it. -/

/-- The statements that depend on their operands alone, pattern by pattern. -/
theorem isScript_plain {selector : Selector} (hsel : selector.isReporter = false)
    (h : Operands.Sound ⟨selector, items⟩) (hc : plain ctx ⟨selector, items⟩ = .ok c) :
    IsScript c.render := by
  cases selector with
  | doWait =>
    obtain ⟨seconds, hseconds, hc⟩ := exists_of_bind_eq_ok hc
    cases hc
    exact isScript_wait (h.number hseconds)
  | doWaitUntil =>
    obtain ⟨condition, hcondition, hc⟩ := exists_of_bind_eq_ok hc
    cases hc
    exact isScript_waitUntil (h.value hcondition)
  | doForever =>
    obtain ⟨body, hbody, hc⟩ := exists_of_bind_eq_ok hc
    cases hc
    exact isScript_of_pattern (Follows.text |>.append .text |>.append .text |>.append
      (Follows.text |>.append (h.script hbody).follows |>.append isScript_yieldPoint.follows)
        |>.append .text
      |>.append .text) (by decide)
  | doRepeat =>
    obtain ⟨count, hcount, hc⟩ := exists_of_bind_eq_ok hc
    obtain ⟨body, hbody, hc⟩ := exists_of_bind_eq_ok hc
    cases hc
    exact isScript_of_pattern (Follows.text |>.append (h.number hcount).follows |>.append
      .text |>.append
      (Follows.text |>.append (h.script hbody).follows |>.append isScript_yieldPoint.follows)
        |>.append .text
      |>.append .text) (by decide)
  | doIf =>
    obtain ⟨condition, hcondition, hc⟩ := exists_of_bind_eq_ok hc
    obtain ⟨yes, hyes, hc⟩ := exists_of_bind_eq_ok hc
    cases hc
    exact isScript_of_pattern (Follows.text |>.append (h.value hcondition).follows |>.append
      .text |>.append
      (Follows.text |>.append (h.script hyes).follows) |>.append .text |>.append .text) (by decide)
  | doIfElse =>
    obtain ⟨condition, hcondition, hc⟩ := exists_of_bind_eq_ok hc
    obtain ⟨yes, hyes, hc⟩ := exists_of_bind_eq_ok hc
    obtain ⟨no, hno, hc⟩ := exists_of_bind_eq_ok hc
    cases hc
    exact isScript_of_pattern (Follows.text |>.append (h.value hcondition).follows |>.append
      .text |>.append
      (Follows.text |>.append (h.script hyes).follows) |>.append .text |>.append
      (Follows.text |>.append (h.script hno).follows) |>.append .text |>.append .text) (by decide)
  | doStopThis | doStopAll =>
    cases hc
    exact isScript_of_pattern .text (by decide)
  | doReport =>
    obtain ⟨value, hvalue, hc⟩ := exists_of_bind_eq_ok hc
    cases hc
    exact isScript_of_pattern (Follows.text |>.append (h.value hvalue).follows |>.append
      (Follows.text |>.append (follows_quote _) |>.append .text)) (by decide)
  | doSetVar =>
    obtain ⟨name, -, hc⟩ := exists_of_bind_eq_ok hc
    obtain ⟨value, hvalue, hc⟩ := exists_of_bind_eq_ok hc
    cases hc
    exact isScript_of_pattern ((follows_variableText name).append .text |>.append
      (h.value hvalue).follows
      |>.append (follows_reportVariable name)) (by decide)
  | doChangeVar =>
    obtain ⟨name, -, hc⟩ := exists_of_bind_eq_ok hc
    obtain ⟨change, hchange, hc⟩ := exists_of_bind_eq_ok hc
    cases hc
    exact isScript_of_pattern ((follows_variableText name).append .text |>.append
      (follows_variableText name)
      |>.append .text |>.append (h.number hchange).follows |>.append (follows_reportVariable name))
      (by decide)
  | addListItem | deleteListItem =>
    obtain ⟨a, ha, hc⟩ := exists_of_bind_eq_ok hc
    obtain ⟨b, hb, hc⟩ := exists_of_bind_eq_ok hc
    cases hc
    have hargs : ∀ x ∈ [a, b], IsExpression x.render := by simp [h.value ha, h.value hb]
    exact isScript_of_pattern ((isExpression_call (by decide) hargs).follows.append
      .text) (by decide)
  | insertListItem | replaceListItem =>
    obtain ⟨a, ha, hc⟩ := exists_of_bind_eq_ok hc
    obtain ⟨b, hb, hc⟩ := exists_of_bind_eq_ok hc
    obtain ⟨d, hd, hc⟩ := exists_of_bind_eq_ok hc
    cases hc
    have hargs : ∀ x ∈ [a, b, d], IsExpression x.render := by
      simp [h.value ha, h.value hb, h.value hd]
    exact isScript_of_pattern ((isExpression_call (by decide) hargs).follows.append
      .text) (by decide)
  | receiveGo | doRun | runLua | setPinDigital | setPinAnalog | subscribeToMqttMessage
  | publishMqttMessage =>
    -- These have their code from `emit`.
    cases hc
    exact isScript_empty
  | _ => exact absurd hsel (by simp [Selector.isReporter])

/-- The reporters that depend on their operands alone, pattern by pattern. -/
theorem isExpression_plain {selector : Selector} (hsel : selector.isReporter = true)
    (hemit : selector ≠ .evaluate ∧ selector ≠ .getPinDigital ∧ selector ≠ .getPinAnalog)
    (h : Operands.Sound ⟨selector, items⟩) (hc : plain ctx ⟨selector, items⟩ = .ok c) :
    IsExpression c.render := by
  cases selector with
  | reifyScript =>
    obtain ⟨body, hbody, hc⟩ := exists_of_bind_eq_ok hc
    cases hc
    exact isExpression_of_pattern (Follows.text |>.append
      (Follows.text |>.append .text |>.append .text |>.append
        (Follows.text |>.append (h.script hbody).follows) |>.append .text) |>.append
          .text) (by decide)
  | reifyReporter =>
    cases items with
    | nil =>
      cases hc
      exact isExpression_of_pattern (Follows.text |>.append
        (Follows.text |>.append .text |>.append .text |>.append .text |>.append .text)
          |>.append .text)
        (by decide)
    | cons x xs =>
      obtain ⟨value, hvalue, hc⟩ := exists_of_bind_eq_ok hc
      cases hc
      exact isExpression_of_pattern (Follows.text |>.append
        (Follows.text |>.append .text |>.append .text |>.append
          (Follows.text |>.append (h.value hvalue).follows |>.append .text) |>.append .text)
            |>.append .text)
        (by decide)
  | reportSum | reportDifference | reportProduct | reportQuotient | reportModulus =>
    obtain ⟨a, ha, hc⟩ := exists_of_bind_eq_ok hc
    obtain ⟨b, hb, hc⟩ := exists_of_bind_eq_ok hc
    cases hc
    exact isExpression_binary (by decide) (h.number ha) (h.number hb)
  | reportMonadic => exact isExpression_monadic h hc
  | reportRandom =>
    obtain ⟨a, ha, hc⟩ := exists_of_bind_eq_ok hc
    obtain ⟨b, hb, hc⟩ := exists_of_bind_eq_ok hc
    cases hc
    exact isExpression_call (by decide) (by simp [h.number ha, h.number hb])
  | reportLessThan | reportEquals | reportGreaterThan =>
    obtain ⟨a, ha, hc⟩ := exists_of_bind_eq_ok hc
    obtain ⟨b, hb, hc⟩ := exists_of_bind_eq_ok hc
    cases hc
    exact isExpression_binary (by decide) (h.value ha) (h.value hb)
  -- These may skip their second operand, so they are written apart from the other operators.
  | reportAnd | reportOr =>
    obtain ⟨a, ha, hc⟩ := exists_of_bind_eq_ok hc
    obtain ⟨b, hb, hc⟩ := exists_of_bind_eq_ok hc
    cases hc
    exact isExpression_of_pattern (Follows.text |>.append (h.value ha).follows |>.append .text
      |>.append .text |>.append .text |>.append (h.value hb).follows |>.append .text) (by decide)
  | reportNot =>
    obtain ⟨a, ha, hc⟩ := exists_of_bind_eq_ok hc
    cases hc
    exact isExpression_of_pattern (Follows.text |>.append (h.value ha).follows |>.append
      .text) (by decide)
  | reportTrue | reportFalse =>
    cases hc
    exact isExpression_of_pattern .text (by decide)
  | reportJoinWords =>
    obtain ⟨words, hwords, hc⟩ := exists_of_bind_eq_ok hc
    cases hc
    exact isExpression_joinWords (h.strings hwords)
  | reportGetVar =>
    obtain ⟨name, -, hc⟩ := exists_of_bind_eq_ok hc
    cases hc
    exact isExpression_variableText name
  | reportNewList =>
    obtain ⟨values, hvalues, hc⟩ := exists_of_bind_eq_ok hc
    cases hc
    exact isExpression_newList (h.valuesFrom hvalues)
  | reportListItem | reportListContainsItem =>
    obtain ⟨a, ha, hc⟩ := exists_of_bind_eq_ok hc
    obtain ⟨b, hb, hc⟩ := exists_of_bind_eq_ok hc
    cases hc
    exact isExpression_call (by decide) (by simp [h.value ha, h.value hb])
  | reportListLength =>
    obtain ⟨a, ha, hc⟩ := exists_of_bind_eq_ok hc
    cases hc
    exact isExpression_call (by decide) (by simp [h.value ha])
  | evaluate => exact absurd rfl hemit.1
  | getPinDigital => exact absurd rfl hemit.2.1
  | getPinAnalog => exact absurd rfl hemit.2.2
  | _ => exact absurd hsel (by simp [Selector.isReporter])

/-! ## Every block -/

/-- The code of a statement. -/
theorem isScript_emit (hboard : board.NamesSound) {selector : Selector}
    (hsel : selector.isReporter = false) (hlua : selector ≠ .runLua)
    (h : Operands.Sound ⟨selector, items⟩) (hc : (emit board ctx ⟨selector, items⟩).Gives s c s') :
    IsScript c.render := by
  cases selector with
  | receiveGo | subscribeToMqttMessage =>
    obtain ⟨rfl, -⟩ := CompileM.gives_pure.1 hc
    exact isScript_empty
  | doRun =>
    obtain ⟨-, t, -, hc⟩ := CompileM.gives_bind.1 hc
    obtain ⟨call?, u, hcall, hc⟩ := CompileM.gives_bind.1 hc
    have hcall := isExpression_callOperand h (CompileM.gives_lift.1 hcall).1
    cases call? with
    | none =>
      obtain ⟨rfl, -⟩ := CompileM.gives_pure.1 hc
      exact isScript_empty
    | some call =>
      obtain ⟨rfl, -⟩ := CompileM.gives_pure.1 hc
      exact isScript_of_pattern ((hcall call rfl).follows.append .text) (by decide)
  | runLua => exact absurd rfl hlua
  | setPinDigital =>
    obtain ⟨named, t, hnamed, hc⟩ := CompileM.gives_bind.1 hc
    cases named with
    | none =>
      obtain ⟨rfl, -⟩ := CompileM.gives_pure.1 hc
      exact isScript_empty
    | some named =>
      obtain ⟨level, u, hlevel, hc⟩ := CompileM.gives_bind.1 hc
      obtain ⟨guard, v, hguard, hc⟩ := CompileM.gives_bind.1 hc
      obtain ⟨rfl, -⟩ := CompileM.gives_pure.1 hc
      have hname := isExpression_of_resolvePin hboard hnamed
      exact isScript_writePin hname (isScript_of_requireMode (isScript_setup hname _ _) hguard)
        (isExpression_level h (CompileM.gives_lift.1 hlevel).1) _ _
  | setPinAnalog =>
    obtain ⟨named, t, hnamed, hc⟩ := CompileM.gives_bind.1 hc
    cases named with
    | none =>
      obtain ⟨rfl, -⟩ := CompileM.gives_pure.1 hc
      exact isScript_empty
    | some named =>
      obtain ⟨guard, u, hguard, hc⟩ := CompileM.gives_bind.1 hc
      obtain ⟨duty, v, hduty, hc⟩ := CompileM.gives_bind.1 hc
      obtain ⟨rfl, -⟩ := CompileM.gives_pure.1 hc
      have hname := isExpression_of_resolvePin hboard hnamed
      exact isScript_writePin hname (isScript_of_requireMode (isScript_setup hname _ _) hguard)
        (h.number (CompileM.gives_lift.1 hduty).1) _ _
  | publishMqttMessage =>
    -- Without a broker the block does nothing.
    unfold emit at hc
    cases hbroker : board.broker with
    | none =>
      simp only [hbroker] at hc
      obtain ⟨-, t, -, hc⟩ := CompileM.gives_bind.1 hc
      obtain ⟨rfl, -⟩ := CompileM.gives_pure.1 hc
      exact isScript_empty
    | some broker =>
      simp only [hbroker] at hc
      obtain ⟨topic, t, htopic, hc⟩ := CompileM.gives_bind.1 hc
      obtain ⟨message, u, hmessage, hc⟩ := CompileM.gives_bind.1 hc
      obtain ⟨rfl, -⟩ := CompileM.gives_pure.1 hc
      exact isScript_of_pattern (follows_connect broker
        |>.append (h.string (CompileM.gives_lift.1 htopic).1).follows |>.append .text
        |>.append (h.string (CompileM.gives_lift.1 hmessage).1).follows |>.append .text) (by decide)
  | doWait | doWaitUntil | doForever | doRepeat | doIf | doIfElse | doStopThis | doStopAll
  | doReport
  | doSetVar | doChangeVar | addListItem | deleteListItem | insertListItem | replaceListItem =>
    exact isScript_plain hsel h (CompileM.gives_lift.1 hc).1
  | _ => exact absurd hsel (by simp [Selector.isReporter])

/-- The code of a reporter. -/
theorem isExpression_emit (hboard : board.NamesSound) {selector : Selector}
    (hsel : selector.isReporter = true) (h : Operands.Sound ⟨selector, items⟩)
    (hc : (emit board ctx ⟨selector, items⟩).Gives s c s') : IsExpression c.render := by
  cases selector with
  | evaluate =>
    obtain ⟨-, t, -, hc⟩ := CompileM.gives_bind.1 hc
    obtain ⟨call?, u, hcall, hc⟩ := CompileM.gives_bind.1 hc
    obtain ⟨rfl, -⟩ := CompileM.gives_pure.1 hc
    have hcall := isExpression_callOperand h (CompileM.gives_lift.1 hcall).1
    cases call? with
    | none => exact isExpression_of_pattern .text (by decide)
    | some call => exact hcall call rfl
  | getPinDigital | getPinAnalog => exact isExpression_readBlock hboard hc
  | reifyScript | reifyReporter | reportSum | reportDifference | reportProduct | reportQuotient
  | reportModulus | reportMonadic | reportRandom | reportLessThan | reportEquals | reportGreaterThan
  | reportAnd | reportOr | reportNot | reportTrue | reportFalse | reportJoinWords | reportGetVar
  | reportNewList | reportListItem | reportListLength | reportListContainsItem =>
    exact isExpression_plain hsel (by decide) h (CompileM.gives_lift.1 hc).1
  | _ => exact absurd hsel (by simp [Selector.isReporter])

end Template

end BlockLink
