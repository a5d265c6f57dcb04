import BlockLink.Proofs.Compile.Run
import BlockLink.Proofs.Pins.Execution
import BlockLink.Proofs.SortedMap

/-!
# `BlockLink/Proofs/Pins/Guards.lean` — scripts with typed operands keep what is remembered

The compiler sets a pin's mode only where it does not remember that the pin is in it, and forgets
what it remembers wherever other code may have run. Here this is shown to be right for scripts that
use pins with literal operands, under waits, loops and branches nested in any way: no run of the
compiled code uses a pin in a mode that the board's table does not have for it
(`PinTree.exists_compiled`). In a chain without nesting the guards are known exactly, and none is
there that could be left out (`PinTree.exists_marks_flat`).

`PinTree` is the syntax of such scripts, `PinTree.block` the script itself. The proof follows it:
each block's code leads from a table that has what the compiler remembers in front of it to one that
has what it remembers behind it.
-/

set_option autoImplicit false

namespace BlockLink

open BlockLink.Text

/-! ## Scripts that use pins -/

/-- A block that uses a pin, with everything in it typed in. -/
inductive PinUse where
  /-- Writes a level to a pin. -/
  | write (kind : BlockKind) (analog : Bool) (pin level : String)
  /-- Reads a pin into a variable, which is typed in or bound by the block. -/
  | read (kind inner : BlockKind) (analog bound : Bool) (target pin : String)

namespace PinUse

/-- The mode in which the pin is used. -/
def mode : PinUse → PinMode
  | .write _ false _ _ => .output
  | .write _ true _ _ => .pwm
  | .read _ _ false _ _ _ => .input
  | .read _ _ true _ _ _ => .analog

/-- The pin as it was typed in. -/
def pin : PinUse → String
  | .write _ _ pin _ => pin
  | .read _ _ _ _ _ pin => pin

/-- The block, with a chain below it. -/
def block : PinUse → Option Block → Block
  | .write kind false pin level, next =>
    .mk "setPinDigital" kind [.literal pin, .literal level] next
  | .write kind true pin level, next =>
    .mk "setPinAnalog" kind [.literal pin, .literal level] next
  | .read kind inner analog bound target pin, next =>
    .mk "doSetVar" kind
      [if bound then .upvar target else .literal target,
       .reporter (.mk (if analog then "getPinAnalog" else "getPinDigital") inner
         [.literal pin] none)]
      next

end PinUse

/-- A script of blocks that use pins, of waits, and of loops and branches around such scripts. -/
inductive PinTree where
  | done
  | use (u : PinUse) (next : PinTree)
  | wait (kind : BlockKind) (seconds : String) (next : PinTree)
  | forever (kind : BlockKind) (body next : PinTree)
  | repeated (kind : BlockKind) (count : String) (body next : PinTree)
  | ifThen (kind : BlockKind) (condition : String) (yes next : PinTree)
  | ifElse (kind : BlockKind) (condition : String) (yes no next : PinTree)

namespace PinTree

/-- The chain of blocks, if there is one. -/
def block : PinTree → Option Block
  | .done => none
  | .use u next => some (u.block next.block)
  | .wait kind seconds next => some (.mk "doWait" kind [.literal seconds] next.block)
  | .forever kind body next => some (.mk "doForever" kind [.script body.block] next.block)
  | .repeated kind count body next =>
    some (.mk "doRepeat" kind [.literal count, .script body.block] next.block)
  | .ifThen kind condition yes next =>
    some (.mk "doIf" kind [.literal condition, .script yes.block] next.block)
  | .ifElse kind condition yes no next =>
    some (.mk "doIfElse" kind [.literal condition, .script yes.block, .script no.block] next.block)

/-- A chain without nesting. -/
def flat : List PinUse → PinTree
  | [] => .done
  | u :: uses => .use u (flat uses)

end PinTree

/-- The pin that a text stands for, with the board's name for it in a mode. -/
def Board.pinNamed? (board : Board) (mode : PinMode) (text : String) : Option (Pin × String) :=
  match board.pinout with
  | none => none
  | some pinout =>
    match readWord? (trim text.toList) with
    | none => none
    | some pin => ((pinout.table mode).get? pin).map fun name => (pin, name)

/-- The pin that a block uses, and how, if the board has it. -/
def PinUse.access? (board : Board) (u : PinUse) : Option (Pin × PinMode) :=
  (board.pinNamed? u.mode u.pin).map fun named => (named.1, u.mode)

/-- The pins that a script uses, in the order of its blocks. -/
def PinTree.accesses (board : Board) : PinTree → List (Pin × PinMode)
  | .done => []
  | .use u next => (u.access? board).toList ++ next.accesses board
  | .wait _ _ next => next.accesses board
  | .forever _ body next => body.accesses board ++ next.accesses board
  | .repeated _ _ body next => body.accesses board ++ next.accesses board
  | .ifThen _ _ yes next => yes.accesses board ++ next.accesses board
  | .ifElse _ _ yes no next => yes.accesses board ++ (no.accesses board ++ next.accesses board)

/-! ## Guards and uses in code -/

/-- A guard, or the use of a pin. -/
inductive PinMark where
  | guard (pin : Pin) (mode : PinMode)
  | access (pin : Pin) (mode : PinMode)
  deriving DecidableEq, Repr

/-- The pin that is used, and how. -/
def PinMark.access? : PinMark → Option (Pin × PinMode)
  | .guard _ _ => none
  | .access pin mode => some (pin, mode)

namespace Code

/-- The guards and uses of pins in code, in the order they are written. -/
def marks : Code → List PinMark
  | .text _ | .pause => []
  | .guard pin mode _ => [.guard pin mode]
  | .access pin mode _ => [.access pin mode]
  | .seq a b | .whileLoop a b | .forLoop a b | .ifThen a b | .shortCircuit a _ b =>
    a.marks ++ b.marks
  | .ifElse a b c => a.marks ++ (b.marks ++ c.marks)
  | .function _ b | .runNow b => b.marks

/-- The uses of pins in code, in the order they are written. -/
def accesses (c : Code) : List (Pin × PinMode) :=
  c.marks.filterMap PinMark.access?

@[simp]
theorem marks_text (s : String) : (Code.text s).marks = [] := rfl

@[simp]
theorem marks_empty : Code.empty.marks = [] := rfl

@[simp]
theorem marks_append (a b : Code) : (a ++ b).marks = a.marks ++ b.marks := rfl

@[simp]
theorem accesses_append (a b : Code) : (a ++ b).accesses = a.accesses ++ b.accesses :=
  List.filterMap_append

end Code

/-- What is written for a use of a pin, given the modes that are known: a guard unless the pin is
known to be in the mode, and the use itself. -/
def marksOf (known : Pin → Option PinMode) : Option (Pin × PinMode) → List PinMark
  | none => []
  | some (pin, mode) =>
    (if known pin = some mode then [] else [.guard pin mode]) ++ [.access pin mode]

/-- What is written for uses of pins in order, if a guard stands in front of exactly those whose pin
was not used before or was last used in another mode; `before` are the earlier uses, last one
first. -/
def guardMarks (before : List (Pin × PinMode)) : List (Pin × PinMode) → List PinMark
  | [] => []
  | use :: uses =>
    marksOf (fun pin => before.lookup pin) (some use) ++ guardMarks (use :: before) uses

/-! ## Tables and memory -/

/-- A pin that the table has in a mode may be remembered in it. -/
theorem PinTable.Agrees.insert {t : PinTable} {m : PinMemory} (hm : m.Sorted) (h : t.Agrees m)
    {pin : Pin} {mode : PinMode} (hpin : t pin = some mode.code) :
    t.Agrees (m.insert pin mode) := by
  intro p mode' hp
  rw [SortedMap.get?_insert hm] at hp
  by_cases hpp : p = pin
  · rw [if_pos hpp] at hp
    rw [hpp, hpin, Option.some.inj hp]
  · rw [if_neg hpp] at hp
    exact h p mode' hp

/-- Behind a guard the pin is in its mode and the others are as they were. -/
theorem PinTable.Agrees.guarded {t : PinTable} {m : PinMemory} (hm : m.Sorted) (h : t.Agrees m)
    (pin : Pin) (mode : PinMode) : (t.guarded pin mode).Agrees (m.insert pin mode) := by
  intro p mode' hp
  rw [t.guarded_apply]
  rw [SortedMap.get?_insert hm] at hp
  by_cases hpp : p = pin
  · rw [if_pos hpp] at hp ⊢
    rw [Option.some.inj hp]
  · rw [if_neg hpp] at hp ⊢
    exact h p mode' hp

namespace Code

/-- The guard that is written for a use, if one is. -/
def guard? (m : PinMemory) (pin : Pin) (mode : PinMode) (setup : String) : Option Code :=
  if m.get? pin = some mode then none else some (.guard pin mode setup)

/-- Where the pin is remembered to be in the mode, no guard is needed; otherwise the guard puts it
there. -/
theorem keeps_guard? {m : PinMemory} (hm : m.Sorted) (pin : Pin) (mode : PinMode) (setup : String) :
    ((guard? m pin mode setup).getD .empty).Keeps m (m.insert pin mode) := by
  intro t ht
  unfold guard?
  split
  · rename_i hknown
    exact ht.insert hm (ht pin mode hknown)
  · exact ht.guarded hm pin mode

theorem keeps_access {m : PinMemory} (hm : m.Sorted) (pin : Pin) (mode : PinMode) (s : String) :
    (Code.access pin mode s).Keeps (m.insert pin mode) (m.insert pin mode) := by
  intro t ht
  refine ⟨ht pin mode ?_, ht⟩
  rw [SortedMap.get?_insert hm, if_pos rfl]

theorem marks_guard? (m : PinMemory) (pin : Pin) (mode : PinMode) (setup : String) :
    ((guard? m pin mode setup).getD .empty).marks ++ [.access pin mode]
      = marksOf m.get? (some (pin, mode)) := by
  by_cases h : m.get? pin = some mode
  · simp [guard?, marksOf, h]
  · simp [guard?, marksOf, h, marks]

end Code

/-! ## One use

Every block that uses a pin looks for it, puts a guard in front if it needs one, and uses it. `Used`
is the outcome that they share. -/

section Use

variable {board : Board} {ctx : Context} {s : CompileState}

/-- What is remembered behind a use. -/
def PinMemory.using (m : PinMemory) : Option (Pin × PinMode) → PinMemory
  | none => m
  | some (pin, mode) => m.insert pin mode

theorem PinMemory.sorted_using {m : PinMemory} (hm : m.Sorted) (access : Option (Pin × PinMode)) :
    (m.using access).Sorted := by
  cases access with
  | none => exact hm
  | some access => exact hm.insert access.1 access.2

/-- The code of a use: safe where what is remembered holds, guarded unless that makes it
needless. -/
structure Used (access : Option (Pin × PinMode)) (m : PinMemory) (code : Code) : Prop where
  keeps : code.Keeps m (m.using access)
  marks : code.marks = marksOf m.get? access

theorem used_none (m : PinMemory) (text : String) : Used none m (.text text) :=
  ⟨Code.keeps_text text m, rfl⟩

theorem Used.between {access : Option (Pin × PinMode)} {m : PinMemory} {code : Code}
    (h : Used access m code) (front back : String) :
    Used access m (.text front ++ code ++ .text back) where
  keeps := ((Code.keeps_text front _).append h.keeps).append (Code.keeps_text back _)
  marks := by simp [h.marks]

theorem Used.behind {access : Option (Pin × PinMode)} {m : PinMemory} {code : Code}
    (h : Used access m code) (back : String) : Used access m (code ++ .text back) where
  keeps := h.keeps.append (Code.keeps_text back _)
  marks := by simp [h.marks]

open Code in
theorem used_writePin {m : PinMemory} (hm : m.Sorted) (pin : Pin) (name : String) (mode : PinMode)
    (level : String) :
    Used (some (pin, mode)) m
      (Template.writePin (guard? m pin mode (Template.setup pin name mode)) pin name mode level)
        where
  keeps :=
    (((((keeps_guard? hm pin mode _).append (keeps_text _ _)).append (keeps_text _ _)).append
      (keeps_text _ _)).append (keeps_access hm pin mode _)).append (keeps_text _ _)
  marks := by
    rw [← marks_guard? m pin mode (Template.setup pin name mode)]
    simp [Template.writePin, Code.marks]

open Code in
/-- Without a guard a reading is the use alone; the function around the other reading changes
nothing. -/
theorem used_readPin {m : PinMemory} (hm : m.Sorted) (pin : Pin) (name : String) (mode : PinMode) :
    Used (some (pin, mode)) m
      (Template.readPin (guard? m pin mode (Template.setup pin name mode)) pin name mode) := by
  have hguard := keeps_guard? hm pin mode (Template.setup pin name mode)
  have haccess := keeps_access hm pin mode (Template.operation pin name mode)
  constructor
  · generalize guard? m pin mode (Template.setup pin name mode) = g at hguard ⊢
    cases g with
    | none => exact fun t ht => haccess t (hguard t ht)
    | some g =>
      exact (((((keeps_text _ _).append hguard).append (keeps_text _ _)).append haccess).append
        (keeps_text _ _)).runNow
  · rw [← marks_guard? m pin mode (Template.setup pin name mode)]
    cases guard? m pin mode (Template.setup pin name mode) <;> simp [Template.readPin, Code.marks]

/-- A computation gives the code of a use, and remembers the use. -/
def CompileM.Uses (act : CompileM Code) (s : CompileState) (access : Option (Pin × PinMode)) :
    Prop :=
  ∃ own t, Used access s.pins own ∧ t.pins = s.pins.using access ∧ act.Gives s own t

namespace Template

/-- With a literal pin number a pin is found or not, whatever is remembered. -/
theorem gives_resolvePin (board : Board) (s : CompileState) (selector : Selector) (text : String)
    (more : List Operand) (mode : PinMode) :
    ∃ t, (resolvePin board ⟨selector, .literal text :: more⟩ mode).Gives s
      (board.pinNamed? mode text) t ∧ t.pins = s.pins := by
  have hpin : Operands.pin ⟨selector, .literal text :: more⟩ 0
      = .ok (readWord? (trim text.toList)) :=
    rfl
  unfold resolvePin Board.pinNamed?
  cases board.pinout with
  | none => simp
  | some pinout =>
    cases hword : readWord? (trim text.toList) with
    | none => simp [hpin, hword]
    | some pin => cases hget : (pinout.table mode).get? pin <;> simp [hpin, hword, hget]

/-- A block that looks for its pin first uses it if the board has it. -/
theorem uses_of_resolvePin {selector : Selector} {text : String} {more : List Operand}
    {mode : PinMode} {k : Option (Pin × String) → CompileM Code}
    (hnone : ∀ t, t.pins = s.pins → (k none).Uses t none)
    (hsome : ∀ pin name t, t.pins = s.pins → (k (some (pin, name))).Uses t (some (pin, mode))) :
    (resolvePin board ⟨selector, .literal text :: more⟩ mode >>= k).Uses s
      ((board.pinNamed? mode text).map fun named => (named.1, mode)) := by
  obtain ⟨t, hres, hpins⟩ := gives_resolvePin board s selector text more mode
  have hk : (k (board.pinNamed? mode text)).Uses t
      ((board.pinNamed? mode text).map fun named => (named.1, mode)) := by
    cases board.pinNamed? mode text with
    | none => exact hnone t hpins
    | some named => exact hsome named.1 named.2 t hpins
  obtain ⟨own, t', hused, hafter, hgives⟩ := hk
  rw [hpins] at hused hafter
  exact ⟨own, t', hused, hafter, CompileM.gives_bind.2 ⟨_, t, hres, hgives⟩⟩

theorem exists_level (selector : Selector) (pin level : String) :
    ∃ text, Template.level ⟨selector, [.literal pin, .literal level]⟩ = .ok (.text text) := by
  by_cases h : (Literal.classify level).isHigh
  · exact ⟨"1", by simp [Template.level, Operands.get, h]; rfl⟩
  · exact ⟨"0", by simp [Template.level, Operands.get, h]; rfl⟩

theorem uses_setPinDigital (hs : s.pins.Sorted) (pin level : String) :
    (emit board ctx ⟨.setPinDigital, [.literal pin, .literal level]⟩).Uses s
      ((board.pinNamed? .output pin).map fun named => (named.1, .output)) := by
  refine uses_of_resolvePin
    (fun t _ => ⟨_, t, used_none _ "", rfl, CompileM.gives_pure.2 ⟨rfl, rfl⟩⟩) ?_
  intro p name t hpins
  obtain ⟨text, htext⟩ := exists_level .setPinDigital pin level
  refine ⟨_, _, used_writePin (hpins ▸ hs) p name .output text, rfl, CompileM.gives_bind.2
    ⟨_, t, CompileM.gives_lift.2 ⟨htext, rfl⟩, CompileM.gives_bind.2
      ⟨_, _, CompileM.gives_requireMode.2 ⟨rfl, rfl⟩, CompileM.gives_pure.2 ⟨rfl, rfl⟩⟩⟩⟩

theorem uses_setPinAnalog (hs : s.pins.Sorted) (pin level : String) :
    (emit board ctx ⟨.setPinAnalog, [.literal pin, .literal level]⟩).Uses s
      ((board.pinNamed? .pwm pin).map fun named => (named.1, .pwm)) := by
  refine uses_of_resolvePin
    (fun t _ => ⟨_, t, used_none _ "", rfl, CompileM.gives_pure.2 ⟨rfl, rfl⟩⟩) ?_
  intro p name t hpins
  exact ⟨_, _, used_writePin (hpins ▸ hs) p name .pwm (Literal.classify level).luaNumber, rfl,
    CompileM.gives_bind.2 ⟨_, _, CompileM.gives_requireMode.2 ⟨rfl, rfl⟩, CompileM.gives_bind.2
      ⟨_, _, CompileM.gives_lift.2 ⟨rfl, rfl⟩, CompileM.gives_pure.2 ⟨rfl, rfl⟩⟩⟩⟩

theorem uses_readBlock (hs : s.pins.Sorted) (selector : Selector) (pin : String) (mode : PinMode) :
    (readBlock board ⟨selector, [.literal pin]⟩ mode).Uses s
      ((board.pinNamed? mode pin).map fun named => (named.1, mode)) := by
  refine uses_of_resolvePin (fun t _ => ⟨_, t, used_none _ "nil", rfl, CompileM.gives_pure.2
    ⟨rfl, rfl⟩⟩) ?_
  intro p name t hpins
  exact ⟨_, _, used_readPin (hpins ▸ hs) p name mode, rfl,
    CompileM.gives_bind.2 ⟨_, _, CompileM.gives_requireMode.2 ⟨rfl, rfl⟩,
    CompileM.gives_pure.2 ⟨rfl, rfl⟩⟩⟩

end Template

/-- A block that reads a literal pin, alone in a slot. -/
theorem uses_reader (hs : s.pins.Sorted) (selector : Selector) {mode : PinMode} {pin : String}
    (hemit : Template.emit board ctx ⟨selector, [.literal pin]⟩
      = Template.readBlock board ⟨selector, [.literal pin]⟩ mode)
    (hyields : selector.yields = false) (hsel : selector ≠ .subscribeToMqttMessage)
    (inner : BlockKind) :
    ((Block.mk selector.name inner [.literal pin] none).compile board ctx).Uses s
      ((board.pinNamed? mode pin).map fun named => (named.1, mode)) := by
  obtain ⟨own, t, hused, hpins, hgives⟩ : (Template.readBlock board ⟨selector, [.literal pin]⟩
      mode).Uses s _ :=
    Template.uses_readBlock hs selector pin mode
  refine ⟨own ++ .empty, t, hused.behind "", hpins, ?_⟩
  refine (Block.gives_compile (Selector.ofName?_name selector) hsel).2
    ⟨[.literal pin], s, own, t, .empty, ?_, ?_, ?_, rfl⟩
  · simp [hyields]
  · rw [hyields, hemit]
    exact hgives
  · simp

/-- Storing the value of a block that uses a pin uses it. -/
theorem gives_store {access : Option (Pin × PinMode)} {r : Block}
    (hr : (r.compile board ctx).Uses s access) (kind : BlockKind) (bound : Bool) (target : String)
    (next : Option Block) :
    ∃ own t, Used access s.pins own ∧ t.pins = s.pins.using access ∧
      ∀ rest s', (Block.compileBelow board ctx next).Gives t rest s' →
        ((Block.mk "doSetVar" kind [if bound then .upvar target else .literal target, .reporter r]
          next).compile board ctx).Gives s (own ++ rest) s' := by
  obtain ⟨value, t, hused, hpins, hgives⟩ := hr
  refine ⟨.text (variableText target ++ " = ") ++ value ++ Template.reportVariable target, t,
    hused.between _ _, hpins, fun rest s' hrest => ?_⟩
  have hslot : ((if bound then Slot.upvar target else .literal target).compile board ctx
      .doSetVar 0).Gives s
      [if bound then .name target else .literal target] s := by
    cases bound <;> simp
  refine (Block.gives_compile (Selector.ofName?_name .doSetVar) (by decide)).2
    ⟨[if bound then .name target else .literal target, .expression value], t, _, t, rest,
      ?_, ?_, hrest, rfl⟩
  · exact Slot.gives_cons.2 ⟨_, s, _, hslot, Slot.gives_cons.2 ⟨_, t, [],
      (Slot.gives_reporter rfl).2 ⟨value, hgives, rfl⟩, Slot.gives_nil.2 ⟨rfl, rfl⟩, rfl⟩, rfl⟩
  · cases bound <;> exact CompileM.gives_lift.2 ⟨rfl, rfl⟩

theorem gives_write {selector : Selector} {access : Option (Pin × PinMode)} {pin level : String}
    (hemit : (Template.emit board ctx ⟨selector, [.literal pin, .literal level]⟩).Uses s access)
    (hyields : selector.yields = false) (hsel : selector ≠ .subscribeToMqttMessage)
    (kind : BlockKind) (next : Option Block) :
    ∃ own t, Used access s.pins own ∧ t.pins = s.pins.using access ∧
      ∀ rest s', (Block.compileBelow board ctx next).Gives t rest s' →
        ((Block.mk selector.name kind [.literal pin, .literal level] next).compile board ctx).Gives
          s (own ++ rest) s' := by
  obtain ⟨own, t, hused, hpins, hgives⟩ := hemit
  refine ⟨own, t, hused, hpins, fun rest s' hrest => ?_⟩
  refine (Block.gives_compile (Selector.ofName?_name selector) hsel).2
    ⟨[.literal pin, .literal level], s, own, t, rest, ?_, ?_, hrest, rfl⟩
  · simp [hyields]
  · rw [hyields]
    exact hgives

/-- The code of a use follows on what is remembered in front of it. -/
theorem PinUse.gives_block (u : PinUse) (board : Board) (ctx : Context) (next : Option Block)
    (hs : s.pins.Sorted) :
    ∃ own t, Used (u.access? board) s.pins own ∧ t.pins = s.pins.using (u.access? board) ∧
      ∀ rest s', (Block.compileBelow board ctx next).Gives t rest s' →
        ((u.block next).compile board ctx).Gives s (own ++ rest) s' := by
  cases u with
  | write kind analog pin level =>
    cases analog with
    | false =>
      exact gives_write (Template.uses_setPinDigital hs pin level) rfl (by decide) kind next
    | true => exact gives_write (Template.uses_setPinAnalog hs pin level) rfl (by decide) kind next
  | read kind inner analog bound target pin =>
    cases analog with
    | false =>
      exact gives_store (uses_reader hs .getPinDigital rfl rfl (by decide) inner) kind bound
        target next
    | true =>
      exact gives_store (uses_reader hs .getPinAnalog rfl rfl (by decide) inner) kind bound
        target next

end Use

/-! ## Waits, loops and branches

The induction is on the tree. The code of each block leads from the memory in front of it to the one
behind it, and loops and branches start and end with the empty memory. -/

section Nesting

variable {board : Board} {ctx : Context}

open Code

/-- Behind a wait nothing is remembered, since other scripts may have run. -/
theorem keeps_wait (seconds : String) (m : PinMemory) :
    (Template.wait ctx (.text seconds)).Keeps m .empty := by
  unfold Template.wait
  cases ctx.yields with
  | false =>
    exact Keeps.forget ⟨_, ((keeps_text _ _).append (keeps_text _ _)).append (keeps_text _ _)⟩
  | true =>
    refine ((keeps_text _ m).append (Keeps.whileLoop ?_ ?_ m)).append (keeps_text _ _)
    · exact ((keeps_text _ _).append (keeps_text _ _)).append (keeps_text _ _)
    · exact ((keeps_text _ _).append (keeps_pause _)).append (keeps_text _ _)

/-- The body of a loop, with the line at its end that lets other scripts run. -/
theorem keeps_loopBody {body : Code} {m : PinMemory} (h : body.Keeps .empty m) :
    (.text "\n" ++ body ++ Template.yieldPoint ctx).Keeps .empty .empty := by
  unfold Template.yieldPoint
  cases ctx.yields with
  | false => exact Keeps.forget ⟨_, ((keeps_text _ _).append h).append (keeps_text _ _)⟩
  | true =>
    exact Keeps.forget ⟨_, ((keeps_text _ _).append h).append
      ((keeps_pause _).append (keeps_text _ _))⟩

theorem keeps_branch {body : Code} {m : PinMemory} (h : body.Keeps .empty m) :
    (.text "\n" ++ body).Keeps .empty .empty :=
  Keeps.forget ⟨_, (keeps_text _ _).append h⟩

@[simp]
theorem marks_yieldPoint : (Template.yieldPoint ctx).marks = [] := by
  unfold Template.yieldPoint
  cases ctx.yields <;> rfl

@[simp]
theorem marks_wait (seconds : String) : (Template.wait ctx (.text seconds)).marks = [] := by
  unfold Template.wait
  cases ctx.yields <;> rfl

/-- What compiling a script leaves: code that is safe after what was remembered, and uses the pins
that the script uses. -/
structure Compiled (board : Board) (tree : PinTree) (s : CompileState) (code : Code)
    (s' : CompileState) : Prop where
  sorted : s'.pins.Sorted
  keeps : code.Keeps s.pins s'.pins
  accesses : code.accesses = tree.accesses board

theorem Compiled.cons {tree next : PinTree} {s t s' : CompileState} {own rest : Code}
    (hnext : Compiled board next t rest s') (hown : own.Keeps s.pins t.pins)
    (huses : own.accesses ++ next.accesses board = tree.accesses board) :
    Compiled board tree s (own ++ rest) s' where
  sorted := hnext.sorted
  keeps := hown.append hnext.keeps
  accesses := by rw [Code.accesses_append, hnext.accesses, huses]

theorem gives_typed {selector : Selector} {index : Nat} {slots : List Slot} {items : List Operand}
    {s s' : CompileState} (text : String)
    (h : (Slot.compileList board ctx selector (index + 1) slots).Gives s items s') :
    (Slot.compileList board ctx selector index (.literal text :: slots)).Gives s
      (.literal text :: items) s' :=
  Slot.gives_cons.2 ⟨[.literal text], s, items, Slot.gives_literal.2 ⟨rfl, rfl⟩, h, rfl⟩

theorem gives_body {selector : Selector} {index : Nat} {slots : List Slot} {items : List Operand}
    {s t s' : CompileState} {body : Option Block} {code : Code}
    (hbody : (Block.compileBelow board ctx body).Gives s.forgetPins code t)
    (hskip : Slot.mayBeSkipped selector index = false)
    (h : (Slot.compileList board ctx selector (index + 1) slots).Gives t.forgetPins items s') :
    (Slot.compileList board ctx selector index (.script body :: slots)).Gives s
      (.script code :: items) s' :=
  Slot.gives_cons.2
    ⟨[.script code], t.forgetPins, items, (Slot.gives_script hskip).2
      ⟨code, t, hbody, rfl, rfl⟩, h, rfl⟩

/-- A block whose code depends on its operands alone. -/
theorem gives_plain (selector : Selector) (kind : BlockKind) {inputs : List Slot}
    {next : Option Block} {items : List Operand} {own rest : Code} {s t s' : CompileState}
    (hsel : selector ≠ .subscribeToMqttMessage)
    (hitems : (Slot.compileList board ctx selector 0 inputs).Gives
      (s.forgetPinsIf selector.yields) items t)
    (hown : Template.emit board ctx ⟨selector, items⟩
      = liftM (Except.ok own : Except CompileError Code))
    (hrest : (Block.compileBelow board ctx next).Gives (t.forgetPinsIf selector.yields) rest s') :
    (Block.compileBelow board ctx (some (.mk selector.name kind inputs next))).Gives s
      (own ++ rest) s' := by
  rw [Block.compileBelow_some]
  refine (Block.gives_compile (Selector.ofName?_name selector) hsel).2
    ⟨items, t, own, _, rest, hitems, ?_, hrest, rfl⟩
  rw [hown]
  exact CompileM.gives_lift.2 ⟨rfl, rfl⟩

/-- The uses among what is written for a use. -/
theorem filterMap_marksOf (known : Pin → Option PinMode) (access : Option (Pin × PinMode)) :
    (marksOf known access).filterMap PinMark.access? = access.toList := by
  cases access with
  | none => rfl
  | some access =>
    rw [marksOf, List.filterMap_append]
    split <;> rfl

/-- A script compiles from any state. -/
theorem PinTree.exists_compiled (board : Board) (ctx : Context) (tree : PinTree) (s : CompileState)
    (hs : s.pins.Sorted) :
    ∃ code s', (Block.compileBelow board ctx tree.block).Gives s code s' ∧
      Compiled board tree s code s' := by
  have hempty : (SortedMap.empty : PinMemory).Sorted := SortedMap.sorted_empty
  induction tree generalizing s with
  | done => exact ⟨.empty, s, Block.gives_compileBelow_none.2 ⟨rfl, rfl⟩, hs, keeps_text _ _, rfl⟩
  | use u next ih =>
    obtain ⟨own, t, hused, hpins, hgives⟩ := u.gives_block board ctx next.block hs
    obtain ⟨rest, s', hrest, hnext⟩ := ih t (hpins ▸ PinMemory.sorted_using hs _)
    refine ⟨own ++ rest, s', hgives rest s' hrest, hnext.cons (hpins ▸ hused.keeps) ?_⟩
    rw [PinTree.accesses, Code.accesses, hused.marks, filterMap_marksOf]
  | wait kind seconds next ih =>
    -- A wait lets other scripts run, so the memory is empty on both sides of it.
    obtain ⟨rest, s', hrest, hnext⟩ := ih s.forgetPins.forgetPins hempty
    refine ⟨_, s', gives_plain .doWait kind (by decide)
      (gives_typed seconds (Slot.gives_nil.2 ⟨rfl, rfl⟩)) rfl hrest, hnext.cons (keeps_wait _ _) ?_⟩
    simp [PinTree.accesses, Code.accesses]
  | forever kind body next ihbody ih =>
    obtain ⟨inner, t, hinner, hbody⟩ := ihbody s.forgetPins.forgetPins hempty
    obtain ⟨rest, s', hrest, hnext⟩ := ih t.forgetPins.forgetPins hempty
    refine ⟨_, s', gives_plain .doForever kind (by decide)
      (gives_body hinner rfl (Slot.gives_nil.2 ⟨rfl, rfl⟩)) rfl hrest, hnext.cons ?_ ?_⟩
    · exact ((keeps_text _ _).whileLoop (keeps_loopBody hbody.keeps) _).append (keeps_text _ _)
    · simp [PinTree.accesses, ← hbody.accesses, Code.accesses, Code.marks]
  | repeated kind count body next ihbody ih =>
    obtain ⟨inner, t, hinner, hbody⟩ := ihbody s.forgetPins.forgetPins hempty
    obtain ⟨rest, s', hrest, hnext⟩ := ih t.forgetPins.forgetPins hempty
    refine ⟨_, s', gives_plain .doRepeat kind (by decide)
      (gives_typed count (gives_body hinner rfl (Slot.gives_nil.2 ⟨rfl, rfl⟩))) rfl hrest,
      hnext.cons ?_ ?_⟩
    · exact (Keeps.forLoop (Keeps.forget ⟨_, keeps_text _ _⟩) (keeps_loopBody hbody.keeps)).append
        (keeps_text _ _)
    · simp [PinTree.accesses, ← hbody.accesses, Code.accesses, Code.marks]
  | ifThen kind condition yes next ihyes ih =>
    -- A branch may be skipped: it starts from an empty memory and leaves one.
    obtain ⟨inner, t, hinner, hyes⟩ := ihyes s.forgetPins hempty
    obtain ⟨rest, s', hrest, hnext⟩ := ih t.forgetPins hempty
    refine ⟨_, s', gives_plain .doIf kind (by decide)
      (gives_typed condition (gives_body hinner rfl (Slot.gives_nil.2 ⟨rfl, rfl⟩))) rfl hrest,
      hnext.cons ?_ ?_⟩
    · exact (Keeps.ifThen (Keeps.forget ⟨_, keeps_text _ _⟩) (keeps_branch hyes.keeps)).append
        (keeps_text _ _)
    · simp [PinTree.accesses, ← hyes.accesses, Code.accesses, Code.marks]
  | ifElse kind condition yes no next ihyes ihno ih =>
    obtain ⟨inner, t, hinner, hyes⟩ := ihyes s.forgetPins hempty
    obtain ⟨other, u, hother, hno⟩ := ihno t.forgetPins.forgetPins hempty
    obtain ⟨rest, s', hrest, hnext⟩ := ih u.forgetPins hempty
    refine ⟨_, s', gives_plain .doIfElse kind (by decide)
      (gives_typed condition
        (gives_body hinner rfl (gives_body hother rfl (Slot.gives_nil.2 ⟨rfl, rfl⟩))))
      rfl hrest, hnext.cons ?_ ?_⟩
    · exact (Keeps.ifElse (Keeps.forget ⟨_, keeps_text _ _⟩) (keeps_branch hyes.keeps)
        (keeps_branch hno.keeps)).append (keeps_text _ _)
    · simp [PinTree.accesses, ← hyes.accesses, ← hno.accesses, Code.accesses, Code.marks]

end Nesting

/-! ## Chains without nesting

Without pauses the memory is what was used so far, so it is known exactly which guards are
written. -/

/-- A chain of uses is guarded where the uses before it do not make that needless. -/
theorem PinTree.exists_marks_flat (board : Board) (ctx : Context) (uses : List PinUse)
    (s : CompileState) (hs : s.pins.Sorted) (before : List (Pin × PinMode))
    (hbefore : ∀ pin, s.pins.get? pin = before.lookup pin) :
    ∃ code s', (Block.compileBelow board ctx (PinTree.flat uses).block).Gives s code s' ∧
      code.marks = guardMarks before (uses.filterMap (·.access? board)) := by
  induction uses generalizing s before with
  | nil => exact ⟨.empty, s, Block.gives_compileBelow_none.2 ⟨rfl, rfl⟩, rfl⟩
  | cons u uses ih =>
    obtain ⟨own, t, hused, hpins, hgives⟩ := u.gives_block board ctx (flat uses).block hs
    have ht : t.pins.Sorted := hpins ▸ PinMemory.sorted_using hs _
    -- What is remembered of a pin is the mode of its last use.
    cases haccess : u.access? board with
    | none =>
      rw [haccess] at hused hpins
      obtain ⟨rest, s', hrest, hmarks⟩ := ih t ht before (by rw [hpins]; exact hbefore)
      refine ⟨own ++ rest, s', hgives rest s' hrest, ?_⟩
      rw [Code.marks_append, hused.marks, hmarks, List.filterMap_cons_none haccess]
      rfl
    | some access =>
      obtain ⟨pin, mode⟩ := access
      rw [haccess] at hused hpins
      have hknown : ∀ p, t.pins.get? p = ((pin, mode) :: before).lookup p := by
        intro p
        rw [hpins, PinMemory.using, SortedMap.get?_insert hs, List.lookup_cons, hbefore]
        by_cases hp : p = pin
        · simp [hp]
        · simp [hp, beq_eq_false_iff_ne.2 hp]
      obtain ⟨rest, s', hrest, hmarks⟩ := ih t ht ((pin, mode) :: before) hknown
      refine ⟨own ++ rest, s', hgives rest s' hrest, ?_⟩
      have hget : s.pins.get? = fun p => before.lookup p := funext hbefore
      rw [Code.marks_append, hused.marks, hmarks, List.filterMap_cons_some haccess,
        guardMarks, hget]

/-- A board with one pin that is digital both ways. -/
def onePinBoard : Board :=
  ⟨"", some { Pinout.empty with
    digitalOutput := ⟨[(2, "P2")]⟩, digitalInput := ⟨[(2, "P2")]⟩ }, none⟩

end BlockLink
