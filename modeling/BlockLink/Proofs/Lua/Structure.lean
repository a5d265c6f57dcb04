import BlockLink.Program
import BlockLink.Proofs.Board
import BlockLink.Proofs.Lua.Template
import BlockLink.Proofs.SortedMap

/-!
# `BlockLink/Proofs/Lua/Structure.lean` — no text that a user types gets out of its place

The code of a script leaves nothing open, whatever was typed into it: every string it opens it
closes on the same line, it has no comment and no long string, and its brackets and blocks are
balanced. So the function that a program wraps around it is closed by its own `end`.

The proof follows the tree. Chains compile to scripts and blocks in slots to expressions, and every
block's template makes one from the other.
-/

set_option autoImplicit false

namespace BlockLink

open BlockLink.Text BlockLink.Lua

/-! ## Trees -/

mutual

/-- A chain of statements other than raw Lua, with only such chains and single reporters in its
slots. -/
def Block.isProperChain : Block → Bool
  | .mk name _ inputs next =>
    ((Selector.ofName? name).any fun selector => !selector.isReporter && selector != .runLua)
      && Slot.areProper inputs && Block.isProperBelow next

/-- Such a chain, or none. -/
def Block.isProperBelow : Option Block → Bool
  | none => true
  | some b => b.isProperChain

/-- A reporter with nothing below it. -/
def Block.isProperReporter : Block → Bool
  | .mk name _ inputs next =>
    ((Selector.ofName? name).any fun selector => selector.isReporter)
      && Slot.areProper inputs && next.isNone

/-- A slot that holds what it is for. -/
def Slot.isProper : Slot → Bool
  | .literal _ => true
  | .upvar _ => true
  | .script body => Block.isProperBelow body
  | .reporter block => block.isProperReporter
  | .variadic slots => Slot.areProper slots

/-- Slots that hold what they are for. -/
def Slot.areProper : List Slot → Bool
  | [] => true
  | slot :: rest => slot.isProper && Slot.areProper rest

end

variable {board : Board}

mutual

/-- A chain compiles to a script. The lemmas of this group follow the recursion of the compiler,
with an invariant for each kind of tree: chains are scripts, reporters are expressions, and what
slots give is sound. -/
theorem Block.isScript_of_gives (hboard : board.NamesSound) :
    ∀ b : Block, b.isProperChain = true → ∀ {ctx : Context} {s s' : CompileState} {code : Code},
      (b.compile board ctx).Gives s code s' → IsScript code.render
  | .mk name kind inputs next, hb, ctx, s, s', code, h => by
    rw [Block.isProperChain, Bool.and_eq_true, Bool.and_eq_true] at hb
    obtain ⟨⟨hsel, hinputs⟩, hnext⟩ := hb
    obtain ⟨selector, hname, hsel⟩ := (Option.any_eq_true ..).1 hsel
    obtain ⟨hstatement, hlua⟩ : selector.isReporter = false ∧ selector ≠ .runLua := by
      simpa using hsel
    by_cases hsub : selector = .subscribeToMqttMessage
    · -- The rest of the chain is the body of the callback, and nothing follows it.
      subst hsub
      obtain ⟨items, t, hitems, hcode⟩ := Block.gives_subscribe hname h
      rcases hcode with rfl | ⟨broker, body, u, hbody, hcode⟩
      · exact isScript_empty
      · exact Template.isScript_subscribe (Slot.sound_of_gives_list hboard inputs hinputs hitems)
          (Block.isScript_of_gives_below hboard next hnext hbody) hcode
    · obtain ⟨items, t, own, u, rest, hitems, hown, hrest, rfl⟩ :=
        (Block.gives_compile hname hsub).1 h
      have hsound := Slot.sound_of_gives_list hboard inputs hinputs hitems
      exact (Template.isScript_emit hboard hstatement hlua hsound hown).append
        (Block.isScript_of_gives_below hboard next hnext hrest)

theorem Block.isScript_of_gives_below (hboard : board.NamesSound) :
    ∀ b : Option Block, Block.isProperBelow b = true →
    ∀ {ctx : Context} {s s' : CompileState} {code : Code},
      (Block.compileBelow board ctx b).Gives s code s' → IsScript code.render
  | none, _, _, _, _, _, h => by
    obtain ⟨rfl, -⟩ := Block.gives_compileBelow_none.1 h
    exact isScript_empty
  | some b, hb, _, _, _, _, h => by
    rw [Block.compileBelow_some] at h
    rw [Block.isProperBelow] at hb
    exact Block.isScript_of_gives hboard b hb h

/-- A single reporter compiles to an expression. -/
theorem Block.isExpression_of_gives (hboard : board.NamesSound) :
    ∀ b : Block, b.isProperReporter = true → ∀ {ctx : Context} {s s' : CompileState} {code : Code},
      (b.compile board ctx).Gives s code s' → IsExpression code.render
  | .mk name kind inputs next, hb, ctx, s, s', code, h => by
    rw [Block.isProperReporter, Bool.and_eq_true, Bool.and_eq_true] at hb
    obtain ⟨⟨hsel, hinputs⟩, hnext⟩ := hb
    obtain ⟨selector, hname, hsel⟩ := (Option.any_eq_true ..).1 hsel
    obtain rfl : next = none := Option.isNone_iff_eq_none.1 hnext
    have hsub : selector ≠ .subscribeToMqttMessage := by
      rintro rfl
      exact absurd hsel (by decide)
    obtain ⟨items, t, own, u, rest, hitems, hown, hrest, rfl⟩ :=
      (Block.gives_compile hname hsub).1 h
    obtain ⟨rfl, -⟩ := Block.gives_compileBelow_none.1 hrest
    have hsound := Slot.sound_of_gives_list hboard inputs hinputs hitems
    rw [Code.render_append, Code.render_empty, String.append_empty]
    exact Template.isExpression_emit hboard hsel hsound hown

/-- What a slot gives is sound: a script in it is one, and a reporter in it is an expression. -/
theorem Slot.sound_of_gives (hboard : board.NamesSound) :
    ∀ slot : Slot, slot.isProper = true → ∀ {ctx : Context} {selector : Selector} {index : Nat}
      {s s' : CompileState} {items : List Operand},
      (slot.compile board ctx selector index).Gives s items s' → ∀ x ∈ items, x.Sound
  | .literal text, _, _, _, _, _, _, _, h => by
    obtain ⟨rfl, -⟩ := Slot.gives_literal.1 h
    simp [Operand.Sound]
  | .upvar name, _, _, _, _, _, _, _, h => by
    obtain ⟨rfl, -⟩ := Slot.gives_upvar.1 h
    simp [Operand.Sound]
  | .script body, hslot, ctx, _, _, _, _, _, h => by
    rw [Slot.compile] at h
    rw [Slot.isProper] at hslot
    -- What becomes of the pins behind the slot does not matter here.
    obtain ⟨t, h⟩ := Slot.gives_of_operandAt h
    simp only [bind_pure_comp, CompileM.gives_map, CompileM.gives_isolated] at h
    obtain ⟨code, ⟨u, hbody, -⟩, rfl⟩ := h
    intro x hx
    rw [List.mem_singleton.1 hx]
    exact Block.isScript_of_gives_below hboard body hslot hbody
  | .reporter block, hslot, ctx, _, _, _, _, _, h => by
    rw [Slot.compile] at h
    rw [Slot.isProper] at hslot
    obtain ⟨t, h⟩ := Slot.gives_of_operandAt h
    simp only [bind_pure_comp, CompileM.gives_map] at h
    obtain ⟨code, hblock, rfl⟩ := h
    intro x hx
    rw [List.mem_singleton.1 hx]
    exact Block.isExpression_of_gives hboard block hslot hblock
  | .variadic slots, hslot, _, _, _, _, _, _, h => by
    rw [Slot.compile] at h
    rw [Slot.isProper] at hslot
    exact Slot.sound_of_gives_list hboard slots hslot h

theorem Slot.sound_of_gives_list (hboard : board.NamesSound) :
    ∀ slots : List Slot, Slot.areProper slots = true →
    ∀ {ctx : Context} {selector : Selector} {index : Nat}
      {s s' : CompileState} {items : List Operand},
      (Slot.compileList board ctx selector index slots).Gives s items s' → ∀ x ∈ items, x.Sound
  | [], _, _, _, _, _, _, _, h => by
    obtain ⟨rfl, -⟩ := Slot.gives_nil.1 h
    simp
  | slot :: rest, hslots, _, _, _, _, _, _, h => by
    obtain ⟨first, t, others, hfirst, hothers, rfl⟩ := Slot.gives_cons.1 h
    rw [Slot.areProper, Bool.and_eq_true] at hslots
    intro x hx
    rcases List.mem_append.1 hx with hx | hx
    · exact Slot.sound_of_gives hboard slot hslots.1 hfirst x hx
    · exact Slot.sound_of_gives_list hboard rest hslots.2 hothers x hx

end

/-! ## Names of pins -/

/-- Whether a name that the board has for a pin has a reserved word in it. -/
def Board.hasReservedWord (b : Board) : Bool :=
  b.pinout.any fun p => [PinMode.output, .input, .pwm, .analog].any fun mode =>
    (p.table mode).entries.any fun e => Lua.hasReservedWord e.2

/-- A board that is accepted has only words and points in its names. -/
theorem Board.isNameChar_or_point (hcheck : board.check = .ok board) {pinout : Pinout}
    (hpinout : board.pinout = some pinout) {mode : PinMode} {e : Pin × String}
    (he : e ∈ (pinout.table mode).entries) {c : Char} (hc : c ∈ e.2.toList) :
    isNameChar c = true ∨ c = '.' := by
  obtain ⟨hnames, hchannels⟩ := Board.check_eq_ok_iff.1 hcheck pinout hpinout
  by_cases hmode : mode = .analog
  · subst hmode
    exact (Board.isChannel_iff.1 (hchannels e he)).2 c hc
  · exact .inl ((isIdentifierChars_iff.1 (hnames mode hmode e he)).2.1 c hc)

/-- The names of a board that is accepted can be spliced in, if none of their words is reserved. -/
theorem Board.namesSound (hcheck : board.check = .ok board)
    (hwords : board.hasReservedWord = false) :
    board.NamesSound := by
  intro pinout hpinout mode pin name hget
  obtain ⟨pin', hmem⟩ := SortedMap.exists_mem_of_lookup hget
  refine isExpression_path (fun c hc => Board.isNameChar_or_point hcheck hpinout hmem hc) ?_
  have hmode : mode ∈ [PinMode.output, .input, .pwm, .analog] := by cases mode <;> decide
  simp only [Board.hasReservedWord, hpinout, Option.any_some, List.any_eq_false,
    Bool.not_eq_true] at hwords
  exact hwords mode hmode (pin', name) hmem

/-! ## Scripts -/

/-- No part of a script from its start on closes what is open around it. -/
theorem suffix_stack_of_isScript {source : String} (h : IsScript source) {front back : List Char}
    (hsplit : source.toList = front ++ back) (base : List Opener) :
    ∃ p, scan ⟨base, .gap⟩ front = some p ∧ base <:+ p.stack := by
  unfold IsScript at h
  rw [hsplit, scan_append] at h
  obtain ⟨p, hfront, -⟩ := Option.bind_eq_some_iff.1 h
  exact ⟨p.above base, scan_above base hfront, p.stack, rfl⟩

/-- What a program puts in front of a script opens a call and a function in it. -/
theorem scan_opening (id : UnitId) :
    scan .start (Program.coroutineName id ++ " = c.create(function() print(\"rc:" ++ wordText id
      ++ ":\")\n").toList = some ⟨[.block, .paren], .gap⟩ :=
  scan_of_pattern ((Follows.text |>.append (Template.follows_wordText id)) |>.append .text
    |>.append (Template.follows_wordText id) |>.append .text) (by decide +kernel)

/-- Whatever was typed into a script, its code leaves nothing open: scanned from its first character
to its last it comes back to where it started, with no comment, no long string, no line break in a
string and nothing closed that it did not open. Wherever it is put, at no place in it is anything
closed that was open around it, and so the function that a program wraps around it ends behind
it. -/
theorem code_stays_inside (board : Board) (hcheck : board.check = .ok board)
    (hwords : board.hasReservedWord = false) (ctx : Context) (s : CompileState) (b : Block)
    (hb : b.isProperChain = true) (source : String)
    (hsource : (b.compileFrom board ctx s).1 = .ok source) :
    scan .start source.toList = some .start ∧
    (∀ base front back, source.toList = front ++ back →
      ∃ p, scan ⟨base, .gap⟩ front = some p ∧ base <:+ p.stack) ∧
    ∀ (Origin : Type) (id : UnitId) (origin : Origin), ∃ opening,
      Program.declare ⟨id, source, origin⟩ = opening ++ source ++ "end)\n" ∧
      scan .start opening.toList = some ⟨[.block, .paren], .gap⟩ ∧
      scan .start (Program.declare ⟨id, source, origin⟩).toList = some .start := by
  obtain ⟨code, s', hgives, rfl⟩ := Block.exists_gives_of_compileFrom hsource
  have hscript := Block.isScript_of_gives (Board.namesSound hcheck hwords) b hb hgives
  refine ⟨hscript, fun base front back hsplit => suffix_stack_of_isScript hscript hsplit base, ?_⟩
  intro Origin id origin
  refine ⟨_, rfl, scan_opening id, ?_⟩
  unfold Program.declare
  rw [String.toList_append, String.toList_append]
  exact scan_append_of_eq (scan_append_of_eq (scan_opening id) (hscript.scan [.block, .paren])) rfl

/-- A board with a dotted channel, and a broker with quotes and line breaks in its texts. -/
def trickyBoard : Board :=
  ⟨"", some { Pinout.empty with digitalOutput := ⟨[(2, "P2")]⟩, analogInput := ⟨[(5, "adc.A5")]⟩ },
    some ⟨"\") end --", 1883, "a\\", "\n", "]]"⟩⟩

/-- A script with block words, quotes, brackets, comments and line breaks typed in wherever there is
room for them. -/
def trickyScript : Block :=
  .mk "subscribeToMQTTmessage" .hat [.literal "\" then", .literal "end\r\n"] (some
    (.mk "doSetVar" .command [.literal "\"] end --", .reporter (.mk "reportJoinWords" .reporter
        [.variadic [.literal "]] \" .. \\", .upvar "x\"", .reporter (.mk "getPinAnalog" .reporter
          [.literal "5"] none)]] none)] (some
      (.mk "doIf" .command
        [.reporter (.mk "reportLessThan" .predicate [.literal "-5", .literal "--"] none),
          .script (some (.mk "setPinDigital" .command [.literal "2", .literal "end"] none))] (some
        (.mk "publishMQTTmessage" .command [.literal "\x00\"", .literal "\\"] none))))))

/-- The statement on a script with something to break out of every place. -/
theorem code_stays_inside_tricky :
    trickyBoard.check = .ok trickyBoard ∧ trickyBoard.hasReservedWord = false ∧
      trickyScript.isProperChain = true ∧
      ∃ source, (trickyScript.compileFrom trickyBoard ⟨.id 3, true⟩ .initial).1 = .ok source ∧
        scan .start source.toList = some .start ∧
        scan .start (Program.declare ⟨3, source, ()⟩).toList = some .start := by
  have hcheck : trickyBoard.check = .ok trickyBoard := by decide +kernel
  have hwords : trickyBoard.hasReservedWord = false := by decide +kernel
  have hproper : trickyScript.isProperChain = true := by decide +kernel
  have hok : (trickyScript.compileFrom trickyBoard ⟨.id 3, true⟩ .initial).1.isOk = true := by
    decide +kernel
  refine ⟨hcheck, hwords, hproper, ?_⟩
  cases hsource : (trickyScript.compileFrom trickyBoard ⟨.id 3, true⟩ .initial).1 with
  | error e => exact absurd hok (by rw [hsource]; exact Bool.false_ne_true)
  | ok source =>
    obtain ⟨hscan, -, hdeclare⟩ := code_stays_inside trickyBoard hcheck hwords
      ⟨.id 3, true⟩ .initial
      trickyScript hproper source hsource
    obtain ⟨opening, -, -, hwhole⟩ := hdeclare Unit 3 ()
    exact ⟨source, rfl, hscan, hwhole⟩

end BlockLink
