import BlockLink.Proofs.Lua.Structure
import BlockLink.Proofs.Pins.Computed
import BlockLink.Proofs.Pins.Signs

/-!
# `BlockLink/Proofs/Pins/Text.lean` — the labels of code are what its text does

What is proved about compiled code elsewhere is proved about its labels; what runs on a board is its
text. Here the two are tied together, for scripts in which every block stands where it belongs and
none makes a function or splices in code: on a board that was checked, the signs that are read off
the text, by a reader that knows nothing of blocks, are those of the labels, in the same order
(`Code.MatchesText`).

The induction is over the script and everything in it (`Block.readsScript_of_gives`), with one step
for a block from what its operands are read as. A checked board has names that cannot close what
they stand in (`Board.namesTold`). They can still be reserved words, and then the text is read as
nothing.
-/

set_option autoImplicit false

namespace BlockLink

open BlockLink.Text BlockLink.Lua

/-! ## Trees

One step for each shape of a tree, as it is compiled. -/

/-- Whether a block hands on no function, splices in no code and skips no operand. -/
def Block.isPlain : Block → Bool
  | .mk name _ _ _ => (Selector.ofName? name).all Selector.isPlain

variable {P : Prop} {board : Board}

/-- A chain in which every block is plain: its first block, what stands in the slots of it, and the
rest. -/
theorem Block.isPlain_of_parts {name : String} {kind : BlockKind} {inputs : List Slot}
    {next : Option Block} {selector : Selector} (hname : Selector.ofName? name = some selector)
    (h : (Block.mk name kind inputs next).parts.all Block.isPlain = true) :
    selector.isPlain = true ∧ (Slot.partsOf inputs).all Block.isPlain = true ∧
      (Block.partsBelow next).all Block.isPlain = true := by
  rw [← Block.partsBelow, Block.all_partsBelow, Bool.and_eq_true, Bool.and_eq_true,
    Block.isPlain, hname]
    at h
  exact ⟨h.1.1, h.1.2, h.2⟩

mutual

/-- The text of a chain has the signs of its code. -/
theorem Block.readsScript_of_gives (hboard : board.NamesTold P) :
    ∀ b : Block, b.isProperChain = true → b.parts.all Block.isPlain = true →
      ∀ {ctx : Context} {s s' : CompileState} {code : Code},
        (b.compile board ctx).Gives s code s' → code.ReadsScript P board
  | .mk name kind inputs next, hb, hplain, ctx, s, s', code, h => by
    rw [Block.isProperChain, Bool.and_eq_true, Bool.and_eq_true] at hb
    obtain ⟨⟨hsel, hinputs⟩, hnext⟩ := hb
    obtain ⟨selector, hname, hsel⟩ := (Option.any_eq_true ..).1 hsel
    obtain ⟨hself, hparts, hbelow⟩ := Block.isPlain_of_parts hname hplain
    have hstatement : selector.isReporter = false := by
      rw [Bool.and_eq_true, Bool.not_eq_true'] at hsel
      exact hsel.1
    have hsub : selector ≠ .subscribeToMqttMessage := by
      rintro rfl
      exact absurd hself (by decide)
    obtain ⟨items, t, own, u, rest, hitems, hown, hrest, rfl⟩ :=
      (Block.gives_compile hname hsub).1 h
    have htold := Slot.told_of_gives_list hboard inputs hinputs hparts hitems
    exact (Template.readsScript_emit hboard hstatement hself htold hown).append
      (Block.readsScript_of_gives_below hboard next hnext hbelow hrest)

theorem Block.readsScript_of_gives_below (hboard : board.NamesTold P) :
    ∀ b : Option Block, Block.isProperBelow b = true →
    (Block.partsBelow b).all Block.isPlain = true →
      ∀ {ctx : Context} {s s' : CompileState} {code : Code},
        (Block.compileBelow board ctx b).Gives s code s' → code.ReadsScript P board
  | none, _, _, _, _, _, _, h => by
    obtain ⟨rfl, -⟩ := Block.gives_compileBelow_none.1 h
    exact Code.readsScript_empty
  | some b, hb, hplain, _, _, _, _, h => by
    rw [Block.compileBelow_some] at h
    rw [Block.isProperBelow] at hb
    rw [Block.partsBelow] at hplain
    exact Block.readsScript_of_gives hboard b hb hplain h

/-- The text of a reporter has the signs of its code. -/
theorem Block.readsValue_of_gives (hboard : board.NamesTold P) :
    ∀ b : Block, b.isProperReporter = true → b.parts.all Block.isPlain = true →
      ∀ {ctx : Context} {s s' : CompileState} {code : Code},
        (b.compile board ctx).Gives s code s' → code.ReadsValue P board
  | .mk name kind inputs next, hb, hplain, ctx, s, s', code, h => by
    rw [Block.isProperReporter, Bool.and_eq_true, Bool.and_eq_true] at hb
    obtain ⟨⟨hsel, hinputs⟩, hnext⟩ := hb
    obtain ⟨selector, hname, hsel⟩ := (Option.any_eq_true ..).1 hsel
    obtain rfl : next = none := Option.isNone_iff_eq_none.1 hnext
    obtain ⟨hself, hparts, -⟩ := Block.isPlain_of_parts hname hplain
    have hsub : selector ≠ .subscribeToMqttMessage := by
      rintro rfl
      exact absurd hself (by decide)
    obtain ⟨items, t, own, u, rest, hitems, hown, hrest, rfl⟩ :=
      (Block.gives_compile hname hsub).1 h
    obtain ⟨rfl, -⟩ := Block.gives_compileBelow_none.1 hrest
    have htold := Slot.told_of_gives_list hboard inputs hinputs hparts hitems
    have hvalue := Template.readsValue_emit hboard hsel hself htold hown
    unfold Code.ReadsValue at hvalue ⊢
    rwa [Code.render_append, Code.render_empty, String.append_empty, Code.signs_append,
      Code.signs_empty, List.append_nil]

/-- What a slot hands on has the signs of its labels. -/
theorem Slot.told_of_gives (hboard : board.NamesTold P) :
    ∀ slot : Slot, slot.isProper = true → slot.parts.all Block.isPlain = true →
      ∀ {ctx : Context} {selector : Selector} {index : Nat} {s s' : CompileState}
      {items : List Operand},
        (slot.compile board ctx selector index).Gives s items s' → ∀ x ∈ items, x.Told P board
  | .literal text, _, _, _, _, _, _, _, _, h => by
    obtain ⟨rfl, -⟩ := Slot.gives_literal.1 h
    simp [Operand.Told]
  | .upvar name, _, _, _, _, _, _, _, _, h => by
    obtain ⟨rfl, -⟩ := Slot.gives_upvar.1 h
    simp [Operand.Told]
  | .script body, hslot, hplain, ctx, _, _, _, _, _, h => by
    rw [Slot.compile] at h
    rw [Slot.isProper] at hslot
    rw [Slot.parts] at hplain
    -- What becomes of the pins behind the slot does not matter here.
    obtain ⟨t, h⟩ := Slot.gives_of_operandAt h
    simp only [bind_pure_comp, CompileM.gives_map, CompileM.gives_isolated] at h
    obtain ⟨code, ⟨u, hbody, -⟩, rfl⟩ := h
    intro x hx
    rw [List.mem_singleton.1 hx]
    exact Block.readsScript_of_gives_below hboard body hslot hplain hbody
  | .reporter block, hslot, hplain, ctx, _, _, _, _, _, h => by
    rw [Slot.compile] at h
    rw [Slot.isProper] at hslot
    rw [Slot.parts] at hplain
    obtain ⟨t, h⟩ := Slot.gives_of_operandAt h
    simp only [bind_pure_comp, CompileM.gives_map] at h
    obtain ⟨code, hblock, rfl⟩ := h
    intro x hx
    rw [List.mem_singleton.1 hx]
    exact Block.readsValue_of_gives hboard block hslot hplain hblock
  | .variadic slots, hslot, hplain, _, _, _, _, _, _, h => by
    rw [Slot.compile] at h
    rw [Slot.isProper] at hslot
    rw [Slot.parts] at hplain
    exact Slot.told_of_gives_list hboard slots hslot hplain h

theorem Slot.told_of_gives_list (hboard : board.NamesTold P) :
    ∀ slots : List Slot, Slot.areProper slots = true →
    (Slot.partsOf slots).all Block.isPlain = true →
      ∀ {ctx : Context} {selector : Selector} {index : Nat} {s s' : CompileState}
      {items : List Operand},
        (Slot.compileList board ctx selector index slots).Gives s items s' →
        ∀ x ∈ items, x.Told P board
  | [], _, _, _, _, _, _, _, _, h => by
    obtain ⟨rfl, -⟩ := Slot.gives_nil.1 h
    simp
  | slot :: rest, hslots, hplain, _, _, _, _, _, _, h => by
    obtain ⟨first, t, others, hfirst, hothers, rfl⟩ := Slot.gives_cons.1 h
    rw [Slot.areProper, Bool.and_eq_true] at hslots
    rw [Slot.all_partsOf_cons, Bool.and_eq_true] at hplain
    intro x hx
    rcases List.mem_append.1 hx with hx | hx
    · exact Slot.told_of_gives hboard slot hslots.1 hplain.1 hfirst x hx
    · exact Slot.told_of_gives_list hboard rest hslots.2 hplain.2 hothers x hx

end

/-! ## Boards -/

/-- Whether the names that a board puts into code can be read there: names of digital pins are not
reserved, and channels are numerals or paths. -/
def Board.hasReadableNames (b : Board) : Bool :=
  b.pinout.all fun pinout => [PinMode.output, .input, .pwm, .analog].all fun mode =>
    (pinout.table mode).entries.all fun e => isReadable mode e.2

/-- Checking a board makes its names tell what they are, as far as they can be read. -/
theorem Board.namesTold (hcheck : board.check = .ok board) :
    board.NamesTold (board.hasReadableNames = true) := by
  intro mode pin name hname
  obtain ⟨pinout, hpinout, hget⟩ := Option.bind_eq_some_iff.1 hname
  obtain ⟨pin', hmem⟩ := SortedMap.exists_mem_of_lookup hget
  refine ⟨?_, fun hreadable => ?_⟩
  · obtain ⟨hnames, hchannels⟩ := Board.check_eq_ok_iff.1 hcheck pinout hpinout
    cases mode with
    | output => exact hnames .output (by decide) _ hmem
    | input => exact hnames .input (by decide) _ hmem
    | pwm => exact hnames .pwm (by decide) _ hmem
    | analog => exact (Board.isChannel_iff.1 (hchannels _ hmem)).2
  · have hmode : mode ∈ [PinMode.output, .input, .pwm, .analog] := by cases mode <;> decide
    rw [Board.hasReadableNames, hpinout] at hreadable
    exact List.all_eq_true.1 (List.all_eq_true.1 hreadable mode hmode) _ hmem

/-! ## Texts -/

/-- A text of statements has its signs, or cannot be read because a name cannot. -/
theorem Lua.signs?_of_isStatements {text : String} {es : List Sign}
    (h : IsStatements P text.toList es) : signs? text = some es ∨ signs? text = none ∧ ¬ P := by
  -- A text is read from the outermost level, with nothing in front of it.
  have hplace := h (.around true) [] rfl
  change Spot.follow ⟨.gap, .start⟩ text.toList = some (es, ⟨.gap, .start⟩)
    ∨ Spot.follow ⟨.gap, .start⟩ text.toList = none ∧ ¬ P at hplace
  unfold signs? lex
  unfold Spot.follow at hplace
  cases hlex : Lexer.run .gap text.toList with
  | none =>
    rw [hlex] at hplace
    simpa using hplace
  | some x =>
    obtain ⟨ts, q⟩ := x
    rw [hlex, Option.bind_some, Option.map_eq_some_iff, Option.map_eq_none_iff] at hplace
    rcases hplace with ⟨⟨es', r⟩, hrun, heq⟩ | ⟨hrun, hP⟩
    · cases heq
      left
      simp [Lexer.finish, Lexed.behind, hrun]
    · refine .inr ⟨?_, hP⟩
      cases hfinish : q.finish with
      | none => simp [hfinish]
      | some l => simp [hfinish, Lexed.behind, Reader.run_append, hrun]

/-- The labels of the code are what its text does: if the text can be read at all, it has the signs
of the labels, and it can be read if the names of the board can. -/
def Code.MatchesText (board : Board) (c : Code) : Prop :=
  (∀ es, signs? c.render = some es → es = c.signs board) ∧
    (board.hasReadableNames = true → signs? c.render = some (c.signs board))

/-- Code whose text has the signs of its labels, to the end of the text. -/
theorem Code.ReadsScript.matchesText {c : Code}
    (h : c.ReadsScript (board.hasReadableNames = true) board) : c.MatchesText board := by
  rcases Lua.signs?_of_isStatements h with hread | ⟨hnone, hnames⟩
  · exact ⟨fun es hes => Option.some.inj (hes.symm.trans hread), fun _ => hread⟩
  · refine ⟨fun es hes => ?_, fun hreadable => absurd hreadable hnames⟩
    rw [hnone] at hes
    cases hes

/-! ## Eager scripts

The scripts that the statements on safety are about are ones whose text can be read. -/

theorem Selector.isReporter_of_isEager {selector : Selector} (h : selector.isEager = true) :
    selector.isReporter = true ∧ selector.isPlain = true := by
  cases selector <;> first | exact ⟨rfl, rfl⟩ | exact absurd h (by decide)

theorem Selector.isReporter_of_isCommand {selector : Selector} (h : selector.isCommand = true) :
    selector.isReporter = false ∧ selector ≠ .runLua ∧ selector.isPlain = true := by
  cases selector <;> first | exact ⟨rfl, by decide, rfl⟩ | exact absurd h (by decide)

/-- What is asked of a chain is asked of its first block, of the slots of that block and of the
rest. -/
theorem Block.proper_cons {name : String} {kind : BlockKind} {inputs : List Slot}
    {next : Option Block} {selector : Selector} (hname : Selector.ofName? name = some selector)
    (hsel : selector.isReporter = false ∧ selector ≠ .runLua ∧ selector.isPlain = true)
    (hinputs : Slot.areProper inputs = true ∧ (Slot.partsOf inputs).all Block.isPlain = true)
    (hnext : Block.isProperBelow next = true ∧ (Block.partsBelow next).all Block.isPlain = true) :
    Block.isProperBelow (some (.mk name kind inputs next)) = true ∧
      (Block.partsBelow (some (.mk name kind inputs next))).all Block.isPlain = true := by
  obtain ⟨hstatement, hlua, hplain⟩ := hsel
  refine ⟨?_, ?_⟩
  · simp [Block.isProperBelow, Block.isProperChain, hname, hstatement, hlua, hinputs.1, hnext.1]
  · rw [Block.all_partsBelow, Block.isPlain, hname, Option.all_some, hplain, hinputs.2, hnext.2]
    rfl

theorem Slot.proper_cons {slot : Slot} {rest : List Slot}
    (hslot : slot.isProper = true ∧ slot.parts.all Block.isPlain = true)
    (hrest : Slot.areProper rest = true ∧ (Slot.partsOf rest).all Block.isPlain = true) :
    Slot.areProper (slot :: rest) = true ∧ (Slot.partsOf (slot :: rest)).all
      Block.isPlain = true := by
  rw [Slot.areProper, Slot.all_partsOf_cons, hslot.1, hslot.2, hrest.1, hrest.2]
  exact ⟨rfl, rfl⟩

theorem Slot.proper_script {body : Option Block}
    (h : Block.isProperBelow body = true ∧ (Block.partsBelow body).all Block.isPlain = true) :
    (Slot.script body).isProper = true ∧ (Slot.script body).parts.all Block.isPlain = true := by
  rwa [Slot.isProper, Slot.parts]

mutual

/-- An eager reporter has only such reporters in it. -/
theorem Block.proper_of_isEager : ∀ b : Block, b.isEager = true →
    b.isProperReporter = true ∧ b.parts.all Block.isPlain = true
  | .mk name kind inputs next, hb => by
    rw [Block.isEager, Bool.and_eq_true, Bool.and_eq_true, Option.any_eq_true] at hb
    obtain ⟨⟨⟨selector, hname, hsel⟩, hinputs⟩, hnext⟩ := hb
    obtain rfl := Option.isNone_iff_eq_none.mp hnext
    obtain ⟨hreporter, hplain⟩ := Selector.isReporter_of_isEager hsel
    obtain ⟨hproper, hparts⟩ := Slot.proper_of_areEager inputs hinputs
    refine ⟨?_, ?_⟩
    · simp [Block.isProperReporter, hname, hreporter, hproper]
    · rw [← Block.partsBelow, Block.all_partsBelow, Block.isPlain, hname, Option.all_some,
        hplain, hparts]
      rfl

theorem Slot.proper_of_isEager : ∀ slot : Slot, slot.isEager = true →
    slot.isProper = true ∧ slot.parts.all Block.isPlain = true
  | .literal _, _ => ⟨rfl, rfl⟩
  | .upvar _, _ => ⟨rfl, rfl⟩
  | .script body, h => absurd h (by simp [Slot.isEager])
  | .reporter block, h => by
    rw [Slot.isEager] at h
    rw [Slot.isProper, Slot.parts]
    exact Block.proper_of_isEager block h
  | .variadic slots, h => by
    rw [Slot.isEager] at h
    rw [Slot.isProper, Slot.parts]
    exact Slot.proper_of_areEager slots h

theorem Slot.proper_of_areEager : ∀ slots : List Slot, Slot.areEager slots = true →
    Slot.areProper slots = true ∧ (Slot.partsOf slots).all Block.isPlain = true
  | [], _ => ⟨rfl, rfl⟩
  | slot :: rest, h => by
    rw [Slot.areEager, Bool.and_eq_true] at h
    exact Slot.proper_cons (Slot.proper_of_isEager slot h.1) (Slot.proper_of_areEager rest h.2)

end

/-- In an eager script every block stands where it belongs and is plain. -/
theorem EagerChain.proper {b : Option Block} (h : EagerChain b) :
    Block.isProperBelow b = true ∧ (Block.partsBelow b).all Block.isPlain = true := by
  induction h with
  | done => exact ⟨rfl, rfl⟩
  | command hname hsel kind hinputs hnext ih =>
    exact Block.proper_cons hname (Selector.isReporter_of_isCommand hsel)
      (Slot.proper_of_areEager _ hinputs) ih
  | forever hname kind hbody hnext ihbody ih =>
    exact Block.proper_cons hname (by decide)
      (Slot.proper_cons (Slot.proper_script ihbody) ⟨rfl, rfl⟩) ih
  | repeated hname kind hcount hsingle hbody hnext ihbody ih =>
    exact Block.proper_cons hname (by decide)
      (Slot.proper_cons (Slot.proper_of_isEager _ hcount)
        (Slot.proper_cons (Slot.proper_script ihbody) ⟨rfl, rfl⟩)) ih
  | ifThen hname kind hcondition hsingle hyes hnext ihyes ih =>
    exact Block.proper_cons hname (by decide)
      (Slot.proper_cons (Slot.proper_of_isEager _ hcondition)
        (Slot.proper_cons (Slot.proper_script ihyes) ⟨rfl, rfl⟩)) ih
  | ifElse hname kind hcondition hsingle hyes hno hnext ihyes ihno ih =>
    exact Block.proper_cons hname (by decide)
      (Slot.proper_cons (Slot.proper_of_isEager _ hcondition)
        (Slot.proper_cons (Slot.proper_script ihyes)
          (Slot.proper_cons (Slot.proper_script ihno) ⟨rfl, rfl⟩))) ih

end BlockLink
