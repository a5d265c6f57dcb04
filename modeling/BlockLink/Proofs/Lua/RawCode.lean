import BlockLink.Proofs.Compile.Source
import BlockLink.Proofs.Lua.Token

/-!
# `BlockLink/Proofs/Lua/RawCode.lean` — what raw Lua does to the code around it

Lua that was typed into a block is put into a function as it stands, with a blank in front of it and
a blank and the rest of the statement behind it, on the same line. The blanks keep the tokens apart:
whatever the code is, its own tokens come out, and those of the statement around it.

The one exception is code whose last line has a comment. The comment goes on to the end of the line,
and takes the rest of the statement with it, the `end` of the function included. So the code keeps
to itself exactly if it does not end in such a comment (`raw_code_swallows_nothing_iff`). What
follows the statement is safe either way, because the statement ends with a line break.
-/

set_option autoImplicit false

namespace BlockLink.Lua

open BlockLink.Text Operands

/-! ## The statement around the code -/

/-- What stands in front of the code. -/
def rawFront : String :=
  "do local f = " ++ "(function()" ++ " "

/-- What stands behind the code and the blank after it. -/
def rawBack (unit : UnitRef) : String :=
  "end)()" ++ " if f ~= nil then print(" ++ quote ("pb:" ++ unit.text ++ ":")
    ++ " .. _s(f)) end end\n"

/-- The statement that runs raw code and reports what it returns. -/
def rawStatement (unit : UnitRef) (code : String) : String :=
  rawFront ++ code ++ " " ++ rawBack unit

/-- The tokens in front of the code. -/
def rawOpening : List Token :=
  [.word ['d', 'o'], .word ['l', 'o', 'c', 'a', 'l'], .word ['f'], .symbol ['='], .symbol ['('],
    .word ['f', 'u', 'n', 'c', 't', 'i', 'o', 'n'], .symbol ['('], .symbol [')']]

/-- The tokens behind the code. -/
def rawClosing (unit : UnitRef) : List Token :=
  [.word ['e', 'n', 'd'], .symbol [')'], .symbol ['('], .symbol [')'],
    .word ['i', 'f'], .word ['f'], .symbol ['~', '='], .word ['n', 'i', 'l'],
    .word ['t', 'h', 'e', 'n'],
    .word ['p', 'r', 'i', 'n', 't'], .symbol ['('], .string (textBytes ("pb:" ++ unit.text ++ ":")),
    .symbol ['.', '.'], .word ['_', 's'], .symbol ['('], .word ['f'], .symbol [')'], .symbol [')'],
    .word ['e', 'n', 'd'], .word ['e', 'n', 'd']]

/-- The statement in the parts in which it is lexed: the blank behind the code belongs to the
code. -/
theorem toList_rawStatement_append (unit : UnitRef) (code after : String) :
    (rawStatement unit code ++ after).toList
      = (rawFront.toList ++ (code.toList ++ [' ']) ++ (rawBack unit).toList) ++ after.toList := by
  have hblank : " ".toList = [' '] := rfl
  simp only [rawStatement, String.toList_append, hblank, List.append_assoc]

/-- A block of raw code compiles to that statement, with the code of the chain below it behind. -/
theorem exists_of_compile_runLua {board : Board} {ctx : Context} {s : CompileState} {name : String}
    {kind : BlockKind} {inputs : List Slot} {next : Option Block} {code text : String}
    (hname : Selector.ofName? name = some .runLua)
    (hcode : (Slot.shapesOf inputs).head? = some (.literal code))
    (htext : ((Block.mk name kind inputs next).compileFrom board ctx s).1 = .ok text) :
    ∃ rest, text = rawStatement ctx.unit code ++ rest ∧ (next = none → rest = "") := by
  have hsource := Block.source?_eq_some_iff.mpr ⟨htext, rfl⟩
  obtain ⟨items, ps, own, rest, m₁, m₂, hitems, hps, hfill, hbelow, rfl⟩ :=
    Block.exists_of_source? hname (by decide) hsource
  rw [Slot.sources?_operandsOf] at hitems
  rw [Slot.map_blank_of_sources? inputs hitems] at hps
  obtain ⟨shapes, hshapes⟩ := List.head?_eq_some_iff.mp hcode
  -- The layout is that of typed code, because the first operand was typed in.
  rw [hshapes] at hps
  cases hps
  refine ⟨rest, ?_, ?_⟩
  · have htag : "pb" ++ ":" = "pb:" := rfl
    simp only [Layout.luaCall, Layout.runNow, Layout.unitTag, htag, List.cons_append,
      List.nil_append,
      fill_text, fill_typed, fill_quoted, fill_nil, Option.map_some, Option.some.injEq] at hfill
    rw [String.append_empty] at hfill
    rw [← hfill]
    simp only [rawStatement, rawFront, rawBack, String.append_assoc]
  · rintro rfl
    cases hbelow
    rfl

/-! ## Its tokens

The lexer is between tokens in front of the code. Where it is behind it depends on the code: between
tokens, in a comment, or inside something that is not closed. -/

theorem run_rawFront : Lexer.run .gap rawFront.toList = some (rawOpening, .gap) := by
  decide +kernel

theorem run_rawBack (unit : UnitRef) :
    Lexer.run .gap (rawBack unit).toList = some (rawClosing unit, .gap) := by
  have hfront : Lexer.run .gap ("end)()" ++ " if f ~= nil then print(").toList
      = some ((rawClosing .adhoc).take 11, .gap) := by decide +kernel
  have hback : Lexer.run .gap " .. _s(f)) end end\n".toList
      = some ((rawClosing .adhoc).drop 12, .gap) := by decide +kernel
  rw [rawBack, String.toList_append, String.toList_append]
  exact Lexer.run_append_of_eq (Lexer.run_append_of_eq hfront (Lexer.run_quote _)) hback

/-- In a comment, what stands behind the code is nothing but the rest of the line. -/
theorem run_rawBack_of_comment (unit : UnitRef) :
    Lexer.run .comment (rawBack unit).toList = some ([], .gap) := by
  have hfront : Lexer.run .comment ("end)()" ++ " if f ~= nil then print(").toList
      = some ([], .comment) := by decide +kernel
  have hquoted : Lexer.run .comment (quote ("pb:" ++ unit.text ++ ":")).toList
      = some ([], .comment) :=
    Lexer.run_comment fun c hc => isLineBreak_of_isPrinted (isPrinted_of_mem_quote hc)
  have hback : Lexer.run .comment " .. _s(f)) end end\n".toList = some ([], .gap) := by
    decide +kernel
  rw [rawBack, String.toList_append, String.toList_append]
  exact Lexer.run_append_of_eq (Lexer.run_append_of_eq hfront hquoted) hback

variable {unit : UnitRef} {code : String} {lexed : Lexed}

/-- Code that ends between tokens is followed by the rest of the statement. -/
theorem lex_rawStatement_of_between (hlexed : lex code.toList = some lexed)
    (hends : lexed.ending = .between) (after : String) :
    lex (rawStatement unit code ++ after).toList
      = (lex after.toList).map (·.behind (rawOpening ++ lexed.tokens ++ rawClosing unit)) := by
  rw [toList_rawStatement_append]
  exact lex_append (Lexer.run_append_of_eq (Lexer.run_append_of_eq run_rawFront
    (run_blank_of_between hlexed hends)) (run_rawBack unit)) _

/-- Code that ends in a comment is followed by the next line. -/
theorem lex_rawStatement_of_comment (hlexed : lex code.toList = some lexed)
    (hends : lexed.ending = .comment) (after : String) :
    lex (rawStatement unit code ++ after).toList
      = (lex after.toList).map (·.behind (rawOpening ++ lexed.tokens)) := by
  rw [toList_rawStatement_append]
  have hrun := Lexer.run_append_of_eq (Lexer.run_append_of_eq run_rawFront
    (run_blank_of_comment hlexed hends)) (run_rawBack_of_comment unit)
  rw [List.append_nil] at hrun
  exact lex_append hrun _

/-- Raw code whose strings and long brackets are closed is followed by the tokens of the closing
text, and by those of whatever comes after the statement, exactly if it does not end in a comment.
If it does, the comment takes the whole closing text and nothing of what comes after. -/
theorem raw_code_swallows_nothing_iff {board : Board} {ctx : Context} {s : CompileState}
    {name : String} {kind : BlockKind} {inputs : List Slot} {next : Option Block}
    {code text : String} {lexed : Lexed} (hname : Selector.ofName? name = some .runLua)
    (hcode : (Slot.shapesOf inputs).head? = some (.literal code))
    (htext : ((Block.mk name kind inputs next).compileFrom board ctx s).1 = .ok text)
    (hlexed : lex code.toList = some lexed) (hends : lexed.ending ≠ .inside) :
    ∃ rest, text = rawStatement ctx.unit code ++ rest ∧ (next = none → rest = "") ∧
      ((∀ after : String, lex (rawStatement ctx.unit code ++ after).toList
          = (lex after.toList).map (·.behind (rawOpening ++ lexed.tokens ++ rawClosing ctx.unit)))
        ↔ lexed.ending = .between) ∧
      (lexed.ending = .comment → ∀ after : String, lex (rawStatement ctx.unit code ++ after).toList
        = (lex after.toList).map (·.behind (rawOpening ++ lexed.tokens))) := by
  obtain ⟨rest, hrest, hnext⟩ := exists_of_compile_runLua hname hcode htext
  refine ⟨rest, hrest, hnext, ⟨fun hall => ?_, lex_rawStatement_of_between hlexed⟩,
    lex_rawStatement_of_comment hlexed⟩
  cases hending : lexed.ending with
  | between => rfl
  | inside => exact absurd hending hends
  | comment =>
    -- With nothing after the statement, the two token lists would have to be the same.
    have hempty : lex "".toList = some ⟨[], .between⟩ := rfl
    have hsame := (lex_rawStatement_of_comment hlexed hending "").symm.trans (hall "")
    rw [hempty] at hsame
    simp [Lexed.behind, rawClosing] at hsame

/-- Comments that end before the code does are not in the way, nor are dashes in a string. -/
theorem raw_code_swallows_nothing_long_comment :
    let code := "-- 'one\nreturn '--' --[[two\n]]"
    let raw : Block := .mk "runLua" .command [.literal code] none
    (raw.compileFrom .blank ⟨.id 7, true⟩ .initial).1.isOk = true ∧
      lex code.toList = some ⟨[.word ['r', 'e', 't', 'u', 'r', 'n'], .string [45, 45]], .between⟩ ∧
      ∃ text, (raw.compileFrom .blank ⟨.id 7, true⟩ .initial).1 = .ok text ∧
        ∀ after : String, lex (text ++ after).toList = (lex after.toList).map (·.behind (rawOpening
          ++ [.word ['r', 'e', 't', 'u', 'r', 'n'], .string [45, 45]] ++ rawClosing (.id 7))) := by
  intro code raw
  have hok : (raw.compileFrom .blank ⟨.id 7, true⟩ .initial).1.isOk = true := by decide +kernel
  have hlexed : lex code.toList
      = some ⟨[.word ['r', 'e', 't', 'u', 'r', 'n'], .string [45, 45]], .between⟩ := by
    decide +kernel
  obtain ⟨text, htext⟩ := Block.exists_eq_ok hok
  obtain ⟨rest, rfl, hrest, hiff, -⟩ :=
    raw_code_swallows_nothing_iff (by decide) rfl htext hlexed (by decide)
  obtain rfl := hrest rfl
  rw [String.append_empty] at htext
  exact ⟨hok, hlexed, _, htext, hiff.mpr rfl⟩

/-- A comment at the end of the code takes the end of the function, and all that stands behind
it. -/
theorem trailing_comment_swallows_closing :
    let raw : Block := .mk "runLua" .command [.literal "return 1 -- one"] none
    let text := "do local f = (function() return 1 -- one end)() if f ~= nil then "
      ++ "print(\"pb:0:\" .. _s(f)) end end\n"
    (raw.compileFrom .blank ⟨.id 0, true⟩ .initial).1.toOption = some text ∧
      lex "return 1 -- one".toList
        = some ⟨[.word ['r', 'e', 't', 'u', 'r', 'n'], .numeral ['1']], .comment⟩ ∧
      lex text.toList = some ⟨[.word ['d', 'o'], .word ['l', 'o', 'c', 'a', 'l'], .word ['f'],
        .symbol ['='], .symbol ['('], .word ['f', 'u', 'n', 'c', 't', 'i', 'o', 'n'], .symbol ['('],
        .symbol [')'], .word ['r', 'e', 't', 'u', 'r', 'n'], .numeral ['1']], .between⟩ := by
  intro raw text
  exact ⟨by decide +kernel, by decide +kernel, by decide +kernel⟩

end BlockLink.Lua
