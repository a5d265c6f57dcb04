import BlockLink.Device.Basic
import BlockLink.Proofs.Compile.Source
import BlockLink.Proofs.Event.Vocabulary
import BlockLink.Proofs.Lua.Token

/-!
# `BlockLink/Proofs/Event/Variable.lean` — lines that report a variable

A variable is reported by its name and the text of its value, behind a tag and with colons between
them. The board prints such a line whenever a variable is set, and generated code prints the same
line: the tag and the name as one string, and behind it what `_s` makes of the value.

The reader splits at the first two colons. The value may hold more of them, but a name that holds
one is cut there, and the rest of it goes to the value. So the line says which variable was set
exactly if there is no colon in its name (`variable_line_read_iff`).
-/

set_option autoImplicit false

namespace BlockLink

open BlockLink.Text Operands

/-! ## What generated code prints

The report is read as tokens. What `_s` makes of a value is not part of the reading: it is given as
a function from the name of a variable to the text of its value. -/

namespace Lua

/-- The bytes of strings and of the text of a variable, put together, up to the bracket behind them.
What `_s` makes of the value of each variable is given. -/
def joined? (text : List UInt8 → List UInt8) : List Token → Option (List UInt8)
  | .string bytes :: .symbol ['.', '.'] :: rest => (joined? text rest).map (bytes ++ ·)
  | [.word ['_', 's'], .symbol ['('], .word ['v', 'a', 'r', 's'], .symbol ['['], .string name,
      .symbol [']'], .symbol [')'], .symbol [')']] => some (text name)
  | _ => none

/-- What a call of `print` prints. -/
def printed? (text : List UInt8 → List UInt8) : List Token → Option (List UInt8)
  | .word ['p', 'r', 'i', 'n', 't'] :: .symbol ['('] :: rest => joined? text rest
  | _ => none

/-- The tokens of the call that reports a variable. -/
def reportTokens (name : String) : List Token :=
  [.word ['p', 'r', 'i', 'n', 't'], .symbol ['('], .string (textBytes ("vv:" ++ name ++ ":")),
    .symbol ['.', '.'], .word ['_', 's'], .symbol ['('], .word ['v', 'a', 'r', 's'], .symbol ['['],
    .string (textBytes name), .symbol [']'], .symbol [')'], .symbol [')']]

/-- The call prints the line, whatever text the variable has by then. -/
theorem printed?_reportTokens {text : List UInt8 → List UInt8} {name value : String}
    (h : text (textBytes name) = textBytes value) :
    printed? text (reportTokens name) = some (textBytes (Device.variableLine name value)) := by
  have hline : textBytes (Device.variableLine name value)
      = textBytes ("vv:" ++ name ++ ":") ++ text (textBytes name) := by
    rw [h, ← textBytes_append, Device.variableLine]
  rw [hline]
  rfl

/-- The report in the parts in which it is lexed: strings, and the text around them. -/
theorem toList_reportVariable (name : String) :
    (Template.reportVariable name).render.toList
      = ' ' :: ("print(".toList ++ (quote ("vv:" ++ name ++ ":")).toList ++ " .. _s(vars[".toList
          ++ (quote name).toList ++ "]))\n".toList) := by
  simp [Template.reportVariable, Template.variableTag, variableText]

/-- The report has no comment and no open string, so the lexer gets through it and is between tokens
behind it. -/
theorem run_reportVariable (name : String) :
    Lexer.run .gap ("print(".toList ++ (quote ("vv:" ++ name ++ ":")).toList
      ++ " .. _s(vars[".toList
      ++ (quote name).toList ++ "]))\n".toList) = some (reportTokens name, .gap) := by
  have hcall : Lexer.run .gap "print(".toList
      = some ([.word ['p', 'r', 'i', 'n', 't'], .symbol ['(']], .gap) := by decide +kernel
  have hjoin : Lexer.run .gap " .. _s(vars[".toList
      = some ([.symbol ['.', '.'], .word ['_', 's'], .symbol ['('], .word ['v', 'a', 'r', 's']],
        .square 0) := by decide +kernel
  have hclose : Lexer.run .gap "]))\n".toList
      = some ([.symbol [']'], .symbol [')'], .symbol [')']], .gap) := by decide +kernel
  exact Lexer.run_append_of_eq (Lexer.run_append_of_eq (Lexer.run_append_of_eq
    (Lexer.run_append_of_eq hcall (Lexer.run_quote _)) hjoin) (Lexer.run_square_quote name)) hclose

/-- Behind an assignment that ends between tokens, the report is a call of its own. -/
theorem lex_reportVariable {assignment : String} {lexed : Lexed}
    (hlexed : lex assignment.toList = some lexed) (hends : lexed.ending = .between)
    (name rest : String) :
    lex (assignment ++ (Template.reportVariable name).render ++ rest).toList
      = (lex rest.toList).map (·.behind (lexed.tokens ++ reportTokens name)) := by
  have hrun := Lexer.run_append_of_eq (run_blank_of_between hlexed hends) (run_reportVariable name)
  rw [List.append_assoc, List.singleton_append, ← toList_reportVariable] at hrun
  rw [String.toList_append, String.toList_append]
  exact lex_append hrun rest.toList

end Lua

/-! ## The blocks that set a variable

Each of them writes the same report behind the assignment, whatever the value is computed from. -/

theorem Operands.fill_global (ops : Operands) (name : String) (ps : List Piece) :
    ops.fill (Layout.global name ++ ps) = (ops.fill ps).map (variableText name ++ ·) := by
  have hglobal : ops.fill (Layout.global name) = some (variableText name) := by
    simp [Layout.global, variableText, String.append_assoc]
  rw [fill_append, hglobal, Option.bind_some]

theorem Operands.fill_reportVariable (ops : Operands) (name : String) :
    ops.fill (Layout.reportVariable name) = some (Template.reportVariable name).render := by
  rw [Layout.reportVariable]
  simp only [fill_text, fill_quoted, fill_global, fill_nil, Option.map_some]
  simp [Template.reportVariable, Template.variableTag, String.append_assoc]

/-- Whatever the value is, the report stands behind it. -/
theorem Operands.exists_of_fill_report {ops : Operands} {p : Piece} {name x : String}
    (h : ops.fill (p :: Layout.reportVariable name) = some x) :
    ∃ a, x = a ++ (Template.reportVariable name).render := by
  cases hp : ops.written? p with
  | none =>
    rw [fill_eq_none List.mem_cons_self hp] at h
    cases h
  | some a =>
    rw [fill_cons hp, fill_reportVariable] at h
    cases h
    exact ⟨a, rfl⟩

/-- A block that sets or changes a variable compiles to an assignment and the report of that
variable. -/
theorem exists_of_compile_variable {board : Board} {ctx : Context} {s : CompileState}
    {selector : Selector} {kind : BlockKind} {inputs : List Slot} {next : Option Block}
    {name source : String} (hsel : selector = .doSetVar ∨ selector = .doChangeVar)
    (hname : Layout.name? (Slot.shapesOf inputs) = some name)
    (h : ((Block.mk selector.name kind inputs next).compileFrom board ctx s).1 = .ok source) :
    ∃ value rest, source = variableText name ++ " = " ++ value
      ++ (Template.reportVariable name).render
      ++ rest ∧ (next = none → rest = "") := by
  have hsource := Block.source?_eq_some_iff.2 ⟨h, rfl⟩
  obtain ⟨items, ps, own, rest, m₁, m₂, hitems, hps, hfill, hbelow, rfl⟩ :=
    Block.exists_of_source? (Selector.ofName?_name selector)
      -- Setting writes the value as it is. Changing reads the variable first, and the sum is the
      -- value.
      (by rcases hsel with rfl | rfl <;> decide) hsource
  rw [Slot.sources?_operandsOf] at hitems
  rw [Slot.map_blank_of_sources? inputs hitems] at hps
  have hrest : next = none → rest = "" := by
    rintro rfl
    cases hbelow
    rfl
  have hvalue : ∃ value, own = variableText name ++ " = " ++ value
      ++ (Template.reportVariable name).render := by
    rcases hsel with rfl | rfl
    · change (Layout.name? (Slot.shapesOf inputs)).map _ = some ps at hps
      rw [hname] at hps
      cases hps
      rw [fill_global, fill_text, Option.map_map] at hfill
      obtain ⟨_, hreport, rfl⟩ := Option.map_eq_some_iff.1 hfill
      obtain ⟨value, rfl⟩ := exists_of_fill_report hreport
      exact ⟨value, by simp only [Function.comp_apply, String.append_assoc]⟩
    · change (Layout.name? (Slot.shapesOf inputs)).map _ = some ps at hps
      rw [hname] at hps
      cases hps
      rw [fill_global, fill_text, fill_global, fill_text, Option.map_map, Option.map_map,
        Option.map_map] at hfill
      obtain ⟨_, hreport, rfl⟩ := Option.map_eq_some_iff.1 hfill
      obtain ⟨change, rfl⟩ := exists_of_fill_report hreport
      have hsplit : " = (tonumber(" = " = " ++ "(tonumber(" := rfl
      exact ⟨"(tonumber(" ++ variableText name ++ ") or 0) + " ++ change, by
        simp only [Function.comp_apply, hsplit, String.append_assoc]⟩
  obtain ⟨value, rfl⟩ := hvalue
  exact ⟨value, rest, rfl, hrest⟩

/-! ## Reading the line

The reader takes the field up to the first colon as the tag, up to the second as the name and the
rest as the value. -/

namespace Event

theorem toList_variableLine (name value : String) :
    (Device.variableLine name value).toList
      = ['v', 'v'] ++ ':' :: (name.toList ++ ':' :: value.toList) := by
  simp [Device.variableLine]

theorem ofLine_of_noLineEnd {line : String} (h : ∀ c ∈ line.toList, c ≠ '\r' ∧ c ≠ '\n') :
    ofLine line = ofChars line.toList := by
  have hstrips : Strips line line.toList :=
    ⟨[], by simp, by simp, fun c hc => h c (List.mem_of_getLast? hc)⟩
  rw [ofLine, stripLineEnd_eq_iff.2 hstrips]

theorem ofChars_variable {key : List Char} (hkey : ':' ∉ key) (hne : key ≠ []) (value : List Char) :
    ofChars (['v', 'v'] ++ ':' :: (key ++ ':' :: value))
      = .variableValue (String.ofList key) (String.ofList value) :=
  ofChars_tagged (by decide) hkey (by simp [tagged?, hne])

/-- Without a name there is no variable. -/
theorem ofChars_variable_nil (value : List Char) :
    ofChars (['v', 'v'] ++ ':' :: ([] ++ ':' :: value))
      = untagged (['v', 'v'] ++ ':' :: ':' :: value) := by
  rw [ofChars, if_neg (ne_chunkReady_of_colon _ _)]
  rfl

/-- A name with a colon is not read back: the field ends at the colon. -/
theorem ofChars_variable_of_colon {name : List Char} (h : ':' ∈ name) (value : List Char) :
    ofChars (['v', 'v'] ++ ':' :: (name ++ ':' :: value))
      ≠ .variableValue (String.ofList name) (String.ofList value) := by
  obtain ⟨first, more, rfl, hfirst⟩ := List.eq_append_cons_of_mem h
  have hsplit : (first ++ ':' :: more) ++ ':' :: value
      = first ++ ':' :: (more ++ ':' :: value) := by simp
  rw [hsplit]
  by_cases hne : first = []
  · subst hne
    rw [ofChars_variable_nil, untagged]
    split <;> simp
  · rw [ofChars_variable hfirst hne]
    intro heq
    -- The name that is read has no colon.
    have hname : first = first ++ ':' :: more := by
      simpa using congrArg String.toList (Event.variableValue.inj heq).1
    exact hfirst (by rw [hname]; simp)

/-- On one line, without line ends in it, the reader gives the variable back exactly if its name has
no colon. -/
theorem ofLine_variableLine_iff {name value : String} (hname : name ≠ "")
    (hline : ∀ c ∈ name.toList ++ value.toList, c ≠ '\r' ∧ c ≠ '\n') :
    ofLine (Device.variableLine name value) = .variableValue name value ↔ ':' ∉ name.toList := by
  -- Nothing is taken off the end of the line.
  have hchars : ∀ c ∈ (Device.variableLine name value).toList, c ≠ '\r' ∧ c ≠ '\n' := by
    intro c hc
    rw [toList_variableLine] at hc
    simp only [List.mem_append, List.mem_cons, List.not_mem_nil, or_false] at hc
    rcases hc with (rfl | rfl) | rfl | hc | rfl | hc
    · decide
    · decide
    · decide
    · exact hline c (List.mem_append_left _ hc)
    · decide
    · exact hline c (List.mem_append_right _ hc)
  rw [ofLine_of_noLineEnd hchars, toList_variableLine]
  constructor
  · intro h hcolon
    exact ofChars_variable_of_colon hcolon value.toList (by simpa using h)
  · intro hcolon
    rw [ofChars_variable hcolon (by simpa using hname)]
    simp

end Event

/-- Setting a variable prints its line, and so does the code of a block that sets or changes it,
whatever text the variable then has: the report is a call of its own behind any assignment that ends
between tokens. The line is read as that variable with that value exactly if the name holds no
colon. -/
theorem variable_line_read_iff {name value : String} (hname : name ≠ "")
    (hline : ∀ c ∈ name.toList ++ value.toList, c ≠ '\r' ∧ c ≠ '\n') :
    (∀ d : Device, (d.setVar name value).output = d.output ++ [Device.variableLine name value]) ∧
    (∀ (board : Board) (ctx : Context) (s : CompileState) (selector : Selector) (kind : BlockKind)
        (inputs : List Slot) (next : Option Block) (source : String),
      selector = .doSetVar ∨ selector = .doChangeVar →
      Layout.name? (Slot.shapesOf inputs) = some name →
      ((Block.mk selector.name kind inputs next).compileFrom board ctx s).1 = .ok source →
      ∃ assigned rest, source
          = variableText name ++ " = " ++ assigned ++ (Template.reportVariable name).render
          ++ rest ∧
        (next = none → rest = "") ∧
        (∀ lexed, Lua.lex (variableText name ++ " = " ++ assigned).toList = some lexed →
          lexed.ending = .between → Lua.lex source.toList
            = (Lua.lex rest.toList).map (·.behind (lexed.tokens ++ Lua.reportTokens name)))) ∧
    (∀ text : List UInt8 → List UInt8, text (textBytes name) = textBytes value →
      Lua.printed? text (Lua.reportTokens name)
        = some (textBytes (Device.variableLine name value))) ∧
    (Event.ofLine (Device.variableLine name value) = .variableValue name value
      ↔ ':' ∉ name.toList) := by
  refine ⟨fun d => rfl, ?_, fun text => Lua.printed?_reportTokens,
    Event.ofLine_variableLine_iff hname hline⟩
  intro board ctx s selector kind inputs next source hsel hnamed h
  obtain ⟨assigned, rest, rfl, hrest⟩ := exists_of_compile_variable hsel hnamed h
  exact ⟨assigned, rest, rfl, hrest, fun lexed hlexed hends => Lua.lex_reportVariable hlexed
    hends name rest⟩

/-- A name beyond ASCII and a value with a colon, set by a block. -/
theorem variable_line_read_value_colon :
    let set : Block := .mk Selector.doSetVar.name .command [.upvar "größe", .literal "1:2"] none
    "größe" ≠ "" ∧ (∀ c ∈ "größe".toList ++ "1:2".toList, c ≠ '\r' ∧ c ≠ '\n') ∧
      (Device.initial.setVar "größe" "1:2").output = ["vv:größe:1:2"] ∧
      (∃ source, (set.compileFrom .blank ⟨.id 0, true⟩ .initial).1 = .ok source ∧
        ∃ assigned, source
          = variableText "größe" ++ " = " ++ assigned ++ (Template.reportVariable "größe").render) ∧
      Lua.printed? (fun _ => textBytes "1:2") (Lua.reportTokens "größe")
        = some (textBytes "vv:größe:1:2") ∧
      Event.ofLine "vv:größe:1:2" = .variableValue "größe" "1:2" := by
  intro set
  have hname : "größe" ≠ "" := by decide
  have hline : ∀ c ∈ "größe".toList ++ "1:2".toList, c ≠ '\r' ∧ c ≠ '\n' := by
    intro c hc
    have hall : ("größe".toList ++ "1:2".toList).all (fun c => !Event.isLineEnd c) = true := by
      decide
    have hends := List.all_eq_true.1 hall c hc
    rw [Bool.not_eq_true'] at hends
    exact Event.isLineEnd_eq_false_iff.1 hends
  obtain ⟨hset, hcode, hprinted, hread⟩ := @variable_line_read_iff "größe" "1:2" hname hline
  have hok : (set.compileFrom .blank ⟨.id 0, true⟩ .initial).1.isOk = true := by decide +kernel
  obtain ⟨source, hsource⟩ := Block.exists_eq_ok hok
  obtain ⟨assigned, rest, heq, hrest, -⟩ := hcode .blank _ _ _ _ _ _ source (.inl rfl) rfl hsource
  rw [hrest rfl, String.append_empty] at heq
  exact ⟨hname, hline, hset .initial, ⟨source, hsource, assigned, heq⟩, hprinted _ rfl,
    hread.2 (by decide)⟩

/-- A colon in the name ends it, and what is behind goes to the value. -/
theorem variable_line_cuts_name :
    (Device.initial.setVar "a:b" "1").output = ["vv:a:b:1"] ∧
      ((Block.mk "doSetVar" .command [.literal "a:b", .literal "1"] none).compileFrom .blank
          ⟨.id 0, true⟩ .initial).1.toOption
        = some "vars[\"a:b\"] = 1 print(\"vv:a:b:\" .. _s(vars[\"a:b\"]))\n" ∧
      Event.ofLine "vv:a:b:1" = .variableValue "a" "b:1" ∧
      Event.ofLine "vv:a:b:1" ≠ .variableValue "a:b" "1" := by
  exact ⟨rfl, by decide +kernel, by decide +kernel, by decide +kernel⟩

end BlockLink
