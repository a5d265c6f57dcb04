import BlockLink.Proofs.Lua.Outline
import BlockLink.Proofs.Lua.PinPhrase
import BlockLink.Proofs.Lua.Template

/-!
# `BlockLink/Proofs/Pins/Signs.lean` — what each block writes has the signs of its labels

Compiled code carries labels: which of its pieces are guards, uses of pins and pauses, and which are
loops and branches. `Code.signs` lists what the labels say, in the vocabulary of the reader, and
`Code.ReadsValue` and `Code.ReadsScript` are that the text of the code is read with exactly that
list.

One lemma for each template shows that it keeps this: if the operands are read with the signs of
their labels, so is what the block writes around them. The blocks that make functions, splice in
code as it is typed, or skip an operand are left out (`Selector.isPlain`). The main statements are
`Template.readsScript_emit` and `Template.readsValue_emit`, over all the others.

All of it is under `Board.NamesTold`: the names on the board are made of the characters that names
are made of, and if the condition `P` holds they can be read.
-/

set_option autoImplicit false

namespace BlockLink

open BlockLink.Text BlockLink.Lua

/-! ## The signs of labels -/

/-- The name that the board has for a pin in a mode. -/
def Board.name? (board : Board) (mode : PinMode) (pin : Pin) : Option String :=
  board.pinout.bind fun pinout => (pinout.table mode).get? pin

/-- What the board calls a pin where it is used. -/
def Board.handle (board : Board) (mode : PinMode) (pin : Pin) : String :=
  handleOf mode pin ((board.name? mode pin).getD "")

namespace Code

/-- The signs that the labels of code stand for. A function that is only made leaves none. -/
def signs (board : Board) : Code → List Sign
  | .text _ | .function _ _ => []
  | .seq a b => a.signs board ++ b.signs board
  | .pause => [.pause]
  | .guard pin mode _ => [.guard (wordText pin) mode]
  | .access pin mode _ => [.use mode (board.handle mode pin)]
  | .whileLoop c b => .loop :: (c.signs board ++ .next :: (b.signs board ++ [.close]))
  | .forLoop c b => c.signs board ++ .many :: (b.signs board ++ [.close])
  | .ifThen c y => c.signs board ++ .branch :: (y.signs board ++ [.next, .close])
  | .ifElse c y n =>
    c.signs board ++ .branch :: (y.signs board ++ .next :: (n.signs board ++ [.close]))
  | .shortCircuit l _ r => l.signs board ++ .branch :: (r.signs board ++ [.next, .close])
  | .runNow b => b.signs board

@[simp]
theorem signs_text (board : Board) (s : String) : (Code.text s).signs board = [] := rfl

@[simp]
theorem signs_empty (board : Board) : Code.empty.signs board = [] := rfl

@[simp]
theorem signs_append (board : Board) (a b : Code) :
    (a ++ b).signs board = a.signs board ++ b.signs board := rfl

/-- Wherever a value may stand, the text of the code is read as one with the signs of its labels. -/
def ReadsValue (P : Prop) (board : Board) (c : Code) : Prop :=
  IsValue P c.render.toList (c.signs board)

/-- Wherever a statement may stand, the text of the code is read as statements with the signs of its
labels. -/
def ReadsScript (P : Prop) (board : Board) (c : Code) : Prop :=
  IsStatements P c.render.toList (c.signs board)

variable {P : Prop} {board : Board} {c d : Code} {parts : List Part} {hs : List (List Sign)}
  {o : Outline}

theorem ReadsValue.fits (h : c.ReadsValue P board) :
    Fits P c.render [.expression] [c.signs board] :=
  IsValue.fits h

theorem ReadsScript.fits (h : c.ReadsScript P board) : Fits P c.render [.script] [c.signs board] :=
  IsStatements.fits h

/-- Code is read as a value if its text fits a pattern whose outline, filled in, lists the signs of
its labels. -/
theorem readsValue_of_fits (h : Fits P c.render parts hs) (ho : Sight.valueOutline? parts = some o)
    (hfill : o.fill hs = c.signs board) : c.ReadsValue P board := by
  unfold ReadsValue
  rw [← hfill]
  exact isValue_of_pattern h ho

theorem readsScript_of_fits (h : Fits P c.render parts hs)
    (ho : Sight.statementsOutline? parts = some o) (hfill : o.fill hs = c.signs board) :
    c.ReadsScript P board := by
  unfold ReadsScript
  rw [← hfill]
  exact isStatements_of_pattern h ho

theorem readsScript_empty : Code.empty.ReadsScript P board :=
  isStatements_nil

/-- Statements behind statements: both the text and the signs are put together. -/
theorem ReadsScript.append (hc : c.ReadsScript P board) (hd : d.ReadsScript P board) :
    (c ++ d).ReadsScript P board := by
  unfold ReadsScript
  rw [render_append, String.toList_append, signs_append]
  exact IsStatements.append hc hd

end Code

open Code

/-! ## Operands -/

section Literals

variable {P : Prop} {board : Board}

theorem readsValue_of_lex {s : String} {ts : List Token} (hlex : lex s.toList = some ⟨ts, .between⟩)
    (hrun : Reader.run ⟨[.around false], .operand, []⟩ ts
      = some ([], ⟨[.around false], .settled, []⟩)) : (Code.text s).ReadsValue P board :=
  isValue_of_lex hlex hrun

theorem readsValue_quote (s : String) : (Code.text (quote s)).ReadsValue P board :=
  readsValue_of_fits (fits_quote s) (by decide : _ = some []) rfl

theorem readsValue_number (x : Number) : (Code.text x.text).ReadsValue P board := by
  obtain ⟨text, hlex | hlex⟩ := exists_lex_number x
  · exact readsValue_of_lex hlex rfl
  · exact readsValue_of_lex hlex rfl

theorem readsValue_lua (l : Literal) : (Code.text l.lua).ReadsValue P board := by
  cases l with
  | number x => exact readsValue_number x
  | bool b => cases b <;> exact readsValue_of_lex rfl rfl
  | text s => exact readsValue_quote s

theorem readsValue_luaNumber (l : Literal) : (Code.text l.luaNumber).ReadsValue P board := by
  cases l with
  | number x => exact readsValue_number x
  | bool b => exact readsValue_lua (.bool b)
  | text s =>
    unfold Literal.luaNumber
    dsimp only
    split
    · exact readsValue_of_lex rfl rfl
    · exact readsValue_quote s

theorem fits_variableText (name : String) :
    Fits P (variableText name)
      ([Part.text ['v', 'a', 'r', 's', '[']] ++ [Part.quoted] ++ [Part.text [']']]) [] :=
  (fits_text.append (fits_quote name)).append fits_text

theorem readsValue_variableText (name : String) :
    (Code.text (variableText name)).ReadsValue P board :=
  readsValue_of_fits (fits_variableText name) (by decide : _ = some []) rfl

end Literals

/-- The text of the operand has the signs of its labels. -/
def Operand.Told (P : Prop) (board : Board) : Operand → Prop
  | .literal _ | .name _ => True
  | .expression c => c.ReadsValue P board
  | .script c => c.ReadsScript P board

/-- Operands whose texts have the signs of their labels. -/
def Operands.Told (P : Prop) (board : Board) (ops : Operands) : Prop :=
  ∀ x ∈ ops.items, x.Told P board

namespace Operands.Told

variable {P : Prop} {board : Board} {ops : Operands} {i : Nat} {c : Code}

theorem value (h : ops.Told P board) (hc : ops.value i = .ok c) : c.ReadsValue P board :=
  value_rec (fun _ _ => readsValue_lua _) (fun s _ => readsValue_variableText s)
    (fun _ hd => h _ (List.mem_of_getElem? hd)) hc

theorem number (h : ops.Told P board) (hc : ops.number i = .ok c) : c.ReadsValue P board :=
  number_rec (fun _ _ => readsValue_luaNumber _) (fun _ => h.value) hc

theorem string (h : ops.Told P board) (hc : ops.string i = .ok c) : c.ReadsValue P board := by
  refine string_rec (fun s _ => readsValue_quote s) ?_ hc
  intro v hv
  exact readsValue_of_fits (fits_text |>.append (h.value hv).fits |>.append fits_text)
    (by decide : _ = some [none]) (by simp [Outline.fill])

theorem script (h : ops.Told P board) (hc : ops.script i = .ok c) : c.ReadsScript P board :=
  script_rec readsScript_empty (fun _ hd => h _ (List.mem_of_getElem? hd)) hc

end Operands.Told

/-! ## Parts of templates

For each part the outline of its pattern is evaluated once; filled in with the signs of the operands
it is the list of the labels. -/

namespace Template

variable {P : Prop} {board : Board} {ctx : Context}

theorem readsScript_yieldPoint : (yieldPoint ctx).ReadsScript P board := by
  unfold yieldPoint
  split
  · exact readsScript_of_fits (fits_text |>.append fits_text)
      (by decide : _ = some [some .pause]) rfl
  · exact readsScript_empty

/-- Values with an operator or a comma between each two. -/
theorem readsValue_join {between : List Char}
    (hbetween : Sight.valueOutline? ([Part.expression] ++ [Part.text between] ++ [Part.expression])
      = some [none, none])
    {c : Code} {cs : List Code} (h : ∀ d ∈ c :: cs, d.ReadsValue P board) :
    (Code.join (String.ofList between) (c :: cs)).ReadsValue P board := by
  induction cs generalizing c with
  | nil => exact h c List.mem_cons_self
  | cons d ds ih =>
    have hrest := ih fun e he => h e (List.mem_cons_of_mem _ he)
    exact readsValue_of_fits ((h c List.mem_cons_self).fits |>.append fits_text |>.append
      hrest.fits) hbetween
      (by simp [Outline.fill, Code.join])

theorem readsValue_call {name : List Char} {arg : Code} {args : List Code}
    (hname : Sight.valueOutline?
      ([Part.text name] ++ [Part.text ['(']] ++ [Part.expression] ++ [Part.text [')']])
        = some [none])
    (h : ∀ c ∈ arg :: args, c.ReadsValue P board) :
    (call (String.ofList name) (arg :: args)).ReadsValue P board := by
  have hargs : (Code.join ", " (arg :: args)).ReadsValue P board := readsValue_join (by decide) h
  exact readsValue_of_fits (fits_text |>.append fits_text |>.append hargs.fits |>.append fits_text)
    hname (by simp [Outline.fill, call])

/-- A call is a statement too. -/
theorem readsScript_call {name : List Char} {arg : Code} {args : List Code}
    (hname : Sight.statementsOutline? ([Part.text name] ++ [Part.text ['(']] ++ [Part.expression]
      ++ [Part.text [')']] ++ [Part.text ['\n']]) = some [none])
    (h : ∀ c ∈ arg :: args, c.ReadsValue P board) :
    (call (String.ofList name) (arg :: args) ++ "\n").ReadsScript P board := by
  have hargs : (Code.join ", " (arg :: args)).ReadsValue P board := readsValue_join (by decide) h
  exact readsScript_of_fits (fits_text |>.append fits_text |>.append hargs.fits |>.append fits_text
    |>.append fits_text) hname (by simp [Outline.fill, call])

theorem readsValue_binary {a b : Code} {operator : List Char}
    (hoperator : Sight.valueOutline? ([Part.text ['(']] ++ [Part.expression] ++ [Part.text [' ']] ++
      [Part.text operator] ++ [Part.text [' ']] ++ [Part.expression] ++ [Part.text [')']])
        = some [none, none])
    (ha : a.ReadsValue P board) (hb : b.ReadsValue P board) :
    (binary a (String.ofList operator) b).ReadsValue P board :=
  readsValue_of_fits (fits_text |>.append ha.fits |>.append fits_text |>.append fits_text
    |>.append fits_text |>.append hb.fits |>.append fits_text) hoperator
    (by simp [Outline.fill, binary])

/-- A wait has the signs of its operand, and then of the pause. -/
theorem readsScript_wait {seconds : Code} (h : seconds.ReadsValue P board) :
    (wait ctx seconds).ReadsScript P board := by
  unfold wait
  split
  · exact readsScript_of_fits (fits_text |>.append (fits_text |>.append
      (fits_text |>.append h.fits |>.append fits_text) |>.append fits_text |>.append
      (fits_text |>.append fits_text |>.append fits_text) |>.append fits_text) |>.append fits_text)
      (by decide : _ = some [some .loop, none, some .next, some .pause, some .close])
      (by simp [Outline.fill, Code.signs])
  · exact readsScript_of_fits (fits_text |>.append h.fits |>.append fits_text)
      (by decide : _ = some [none]) (by simp [Outline.fill])

theorem readsScript_waitUntil {condition : Code} (h : condition.ReadsValue P board) :
    (waitUntil ctx condition).ReadsScript P board := by
  unfold waitUntil
  split
  · exact readsScript_of_fits (fits_text |>.append (fits_text |>.append h.fits) |>.append fits_text
      |>.append (fits_text |>.append fits_text |>.append fits_text) |>.append fits_text
      |>.append fits_text) (by decide :
      _ = some [some .loop, none, some .next, some .pause, some .close])
      (by simp [Outline.fill, Code.signs])
  · exact readsScript_of_fits (fits_text |>.append (fits_text |>.append h.fits) |>.append fits_text
      |>.append fits_text |>.append fits_text |>.append fits_text)
      (by decide : _ = some [some .loop, none, some .next, some .close])
      (by simp [Outline.fill, Code.signs])

theorem fits_repr (n : Nat) : Fits P (Nat.repr n) [.digits] [] := by
  apply fits_digits
  rw [Nat.toList_repr]
  exact isDigits_decimal n

theorem readsValue_newList {cs : List Code} (h : ∀ c ∈ cs, c.ReadsValue P board) :
    (newList cs).ReadsValue P board := by
  cases cs with
  | nil => exact readsValue_of_fits fits_text (by decide : _ = some []) rfl
  | cons c cs =>
    have hitems : (Code.join ", " (c :: cs)).ReadsValue P board := readsValue_join (by decide) h
    exact readsValue_of_fits (fits_text |>.append hitems.fits |>.append fits_text
      |>.append (fits_repr _) |>.append fits_text) (by decide : _ = some [none])
      (by simp [Outline.fill, newList])

theorem readsValue_joinWords {cs : List Code} (h : ∀ c ∈ cs, c.ReadsValue P board) :
    (joinWords cs).ReadsValue P board := by
  cases cs with
  | nil => exact readsValue_quote ""
  | cons c cs =>
    have hitems : (Code.join " .. " (c :: cs)).ReadsValue P board := readsValue_join (by decide) h
    exact readsValue_of_fits (fits_text |>.append hitems.fits |>.append fits_text)
      (by decide : _ = some [none]) (by simp [Outline.fill, joinWords])

/-- The functions of the menu have no signs of their own. -/
theorem readsValue_of_monadic? {f front back : String}
    (hf : monadic? f = some (front, back)) {x : Code} (hx : x.ReadsValue P board) :
    ("(" ++ Code.text front ++ x ++ Code.text back ++ ")").ReadsValue P board := by
  -- One pattern for each line of the table.
  obtain ⟨earlier, later, htable, -⟩ := List.lookup_eq_some_iff.1 hf
  have hmem : (f, front, back) ∈ earlier ++ (f, front, back) :: later := by simp
  rw [← htable] at hmem
  simp only [List.mem_cons, Prod.mk.injEq, List.not_mem_nil, or_false] at hmem
  rcases hmem with ⟨-, rfl, rfl⟩ | ⟨-, rfl, rfl⟩ | ⟨-, rfl, rfl⟩ | ⟨-, rfl, rfl⟩ | ⟨-, rfl, rfl⟩ |
    ⟨-, rfl, rfl⟩ | ⟨-, rfl, rfl⟩ | ⟨-, rfl, rfl⟩ | ⟨-, rfl, rfl⟩ | ⟨-, rfl, rfl⟩ | ⟨-, rfl, rfl⟩ |
    ⟨-, rfl, rfl⟩ | ⟨-, rfl, rfl⟩ | ⟨-, rfl, rfl⟩
  all_goals
    exact readsValue_of_fits (fits_text |>.append fits_text |>.append hx.fits |>.append fits_text
      |>.append fits_text) (by decide : _ = some [none]) (by simp [Outline.fill])

theorem readsValue_monadic {ops : Operands} (h : ops.Told P board) {c : Code}
    (hc : monadic ops = .ok c) : c.ReadsValue P board := by
  obtain ⟨x, -, hc⟩ := exists_of_bind_eq_ok hc
  cases x with
  | literal s =>
    obtain ⟨operand, hoperand, hc⟩ := exists_of_bind_eq_ok hc
    split at hc
    · rename_i hf
      cases hc
      exact readsValue_of_monadic? hf (h.number hoperand)
    · cases hc
  | name s | expression code | script code => cases hc

theorem fits_reportVariable (name : String) : Fits P (reportVariable name).render
    ([Part.text [' ', 'p', 'r', 'i', 'n', 't', '(']] ++ [Part.quoted] ++
      [Part.text [' ', '.', '.', ' ', '_', 's', '(']] ++
      ([Part.text ['v', 'a', 'r', 's', '[']] ++ [Part.quoted] ++ [Part.text [']']]) ++
      [Part.text [')', ')', '\n']]) [] :=
  fits_text |>.append (fits_quote _) |>.append fits_text |>.append (fits_variableText name)
    |>.append fits_text

/-! ## Pins -/

/-- Where nothing has to be escaped, a literal is the text in quotes. -/
theorem quote_eq_append {s : String} (h : ∀ c ∈ s.toList, quoteChar c = [c]) :
    quote s = "\"" ++ s ++ "\"" := by
  have hbody : quoteBody s.toList = s.toList := by
    rw [quoteBody, List.flatMap_congr h, List.flatMap_singleton']
  rw [← String.toList_inj, toList_quote, hbody, String.toList_append, String.toList_append]
  rfl

theorem quoteChar_of_isDigit {c : Char} (h : c.isDigit = true) : quoteChar c = [c] := by
  have hbounds : 48 ≤ c.toNat ∧ c.toNat ≤ 57 := isDigit_iff.1 h
  have hcontrol : isControl c = false := by simp [isControl]; omega
  have hplain : c ≠ '\\' ∧ c ≠ '"' ∧ c ≠ '\n' ∧ c ≠ '\r' := by
    refine ⟨?_, ?_, ?_, ?_⟩ <;> rintro rfl <;> exact absurd h (by decide)
  simp [quoteChar, hplain, hcontrol]

/-- The report of a write has the number of the pin in its string. -/
theorem fits_reportPin (pin : Pin) :
    Fits P (" print(\"pv:" ++ wordText pin ++ ":\" .. v) end\n")
      ([Part.text [' ', 'p', 'r', 'i', 'n', 't', '(']] ++ [Part.quoted]
        ++ [Part.text [' ', '.', '.', ' ', 'v', ')', ' ', 'e', 'n', 'd', '\n']]) [] := by
  have hplain : ∀ c ∈ ("pv:" ++ wordText pin ++ ":").toList, quoteChar c = [c] := by
    have hfixed : ("pv:".toList ++ ":".toList).all (fun c => quoteChar c == [c]) = true := rfl
    simp only [List.all_eq_true, beq_iff_eq] at hfixed
    intro c hc
    simp only [String.toList_append, toList_wordText, List.mem_append] at hc
    rcases hc with (hc | hc) | hc
    · exact hfixed c (List.mem_append_left _ hc)
    · exact quoteChar_of_isDigit (isDigit_of_mem_wordDigits hc)
    · exact hfixed c (List.mem_append_right _ hc)
  have htext : " print(\"pv:" ++ wordText pin ++ ":\" .. v) end\n"
      = " print(" ++ quote ("pv:" ++ wordText pin ++ ":") ++ " .. v) end\n" := by
    have hopen : " print(\"pv:" = " print(" ++ "\"" ++ "pv:" := rfl
    have hclose : ":\" .. v) end\n" = ":" ++ "\"" ++ " .. v) end\n" := rfl
    rw [quote_eq_append hplain, hopen, hclose]
    simp only [String.append_assoc]
  rw [htext]
  exact fits_text |>.append (fits_quote _) |>.append fits_text

end Template

/-- The names of the board are read where they are spliced in, if the condition holds. -/
def Board.NamesTold (P : Prop) (board : Board) : Prop :=
  ∀ mode pin name, board.name? mode pin = some name →
    Admits mode name ∧ (P → isReadable mode name = true)

namespace Template

variable {P : Prop} {board : Board} {ctx : Context} {s s' : CompileState} {ops : Operands}
  {items : List Operand} {c : Code} {mode : PinMode} {pin : Pin} {name : String}

theorem name?_of_resolvePin (h : (resolvePin board ops mode).Gives s (some (pin, name)) s') :
    board.name? mode pin = some name := by
  obtain ⟨pinout, hpinout, hget⟩ := get?_of_resolvePin h
  rw [Board.name?, hpinout, Option.bind_some, hget]

theorem handle_eq (hname : board.name? mode pin = some name) :
    board.handle mode pin = handleOf mode pin name := by
  rw [Board.handle, hname, Option.getD_some]

section Named

variable (hboard : board.NamesTold P) (hname : board.name? mode pin = some name)

include hboard hname

theorem readsScript_guard : (Code.guard pin mode (setup pin name mode)).ReadsScript P board :=
  isStatements_guard (hboard _ _ _ hname).1 (hboard _ _ _ hname).2 pin

theorem readsScript_access :
    (Code.access pin mode (operation pin name mode)).ReadsScript P board := by
  unfold Code.ReadsScript
  rw [Code.signs, handle_eq hname]
  exact isStatements_operation (hboard _ _ _ hname).1 (hboard _ _ _ hname).2 pin

/-- A write is read as its guard, if there is one, the level, and then the use. -/
theorem readsScript_writePin {guard : Option Code}
    (hguard : ∀ g ∈ guard, g = .guard pin mode (setup pin name mode)) {level : Code}
    (hlevel : level.ReadsValue P board) :
    (writePin guard pin name mode level).ReadsScript P board := by
  have hfront : (guard.getD .empty).ReadsScript P board := by
    cases guard with
    | none => exact readsScript_empty
    | some g =>
      rw [Option.getD_some, hguard g rfl]
      exact readsScript_guard hboard hname
  exact readsScript_of_fits (hfront.fits |>.append fits_text |>.append hlevel.fits
    |>.append fits_text
    |>.append (readsScript_access hboard hname).fits |>.append (fits_reportPin pin))
    (by decide : _ = some [none, none, none]) (by simp [Outline.fill, writePin])

/-- A reading is read as its guard, if there is one, and the use. -/
theorem readsValue_readPin (hmode : mode = .input ∨ mode = .analog) {guard : Option Code}
    (hguard : ∀ g ∈ guard, g = .guard pin mode (setup pin name mode)) :
    (readPin guard pin name mode).ReadsValue P board := by
  obtain ⟨hadmits, hreadable⟩ := hboard _ _ _ hname
  unfold Code.ReadsValue
  cases guard with
  | none =>
    have hsigns : (readPin none pin name mode).signs board
        = [.use mode (handleOf mode pin name)] := by
      rw [← handle_eq hname]
      rfl
    rw [hsigns]
    exact isValue_operation hadmits hreadable pin
  | some g =>
    obtain rfl := hguard g rfl
    have hsigns : (readPin (some (.guard pin mode (setup pin name mode))) pin name mode).signs board
        = [.guard (wordText pin) mode, .use mode (handleOf mode pin name)] := by
      rw [← handle_eq hname]
      rfl
    rw [hsigns]
    exact isValue_readPin hadmits hreadable hmode pin

end Named

theorem readsValue_level (h : ops.Told P board) (hc : level ops = .ok c) :
    c.ReadsValue P board := by
  refine Operands.level_rec ?_ ?_ hc
  · intro s _
    split
    · exact readsValue_of_lex rfl rfl
    · exact readsValue_of_lex rfl rfl
  · intro v hv
    exact readsValue_call (by decide) (by simp [h.value hv])

/-- A block that reads a pin, which the board may not have. -/
theorem readsValue_readBlock (hboard : board.NamesTold P) (hmode : mode = .input ∨ mode = .analog)
    (hc : (readBlock board ops mode).Gives s c s') : c.ReadsValue P board := by
  obtain ⟨named, t, hnamed, hc⟩ := CompileM.gives_bind.1 hc
  cases named with
  | none =>
    obtain ⟨rfl, -⟩ := CompileM.gives_pure.1 hc
    exact readsValue_of_lex rfl rfl
  | some named =>
    obtain ⟨guard, u, hguard, hc⟩ := CompileM.gives_bind.1 hc
    obtain ⟨rfl, -⟩ := CompileM.gives_pure.1 hc
    exact readsValue_readPin hboard (name?_of_resolvePin hnamed) hmode (guard_of_requireMode hguard)

theorem fits_connect (broker : Broker) {cs : List Char} :
    Fits P (broker.connect ++ String.ofList (' ' :: cs))
      ([Part.script] ++ [Part.text cs]) [[]] := by
  have hscript : IsStatements P (broker.connect ++ " ").toList [] :=
    isStatements_of_pattern (o := []) (fits_text |>.append (fits_quote _) |>.append fits_text
      |>.append (fits_quote _) |>.append fits_text |>.append (fits_repr _) |>.append fits_text
      |>.append (fits_quote _) |>.append fits_text |>.append (fits_quote _) |>.append fits_text
      |>.append fits_text) (by decide)
  have hblank : String.ofList ([' '] ++ cs) = " " ++ String.ofList cs := String.ofList_append
  rw [← List.singleton_append, hblank, ← String.append_assoc]
  exact hscript.fits.append fits_text

/-! ## Every block -/

end Template

/-- A block that hands on no function, splices in no code and skips no operand. -/
def Selector.isPlain : Selector → Bool
  | .doRun | .evaluate | .runLua | .reifyScript | .reifyReporter | .reportAnd | .reportOr
  | .subscribeToMqttMessage => false
  | _ => true

namespace Template

variable {P : Prop} {board : Board} {ctx : Context} {s s' : CompileState}
  {items : List Operand} {c : Code} {selector : Selector}

/-- The statements that depend on their operands alone, pattern by pattern. -/
theorem readsScript_plain (hsel : selector.isReporter = false)
    (h : Operands.Told P board ⟨selector, items⟩) (hc : plain ctx ⟨selector, items⟩ = .ok c) :
    c.ReadsScript P board := by
  have hyield : (yieldPoint ctx).ReadsScript P board := readsScript_yieldPoint
  cases selector with
  | doWait =>
    obtain ⟨seconds, hseconds, hc⟩ := exists_of_bind_eq_ok hc
    cases hc
    exact readsScript_wait (h.number hseconds)
  | doWaitUntil =>
    obtain ⟨condition, hcondition, hc⟩ := exists_of_bind_eq_ok hc
    cases hc
    exact readsScript_waitUntil (h.value hcondition)
  | doForever =>
    obtain ⟨body, hbody, hc⟩ := exists_of_bind_eq_ok hc
    cases hc
    exact readsScript_of_fits (fits_text |>.append fits_text |>.append fits_text |>.append
      (fits_text |>.append (h.script hbody).fits |>.append hyield.fits) |>.append fits_text
      |>.append fits_text) (by decide : _ = some [some .loop, some .next, none, none, some .close])
      (by simp [Outline.fill, Code.signs])
  | doRepeat =>
    obtain ⟨count, hcount, hc⟩ := exists_of_bind_eq_ok hc
    obtain ⟨body, hbody, hc⟩ := exists_of_bind_eq_ok hc
    cases hc
    exact readsScript_of_fits (fits_text |>.append (h.number hcount).fits |>.append
      fits_text |>.append
      (fits_text |>.append (h.script hbody).fits |>.append hyield.fits) |>.append fits_text
      |>.append fits_text) (by decide : _ = some [none, some .many, none, none, some .close])
      (by simp [Outline.fill, Code.signs])
  | doIf =>
    obtain ⟨condition, hcondition, hc⟩ := exists_of_bind_eq_ok hc
    obtain ⟨yes, hyes, hc⟩ := exists_of_bind_eq_ok hc
    cases hc
    exact readsScript_of_fits (fits_text |>.append (h.value hcondition).fits |>.append
      fits_text |>.append
      (fits_text |>.append (h.script hyes).fits) |>.append fits_text |>.append fits_text)
      (by decide : _ = some [none, some .branch, none, some .next, some .close])
      (by simp [Outline.fill, Code.signs])
  | doIfElse =>
    obtain ⟨condition, hcondition, hc⟩ := exists_of_bind_eq_ok hc
    obtain ⟨yes, hyes, hc⟩ := exists_of_bind_eq_ok hc
    obtain ⟨no, hno, hc⟩ := exists_of_bind_eq_ok hc
    cases hc
    exact readsScript_of_fits (fits_text |>.append (h.value hcondition).fits |>.append
      fits_text |>.append
      (fits_text |>.append (h.script hyes).fits) |>.append fits_text |>.append
      (fits_text |>.append (h.script hno).fits) |>.append fits_text |>.append fits_text)
      (by decide : _ = some [none, some .branch, none, some .next, none, some .close])
      (by simp [Outline.fill, Code.signs])
  | doStopThis | doStopAll =>
    cases hc
    exact readsScript_of_fits fits_text (by decide : _ = some []) rfl
  | doReport =>
    obtain ⟨value, hvalue, hc⟩ := exists_of_bind_eq_ok hc
    cases hc
    exact readsScript_of_fits (fits_text |>.append (h.value hvalue).fits |>.append
      (fits_text |>.append (fits_quote _) |>.append fits_text)) (by decide : _ = some [none])
      (by simp [Outline.fill])
  | doSetVar =>
    obtain ⟨name, -, hc⟩ := exists_of_bind_eq_ok hc
    obtain ⟨value, hvalue, hc⟩ := exists_of_bind_eq_ok hc
    cases hc
    exact readsScript_of_fits ((fits_variableText name).append fits_text |>.append
      (h.value hvalue).fits
      |>.append (fits_reportVariable name)) (by decide : _ = some [none])
      (by simp [Outline.fill, reportVariable])
  | doChangeVar =>
    obtain ⟨name, -, hc⟩ := exists_of_bind_eq_ok hc
    obtain ⟨change, hchange, hc⟩ := exists_of_bind_eq_ok hc
    cases hc
    exact readsScript_of_fits ((fits_variableText name).append fits_text |>.append
      (fits_variableText name)
      |>.append fits_text |>.append (h.number hchange).fits |>.append (fits_reportVariable name))
      (by decide : _ = some [none]) (by simp [Outline.fill, reportVariable])
  | addListItem | deleteListItem =>
    obtain ⟨a, ha, hc⟩ := exists_of_bind_eq_ok hc
    obtain ⟨b, hb, hc⟩ := exists_of_bind_eq_ok hc
    cases hc
    exact readsScript_call (by decide) (by simp [h.value ha, h.value hb])
  | insertListItem | replaceListItem =>
    obtain ⟨a, ha, hc⟩ := exists_of_bind_eq_ok hc
    obtain ⟨b, hb, hc⟩ := exists_of_bind_eq_ok hc
    obtain ⟨d, hd, hc⟩ := exists_of_bind_eq_ok hc
    cases hc
    exact readsScript_call (by decide) (by simp [h.value ha, h.value hb, h.value hd])
  | receiveGo | doRun | runLua | setPinDigital | setPinAnalog | subscribeToMqttMessage
  | publishMqttMessage =>
    -- These have their code from `emit`.
    cases hc
    exact readsScript_empty
  | _ => exact absurd hsel (by simp [Selector.isReporter])

/-- The reporters that depend on their operands alone, pattern by pattern. -/
theorem readsValue_plain (hsel : selector.isReporter = true) (hplain : selector.isPlain = true)
    (hpin : selector ≠ .getPinDigital ∧ selector ≠ .getPinAnalog)
    (h : Operands.Told P board ⟨selector, items⟩) (hc : plain ctx ⟨selector, items⟩ = .ok c) :
    c.ReadsValue P board := by
  cases selector with
  | reportSum | reportDifference | reportProduct | reportQuotient | reportModulus =>
    obtain ⟨a, ha, hc⟩ := exists_of_bind_eq_ok hc
    obtain ⟨b, hb, hc⟩ := exists_of_bind_eq_ok hc
    cases hc
    exact readsValue_binary (by decide) (h.number ha) (h.number hb)
  | reportMonadic => exact readsValue_monadic h hc
  | reportRandom =>
    obtain ⟨a, ha, hc⟩ := exists_of_bind_eq_ok hc
    obtain ⟨b, hb, hc⟩ := exists_of_bind_eq_ok hc
    cases hc
    exact readsValue_call (by decide) (by simp [h.number ha, h.number hb])
  | reportLessThan | reportEquals | reportGreaterThan =>
    obtain ⟨a, ha, hc⟩ := exists_of_bind_eq_ok hc
    obtain ⟨b, hb, hc⟩ := exists_of_bind_eq_ok hc
    cases hc
    exact readsValue_binary (by decide) (h.value ha) (h.value hb)
  -- The brackets and the operator have no signs, and the operand has its own.
  | reportNot =>
    obtain ⟨a, ha, hc⟩ := exists_of_bind_eq_ok hc
    cases hc
    exact readsValue_of_fits (fits_text |>.append (h.value ha).fits |>.append fits_text)
      (by decide : _ = some [none]) (by simp [Outline.fill])
  | reportTrue | reportFalse =>
    cases hc
    exact readsValue_of_lex rfl rfl
  | reportJoinWords =>
    obtain ⟨words, hwords, hc⟩ := exists_of_bind_eq_ok hc
    cases hc
    exact readsValue_joinWords (Operands.forall_of_mapM (fun _ _ => h.string) hwords)
  | reportGetVar =>
    obtain ⟨name, -, hc⟩ := exists_of_bind_eq_ok hc
    cases hc
    exact readsValue_variableText name
  | reportNewList =>
    obtain ⟨values, hvalues, hc⟩ := exists_of_bind_eq_ok hc
    cases hc
    exact readsValue_newList (Operands.forall_of_mapM (fun _ _ => h.value) hvalues)
  | reportListItem | reportListContainsItem =>
    obtain ⟨a, ha, hc⟩ := exists_of_bind_eq_ok hc
    obtain ⟨b, hb, hc⟩ := exists_of_bind_eq_ok hc
    cases hc
    exact readsValue_call (by decide) (by simp [h.value ha, h.value hb])
  | reportListLength =>
    obtain ⟨a, ha, hc⟩ := exists_of_bind_eq_ok hc
    cases hc
    exact readsValue_call (by decide) (by simp [h.value ha])
  | getPinDigital => exact absurd rfl hpin.1
  | getPinAnalog => exact absurd rfl hpin.2
  | evaluate | reifyScript | reifyReporter | reportAnd | reportOr =>
    exact absurd hplain (by simp [Selector.isPlain])
  | _ => exact absurd hsel (by simp [Selector.isReporter])

/-- The code of a statement. -/
theorem readsScript_emit (hboard : board.NamesTold P) (hsel : selector.isReporter = false)
    (hplain : selector.isPlain = true) (h : Operands.Told P board ⟨selector, items⟩)
    (hc : (emit board ctx ⟨selector, items⟩).Gives s c s') : c.ReadsScript P board := by
  cases selector with
  | receiveGo =>
    obtain ⟨rfl, -⟩ := CompileM.gives_pure.1 hc
    exact readsScript_empty
  | setPinDigital =>
    obtain ⟨named, t, hnamed, hc⟩ := CompileM.gives_bind.1 hc
    cases named with
    | none =>
      obtain ⟨rfl, -⟩ := CompileM.gives_pure.1 hc
      exact readsScript_empty
    | some named =>
      obtain ⟨level, u, hlevel, hc⟩ := CompileM.gives_bind.1 hc
      obtain ⟨guard, v, hguard, hc⟩ := CompileM.gives_bind.1 hc
      obtain ⟨rfl, -⟩ := CompileM.gives_pure.1 hc
      exact readsScript_writePin hboard (name?_of_resolvePin hnamed) (guard_of_requireMode hguard)
        (readsValue_level h (CompileM.gives_lift.1 hlevel).1)
  | setPinAnalog =>
    obtain ⟨named, t, hnamed, hc⟩ := CompileM.gives_bind.1 hc
    cases named with
    | none =>
      obtain ⟨rfl, -⟩ := CompileM.gives_pure.1 hc
      exact readsScript_empty
    | some named =>
      obtain ⟨guard, u, hguard, hc⟩ := CompileM.gives_bind.1 hc
      obtain ⟨duty, v, hduty, hc⟩ := CompileM.gives_bind.1 hc
      obtain ⟨rfl, -⟩ := CompileM.gives_pure.1 hc
      exact readsScript_writePin hboard (name?_of_resolvePin hnamed) (guard_of_requireMode hguard)
        (h.number (CompileM.gives_lift.1 hduty).1)
  | publishMqttMessage =>
    -- Without a broker the block does nothing.
    unfold emit at hc
    cases hbroker : board.broker with
    | none =>
      simp only [hbroker] at hc
      obtain ⟨-, t, -, hc⟩ := CompileM.gives_bind.1 hc
      obtain ⟨rfl, -⟩ := CompileM.gives_pure.1 hc
      exact readsScript_empty
    | some broker =>
      simp only [hbroker] at hc
      obtain ⟨topic, t, htopic, hc⟩ := CompileM.gives_bind.1 hc
      obtain ⟨message, u, hmessage, hc⟩ := CompileM.gives_bind.1 hc
      obtain ⟨rfl, -⟩ := CompileM.gives_pure.1 hc
      exact readsScript_of_fits (fits_connect broker
        |>.append (h.string (CompileM.gives_lift.1 htopic).1).fits |>.append fits_text
        |>.append (h.string (CompileM.gives_lift.1 hmessage).1).fits |>.append fits_text)
        (by decide : _ = some [none, none, none]) (by simp [Outline.fill])
  | doWait | doWaitUntil | doForever | doRepeat | doIf | doIfElse | doStopThis | doStopAll
  | doReport
  | doSetVar | doChangeVar | addListItem | deleteListItem | insertListItem | replaceListItem =>
    exact readsScript_plain hsel h (CompileM.gives_lift.1 hc).1
  | doRun | runLua | subscribeToMqttMessage => exact absurd hplain (by simp [Selector.isPlain])
  | _ => exact absurd hsel (by simp [Selector.isReporter])

/-- The code of a reporter. -/
theorem readsValue_emit (hboard : board.NamesTold P) (hsel : selector.isReporter = true)
    (hplain : selector.isPlain = true) (h : Operands.Told P board ⟨selector, items⟩)
    (hc : (emit board ctx ⟨selector, items⟩).Gives s c s') : c.ReadsValue P board := by
  cases selector with
  | getPinDigital => exact readsValue_readBlock hboard (.inl rfl) hc
  | getPinAnalog => exact readsValue_readBlock hboard (.inr rfl) hc
  | reportSum | reportDifference | reportProduct | reportQuotient
  | reportModulus | reportMonadic | reportRandom | reportLessThan | reportEquals | reportGreaterThan
  | reportNot | reportTrue | reportFalse | reportJoinWords | reportGetVar
  | reportNewList | reportListItem | reportListLength | reportListContainsItem =>
    exact readsValue_plain hsel hplain (by decide) h (CompileM.gives_lift.1 hc).1
  | evaluate | reifyScript | reifyReporter | reportAnd | reportOr =>
    exact absurd hplain (by simp [Selector.isPlain])
  | _ => exact absurd hsel (by simp [Selector.isReporter])

end Template

end BlockLink
