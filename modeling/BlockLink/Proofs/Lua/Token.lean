import BlockLink.Proofs.Lua.ShortString
import BlockLink.Text.Identifier

/-!
# `BlockLink/Proofs/Lua/Token.lean` — the tokens of a text of Lua

The lexer of Lua 5.3, one character at a time: words, numerals, strings of both kinds, operators and
other marks, and what stands between them, comments of both kinds included. It fails where Lua does:
at a numeral that is none, at an escape that is none, at a line break in a short string, and at `[=`
that opens nothing.

A token is known only when the next character does not continue it, so the lexer has a state for
every token that it may be in the middle of, and `Lexer.finish` says what the end of the text makes
of it. At its end a text is between tokens, in a comment that runs to the end of the line, or inside
a string or a bracket that was not closed.

A blank ends whatever the end of the text would have ended (`Lexer.step_space`), so the tokens of a
text are the same whether a blank or nothing follows it. The one thing that a blank does not end is
a comment.
-/

set_option autoImplicit false

namespace BlockLink.Lua

open BlockLink.Text

/-! ## Tokens -/

/-- A token. -/
inductive Token where
  /-- A name or a reserved word. -/
  | word (letters : List Char)
  | numeral (text : List Char)
  /-- A string of either kind, by its value. -/
  | string (bytes : List UInt8)
  /-- An operator, a bracket, or another mark. -/
  | symbol (marks : List Char)
  /-- A byte beyond ASCII outside strings, which the grammar has no place for. -/
  | stray (byte : UInt8)
  deriving DecidableEq, Repr

/-- The symbols of several marks, those apart that begin something longer. -/
def longSymbols : List (List Char) :=
  [['=', '='], ['<', '='], ['<', '<'], ['>', '='], ['>', '>'], ['/', '/'], ['~', '='], [':', ':'],
    ['.', '.', '.']]

/-- The marks that may begin a longer symbol, or a comment. -/
def openMarks : List Char :=
  ['-', '=', '<', '>', '/', '~', ':', '.']

/-! ## Numerals

The lexer takes every character that may continue a numeral, and only then looks whether it is one,
as Lua does. -/

/-- Whether what has been read of a numeral marks it as hexadecimal. -/
def isHexadecimal : List Char → Bool
  | '0' :: c :: _ | '.' :: '0' :: c :: _ => c == 'x' || c == 'X'
  | _ => false

/-- Whether a character marks the exponent of a numeral. -/
def isExponentMark (hexadecimal : Bool) (c : Char) : Bool :=
  if hexadecimal then c == 'p' || c == 'P' else c == 'e' || c == 'E'

/-- Whether a character continues what has been read of a numeral. Lua takes all that might belong
to it, and only then looks whether it is one. -/
def continuesNumeral (text : List Char) (c : Char) : Bool :=
  let mark := isExponentMark (isHexadecimal text)
  (digitValue? 16 c).isSome || c == '.' || mark c
    || ((c == 'x' || c == 'X') && (text == ['0'] || text == ['.', '0']))
    || ((c == '+' || c == '-') && text.getLast?.any mark)

/-- Whether a text is digits, at least one. -/
def isDigits (text : List Char) : Bool :=
  !text.isEmpty && text.all isDigit

/-- Whether a text is an exponent, or nothing. -/
def isExponent (hexadecimal : Bool) : List Char → Bool
  | [] => true
  | c :: '+' :: digits | c :: '-' :: digits => isExponentMark hexadecimal c && isDigits digits
  | c :: digits => isExponentMark hexadecimal c && isDigits digits

/-- Whether a text is digits with a point in, in front of or behind them, and an exponent. -/
def isMagnitude (hexadecimal : Bool) (text : List Char) : Bool :=
  let digit (c : Char) : Bool := (digitValue? (if hexadecimal then 16 else 10) c).isSome
  match text.dropWhile digit with
  | '.' :: rest =>
    !(text.takeWhile digit ++ rest.takeWhile digit).isEmpty
      && isExponent hexadecimal (rest.dropWhile digit)
  | rest => !(text.takeWhile digit).isEmpty && isExponent hexadecimal rest

/-- Whether a text is a numeral. -/
def isNumeral : List Char → Bool
  | '0' :: 'x' :: text | '0' :: 'X' :: text => isMagnitude true text
  | text => isMagnitude false text

/-! ## Long brackets -/

/-- The text with every line break, single or a pair, as one line feed. -/
def joinBreaks : List Char → List Char
  | '\r' :: '\n' :: cs | '\n' :: '\r' :: cs => '\n' :: joinBreaks cs
  | '\r' :: cs => '\n' :: joinBreaks cs
  | c :: cs => c :: joinBreaks cs
  | [] => []

/-- The value of a long string. A line break right behind the opening bracket is not part of it. -/
def longBytes (text : List Char) : List UInt8 :=
  match joinBreaks text with
  | '\n' :: cs => cs.flatMap String.utf8EncodeChar
  | cs => cs.flatMap String.utf8EncodeChar

/-! ## The lexer -/

/-- What the lexer is in the middle of. -/
inductive Lexer where
  | gap
  | word (letters : List Char)
  | numeral (text : List Char)
  /-- Marks that may go on. -/
  | symbol (marks : List Char)
  /-- Behind a square bracket and equals signs. -/
  | square (level : Nat)
  /-- Behind two minus signs. -/
  | dashes
  /-- Behind two minus signs, a square bracket and equals signs. -/
  | commentSquare (level : Nat)
  /-- In a comment that ends with the line. -/
  | comment
  | short (quote : Char) (bytes : List UInt8) (place : Short)
  /-- In a long string or a long comment; behind a closing bracket, with the equals signs since. -/
  | long (isComment : Bool) (level : Nat) (text : List Char) (closing : Option Nat)
  deriving DecidableEq, Repr

/-- How a text ends. -/
inductive Ending where
  | between
  /-- In a comment that ends with the line. -/
  | comment
  /-- In a string or a long bracket that was not closed. -/
  | inside
  deriving DecidableEq, Repr

/-- The tokens of a text, and how it ends. -/
structure Lexed where
  tokens : List Token
  ending : Ending
  deriving DecidableEq, Repr

/-- What the rest of a text gives behind tokens. -/
def Lexed.behind (tokens : List Token) (rest : Lexed) : Lexed :=
  ⟨tokens ++ rest.tokens, rest.ending⟩

namespace Lexer

/-- Takes a character between tokens. -/
def start (c : Char) : List Token × Lexer :=
  if isSpace c then ([], gap)
  else if isLetter c || c == '_' then ([], word [c])
  else if isDigit c then ([], numeral [c])
  else if c = '"' ∨ c = '\x27' then ([], short c [] .plain)
  else if c = '[' then ([], square 0)
  else if openMarks.contains c then ([], symbol [c])
  else if c.toNat ≤ 0x7f then ([.symbol [c]], gap)
  else ((String.utf8EncodeChar c).map .stray, gap)

/-- Takes a character behind a token that it does not continue. -/
def startBehind (token : Token) (c : Char) : List Token × Lexer :=
  (token :: (start c).1, (start c).2)

/-- Takes a character in a comment that ends with the line. -/
def inComment (c : Char) : Lexer :=
  if isLineBreak c then gap else comment

/-- Takes a character inside a long bracket. -/
def inLong (isComment : Bool) (level : Nat) (text : List Char) (closing : Option Nat) (c : Char) :
    List Token × Lexer :=
  match closing with
  | none =>
    if c = ']' then ([], long isComment level text (some 0))
    else ([], long isComment level (text ++ [c]) none)
  | some n =>
    -- What looked like a closing bracket is part of the text, unless this character completes it.
    let passed := text ++ ']' :: List.replicate n '='
    if c = '=' then ([], long isComment level text (some (n + 1)))
    else if c = ']' ∧ n = level then (if isComment then [] else [.string (longBytes text)], gap)
    else if c = ']' then ([], long isComment level passed (some 0))
    else ([], long isComment level (passed ++ [c]) none)

/-- Takes a character. The answer is the tokens that it ends, and what the lexer is then in the
middle of. -/
def step : Lexer → Char → Option (List Token × Lexer)
  | gap, c => some (start c)
  | word letters, c =>
    if isNameChar c then some ([], word (letters ++ [c])) else some (startBehind (.word letters) c)
  | numeral text, c =>
    if continuesNumeral text c then some ([], numeral (text ++ [c]))
    else if isNumeral text then some (startBehind (.numeral text) c)
    else none
  | symbol marks, c =>
    if marks = ['-'] ∧ c = '-' then some ([], dashes)
    else if marks = ['.'] ∧ isDigit c then some ([], numeral ['.', c])
    else if marks = ['.'] ∧ c = '.' then some ([], symbol ['.', '.'])
    else if longSymbols.contains (marks ++ [c]) then some ([.symbol (marks ++ [c])], gap)
    else some (startBehind (.symbol marks) c)
  | square level, c =>
    if c = '=' then some ([], square (level + 1))
    else if c = '[' then some ([], long false level [] none)
    else if level = 0 then some (startBehind (.symbol ['[']) c)
    else none
  | dashes, c => if c = '[' then some ([], commentSquare 0) else some ([], inComment c)
  | commentSquare level, c =>
    if c = '=' then some ([], commentSquare (level + 1))
    else if c = '[' then some ([], long true level [] none)
    else some ([], inComment c)
  | comment, c => some ([], inComment c)
  | short quote bytes place, c =>
    match place.step quote bytes c with
    | none => none
    | some (bytes, none) => some ([.string bytes], gap)
    | some (bytes, some place) => some ([], short quote bytes place)
  | long isComment level text closing, c => some (inLong isComment level text closing c)

/-- What the end of the text makes of it. -/
def finish : Lexer → Option Lexed
  | gap => some ⟨[], .between⟩
  | word letters => some ⟨[.word letters], .between⟩
  | numeral text => if isNumeral text then some ⟨[.numeral text], .between⟩ else none
  | symbol marks => some ⟨[.symbol marks], .between⟩
  | square level => if level = 0 then some ⟨[.symbol ['[']], .between⟩ else none
  | dashes | commentSquare _ | comment => some ⟨[], .comment⟩
  | short .. | long .. => some ⟨[], .inside⟩

/-- Takes the characters of a text. -/
def run : Lexer → List Char → Option (List Token × Lexer)
  | q, [] => some ([], q)
  | q, c :: cs => (q.step c).bind fun r => (run r.2 cs).map fun r' => (r.1 ++ r'.1, r'.2)

end Lexer

/-- The tokens of a text, and how it ends. -/
def lex (cs : List Char) : Option Lexed :=
  (Lexer.run .gap cs).bind fun r => r.2.finish.map (·.behind r.1)

-- A comment in front of a line break and one at the end; a long bracket in which a shorter one
-- closes; what looks like a numeral and is none.
example : lex "a--[b\n..3.5e-1 --".toList
      = some ⟨[.word ['a'], .symbol ['.', '.'], .numeral ['3', '.', '5', 'e', '-', '1']],
        .comment⟩ ∧
    lex "[=[\n]]é]=]~=--[[x]]".toList
      = some ⟨[.string [93, 93, 195, 169], .symbol ['~', '=']], .between⟩ ∧
    lex "0xFp+2//\"a\\".toList
      = some ⟨[.numeral ['0', 'x', 'F', 'p', '+', '2'], .symbol ['/', '/']], .inside⟩ ∧
    lex "3..2".toList = none ∧ lex "x[=1".toList = none := by decide +kernel

namespace Lexer

/-- Texts are taken one behind the other, from wherever the lexer is. -/
theorem run_append (q : Lexer) (xs ys : List Char) :
    run q (xs ++ ys) = (run q xs).bind fun r => (run r.2 ys).map fun r' => (r.1 ++ r'.1, r'.2) := by
  induction xs generalizing q with
  | nil =>
    rw [List.nil_append, run, Option.bind_some]
    cases run q ys <;> rfl
  | cons c xs ih =>
    rw [List.cons_append, run, run]
    cases q.step c with
    | none => rfl
    | some r =>
      rw [Option.bind_some, Option.bind_some, ih]
      cases run r.2 xs with
      | none => rfl
      | some r' =>
        simp only [Option.bind_some, Option.map_some]
        cases run r'.2 ys with
        | none => rfl
        | some r'' => simp

theorem run_append_of_eq {q q' q'' : Lexer} {xs ys : List Char} {ts ts' : List Token}
    (hxs : run q xs = some (ts, q')) (hys : run q' ys = some (ts', q'')) :
    run q (xs ++ ys) = some (ts ++ ts', q'') := by
  rw [run_append, hxs, Option.bind_some, hys]
  rfl

theorem run_cons_of_eq {q q' q'' : Lexer} {c : Char} {cs : List Char} {ts ts' : List Token}
    (hc : q.step c = some (ts, q')) (hcs : run q' cs = some (ts', q'')) :
    run q (c :: cs) = some (ts ++ ts', q'') := by
  rw [run, hc, Option.bind_some, hcs]
  rfl

/-- A character that continues nothing is read as it is between tokens. -/
theorem run_of_startBehind {q : Lexer} {token : Token} {c : Char}
    (h : q.step c = some (startBehind token c)) (cs : List Char) :
    run q (c :: cs) = (run gap (c :: cs)).map fun r => (token :: r.1, r.2) := by
  rw [run, run, h]
  show ((run (start c).2 cs).map fun r => (token :: (start c).1 ++ r.1, r.2))
    = ((run (start c).2 cs).map fun r => ((start c).1 ++ r.1, r.2)).map fun r => (token :: r.1, r.2)
  rw [Option.map_map]
  rfl

/-! ## Blanks and comments -/

theorem startBehind_space (token : Token) : startBehind token ' ' = ([token], gap) := rfl

/-- A blank ends whatever the end of the text would have ended. -/
theorem step_space {q : Lexer} {ts : List Token} (h : q.finish = some ⟨ts, .between⟩) :
    q.step ' ' = some (ts, gap) := by
  cases q with
  | gap =>
    cases h
    rfl
  | word letters =>
    cases h
    rfl
  -- A numeral that is none is an error with a blank behind it as it is at the end.
  | numeral text =>
    have hstop : continuesNumeral text ' ' = false := by
      have hmark : isExponentMark (isHexadecimal text) ' ' = false := by
        cases isHexadecimal text <;> rfl
      simp only [continuesNumeral, hmark]
      rfl
    rw [finish] at h
    split at h
    · rename_i hnumeral
      cases h
      simp only [step, hstop, hnumeral, if_true, Bool.false_eq_true, if_false, startBehind_space]
    · cases h
  -- No long symbol has a blank in it.
  | symbol marks =>
    cases h
    have hshort : longSymbols.contains (marks ++ [' ']) = false := by
      have hlast : longSymbols.all (fun m => m.getLast? != some ' ') = true := by decide
      rw [Bool.eq_false_iff]
      intro hmem
      have hm := List.all_eq_true.mp hlast _ (List.contains_iff_mem.mp hmem)
      simp at hm
    have hdigit : isDigit ' ' = false := rfl
    simp only [step, hshort, hdigit, startBehind_space]
    simp
  | square level =>
    rw [finish] at h
    split at h
    · rename_i hlevel
      cases h
      subst hlevel
      rfl
    · cases h
  | dashes | commentSquare | comment | short | long => cases h

/-- A blank does not end a comment. -/
theorem step_space_of_comment {q : Lexer} {ts : List Token} (h : q.finish = some ⟨ts, .comment⟩) :
    ts = [] ∧ q.step ' ' = some ([], comment) := by
  cases q with
  | dashes | commentSquare | comment =>
    cases h
    exact ⟨rfl, rfl⟩
  | numeral | square =>
    rw [finish] at h
    split at h <;> cases h
  | gap | word | symbol | short | long => cases h

theorem run_comment {cs : List Char} (h : ∀ c ∈ cs, isLineBreak c = false) :
    run comment cs = some ([], comment) := by
  induction cs with
  | nil => rfl
  | cons c cs ih =>
    have hc : step comment c = some ([], comment) := by
      simp only [step, inComment, h c List.mem_cons_self, Bool.false_eq_true, if_false]
    exact run_cons_of_eq hc (ih fun d hd => h d (List.mem_cons_of_mem _ hd))

/-! ## Strings -/

/-- A short string that is read to its end is a token. -/
theorem run_short {quote : Char} {bytes value : List UInt8} {place : Short} {cs rest : List Char}
    (h : Short.read? quote bytes place cs = some (value, rest)) :
    run (short quote bytes place) cs = (run gap rest).map fun r => (.string value :: r.1, r.2) := by
  induction cs generalizing bytes place with
  | nil => cases h
  | cons c cs ih =>
    rw [Short.read?] at h
    rw [run, step]
    cases hstep : place.step quote bytes c with
    -- The step fails where the reader of strings does.
    | none =>
      rw [hstep] at h
      cases h
    | some r =>
      obtain ⟨bytes', place'⟩ := r
      rw [hstep] at h
      cases place' with
      | none =>
        cases h
        rfl
      | some place' =>
        rw [Option.bind_some, ih h]
        cases run gap rest <;> rfl

/-- A quoted text is one token. -/
theorem run_quote (s : String) : run gap (Text.quote s).toList
    = some ([.string (textBytes s)], gap) := by
  have hread : Short.read? '"' [] .plain (quoteBody s.toList ++ ['"'])
      = some (textBytes s, []) := by
    rw [Short.read?_quoteBody, List.nil_append, textBytes_eq_flatMap]
  have hopen : step gap '"' = some ([], short '"' [] .plain) := rfl
  rw [toList_quote]
  exact run_cons_of_eq hopen (run_short hread)

/-- A square bracket in front of a quoted text opens no long string. -/
theorem run_square_quote (s : String) :
    run (square 0) (Text.quote s).toList = some ([.symbol ['['], .string (textBytes s)], gap) := by
  have hbehind : step (square 0) '"' = some (startBehind (.symbol ['[']) '"') := rfl
  rw [toList_quote, run_of_startBehind hbehind, ← toList_quote, run_quote]
  rfl

end Lexer

/-- A text that ends between tokens is followed by the tokens of the rest. -/
theorem lex_append {xs : List Char} {ts : List Token} (h : Lexer.run .gap xs = some (ts, .gap))
    (ys : List Char) : lex (xs ++ ys) = (lex ys).map (·.behind ts) := by
  unfold lex
  rw [Lexer.run_append, h, Option.bind_some]
  cases Lexer.run .gap ys with
  | none => rfl
  | some r =>
    simp only [Option.map_some, Option.bind_some]
    cases r.2.finish with
    | none => rfl
    | some l => simp [Lexed.behind]

/-- A text that ends between tokens ends there with a blank behind it. -/
theorem run_blank_of_between {cs : List Char} {lexed : Lexed} (h : lex cs = some lexed)
    (hends : lexed.ending = .between) : Lexer.run .gap (cs ++ [' '])
      = some (lexed.tokens, .gap) := by
  obtain ⟨⟨ts, q⟩, hrun, h⟩ := Option.bind_eq_some_iff.mp h
  obtain ⟨⟨last, ending⟩, hfinish, rfl⟩ := Option.map_eq_some_iff.mp h
  obtain rfl : ending = .between := hends
  have hblank : Lexer.run q [' '] = some (last, .gap) := by
    simpa using Lexer.run_cons_of_eq (Lexer.step_space hfinish) (Lexer.run.eq_1 .gap)
  exact Lexer.run_append_of_eq hrun hblank

/-- A text that ends in a comment is still in it behind a blank. -/
theorem run_blank_of_comment {cs : List Char} {lexed : Lexed} (h : lex cs = some lexed)
    (hends : lexed.ending = .comment) :
    Lexer.run .gap (cs ++ [' ']) = some (lexed.tokens, .comment) := by
  obtain ⟨⟨ts, q⟩, hrun, h⟩ := Option.bind_eq_some_iff.mp h
  obtain ⟨⟨last, ending⟩, hfinish, rfl⟩ := Option.map_eq_some_iff.mp h
  obtain rfl : ending = .comment := hends
  obtain ⟨rfl, hstep⟩ := Lexer.step_space_of_comment hfinish
  exact Lexer.run_append_of_eq hrun (Lexer.run_cons_of_eq hstep (Lexer.run.eq_1 .comment))

end BlockLink.Lua
