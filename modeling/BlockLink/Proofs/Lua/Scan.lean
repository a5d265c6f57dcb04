import BlockLink.Text.Identifier
import BlockLink.Text.Quoted

/-!
# `BlockLink/Proofs/Lua/Scan.lean` — what is open in a text of Lua

A scanner for the structure of generated Lua, character by character. It knows double-quoted strings
with their escapes, whole words, brackets, and the words that open and close a block, and keeps a
stack of what is open. It gives up at everything that generated code must not do:

* a line break inside a string;
* two minus signs in a row outside strings, which start a comment;
* `[[` or `[=` outside strings, which start a long string, and a single quote, which starts another
  kind of string;
* a closing bracket or `end` that does not close what was opened last.

The stack is only looked at from its top, so a text that can be scanned with nothing open can be
scanned with anything open, and leaves that alone (`scan_above`).
-/

set_option autoImplicit false

namespace BlockLink.Lua

open BlockLink.Text

/-! ## The scanner -/

/-- Something that has to be closed. -/
inductive Opener where
  | paren
  | square
  | curly
  /-- A block word: `do`, `then` or `function`. -/
  | block
  deriving DecidableEq, Repr

/-- What the scanner is in the middle of. -/
inductive Lexeme where
  | gap
  /-- A word, which is only known when it has ended. -/
  | word (letters : List Char)
  /-- Behind a minus sign. -/
  | dash
  /-- Behind an opening square bracket. -/
  | square
  | string
  /-- Behind a backslash in a string. -/
  | escape
  deriving DecidableEq, Repr

/-- A place in a text: what is open there, innermost first, and what the scanner is in the middle
of. -/
structure Place where
  stack : List Opener
  lexeme : Lexeme
  deriving DecidableEq, Repr

/-- Nothing open. -/
def Place.start : Place := ⟨[], .gap⟩

/-- The words that open a block. -/
def openingWords : List (List Char) :=
  [['d', 'o'], ['t', 'h', 'e', 'n'], ['f', 'u', 'n', 'c', 't', 'i', 'o', 'n']]

/-- The word that closes a block. -/
def closingWord : List Char := ['e', 'n', 'd']

/-- The bracket that a character opens. -/
def opens : Char → Option Opener
  | '(' => some .paren
  | '[' => some .square
  | '\x7b' => some .curly
  | _ => none

/-- The bracket that a character closes. -/
def closes : Char → Option Opener
  | ')' => some .paren
  | ']' => some .square
  | '\x7d' => some .curly
  | _ => none

/-- Closes what was opened last. -/
def close (o : Opener) : List Opener → Option (List Opener)
  | [] => none
  | o' :: rest => if o = o' then some rest else none

/-- What a bracket, if the character is one, does to the stack. -/
def bracket (c : Char) (stack : List Opener) : Option (List Opener) :=
  match opens c, closes c with
  | some o, _ => some (o :: stack)
  | none, some o => close o stack
  | none, none => some stack

/-- What a word does to the stack. -/
def settle (letters : List Char) (stack : List Opener) : Option (List Opener) :=
  if letters ∈ openingWords then some (.block :: stack)
  else if letters = closingWord then close .block stack
  else some stack

/-- What a character that is not part of a word begins. -/
def Lexeme.after (c : Char) : Lexeme :=
  if c = '"' then .string
  else if c = '-' then .dash
  else if c = '[' then .square
  else .gap

/-- Takes a character outside strings that does not continue a word. -/
def outside (c : Char) (stack : List Opener) : Option Place :=
  if isNameChar c then some ⟨stack, .word [c]⟩
  else if c = '\x27' then none
  else (bracket c stack).map fun stack => ⟨stack, .after c⟩

/-- Takes a character. -/
def step (p : Place) (c : Char) : Option Place :=
  match p.lexeme with
  | .gap => outside c p.stack
  | .dash => if c = '-' then none else outside c p.stack
  | .square => if c = '[' ∨ c = '=' then none else outside c p.stack
  | .word letters =>
    if isNameChar c then some ⟨p.stack, .word (letters ++ [c])⟩
    else (settle letters p.stack).bind (outside c)
  | .string =>
    if c = '\n' ∨ c = '\r' then none
    else some ⟨p.stack, if c = '"' then .gap else if c = '\\' then .escape else .string⟩
  | .escape => if c = '\n' ∨ c = '\r' then none else some ⟨p.stack, .string⟩

/-- Takes the characters of a text. -/
def scan (p : Place) : List Char → Option Place
  | [] => some p
  | c :: cs => (step p c).bind fun p => scan p cs

-- A comment, a long string, a line break in a string, and an `end` that closes a parenthesis.
example : scan .start ['x', '-', '-'] = none ∧ scan .start ['[', '='] = none ∧
    scan .start ['"', '\\', '"', '\n'] = none ∧
    scan .start ['(', 'e', 'n', 'd', ')'] = none := by decide

theorem scan_append (p : Place) (xs ys : List Char) :
    scan p (xs ++ ys) = (scan p xs).bind fun q => scan q ys := by
  induction xs generalizing p with
  | nil => rfl
  | cons c xs ih =>
    rw [List.cons_append, scan, scan]
    cases step p c with
    | none => rfl
    | some q => exact ih q

theorem scan_append_of_eq {p q r : Place} {xs ys : List Char} (hxs : scan p xs = some q)
    (hys : scan q ys = some r) : scan p (xs ++ ys) = some r := by
  rw [scan_append, hxs]
  exact hys

/-! ## What is open below is left alone

This is what lets code be checked piece by piece: a piece that can be scanned on its own can be
scanned inside any other. -/

/-- The same place with more open around it. -/
def Place.above (p : Place) (base : List Opener) : Place :=
  ⟨p.stack ++ base, p.lexeme⟩

/-- Closing looks only at what was opened last. -/
theorem close_append {o : Opener} {stack stack' : List Opener} (base : List Opener)
    (h : close o stack = some stack') : close o (stack ++ base) = some (stack' ++ base) := by
  cases stack with
  | nil => exact absurd h (by simp [close])
  | cons o' rest =>
    simp only [close, List.cons_append] at h ⊢
    split at h
    · cases h
      rename_i ho
      rw [if_pos ho]
    · exact absurd h (by simp)

theorem bracket_append {c : Char} {stack stack' : List Opener} (base : List Opener)
    (h : bracket c stack = some stack') : bracket c (stack ++ base) = some (stack' ++ base) := by
  unfold bracket at h ⊢
  cases hopens : opens c with
  | some o =>
    simp only [hopens] at h ⊢
    cases h
    rfl
  | none =>
    cases hcloses : closes c with
    | some o =>
      simp only [hopens, hcloses] at h ⊢
      exact close_append base h
    | none =>
      simp only [hopens, hcloses] at h ⊢
      cases h
      rfl

theorem settle_append {letters : List Char} {stack stack' : List Opener} (base : List Opener)
    (h : settle letters stack = some stack') :
    settle letters (stack ++ base) = some (stack' ++ base) := by
  unfold settle at h ⊢
  split at h
  · rename_i hopens
    cases h
    rw [if_pos hopens, List.cons_append]
  · rename_i hopens
    rw [if_neg hopens]
    split at h
    · rename_i hcloses
      rw [if_pos hcloses]
      exact close_append base h
    · rename_i hcloses
      cases h
      rw [if_neg hcloses]

theorem outside_append {c : Char} {stack : List Opener} {q : Place} (base : List Opener)
    (h : outside c stack = some q) : outside c (stack ++ base) = some (q.above base) := by
  unfold outside at h ⊢
  split at h
  · rename_i hname
    cases h
    rw [if_pos hname]
    rfl
  · rename_i hname
    rw [if_neg hname]
    split at h
    · exact absurd h (by simp)
    · rename_i hquote
      rw [if_neg hquote]
      obtain ⟨stack', hstack', rfl⟩ := Option.map_eq_some_iff.1 h
      rw [bracket_append base hstack']
      rfl

/-- A step never looks below what the text itself has opened. -/
theorem step_above {p q : Place} {c : Char} (base : List Opener) (h : step p c = some q) :
    step (p.above base) c = some (q.above base) := by
  obtain ⟨stack, lexeme⟩ := p
  cases lexeme with
  | gap => exact outside_append base h
  | dash =>
    simp only [step, Place.above] at h ⊢
    split at h
    · exact absurd h (by simp)
    · rename_i hdash
      rw [if_neg hdash]
      exact outside_append base h
  | square =>
    simp only [step, Place.above] at h ⊢
    split at h
    · exact absurd h (by simp)
    · rename_i hlong
      rw [if_neg hlong]
      exact outside_append base h
  -- A word is settled when the next character does not continue it.
  | word letters =>
    simp only [step, Place.above] at h ⊢
    split at h
    · rename_i hname
      cases h
      rw [if_pos hname]
    · rename_i hname
      rw [if_neg hname]
      obtain ⟨stack', hsettle, hout⟩ := Option.bind_eq_some_iff.1 h
      rw [settle_append base hsettle]
      exact outside_append base hout
  | string | escape =>
    simp only [step, Place.above] at h ⊢
    split at h
    · exact absurd h (by simp)
    · rename_i hbreak
      cases h
      rw [if_neg hbreak]

/-- A text that can be scanned can be scanned with more open around it, and never closes that. -/
theorem scan_above {p q : Place} {xs : List Char} (base : List Opener) (h : scan p xs = some q) :
    scan (p.above base) xs = some (q.above base) := by
  induction xs generalizing p with
  | nil =>
    cases h
    rfl
  | cons c xs ih =>
    obtain ⟨r, hstep, hscan⟩ := Option.bind_eq_some_iff.1 h
    rw [scan, step_above base hstep]
    exact ih hscan

end BlockLink.Lua
