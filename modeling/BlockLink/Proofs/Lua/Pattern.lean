import BlockLink.Proofs.Lua.Fragment

/-!
# `BlockLink/Proofs/Lua/Pattern.lean` — templates, scanned once for all fillings

The code of a block is a row of fixed texts with operands between them. What the scanner does at
such a row does not depend on the operands: an expression takes it from between two words to some
settled place, a script from between two words back to there. So a template is checked by scanning
its pattern, in which each operand is only a mark. `isScript_of_pattern` and
`isExpression_of_pattern` carry the result of the check, which is a computation, to every filling.
-/

set_option autoImplicit false

namespace BlockLink.Lua

open BlockLink.Text

/-- A part of a template. -/
inductive Part where
  | text (cs : List Char)
  | expression
  | script
  /-- One or more decimal digits. -/
  | digits
  | quoted
  deriving DecidableEq, Repr

/-- The texts that may stand for a part. -/
def Part.Allows : Part → List Char → Prop
  | .text cs, xs => xs = cs
  | .expression, xs => IsExpression (String.ofList xs)
  | .script, xs => IsScript (String.ofList xs)
  | .digits, xs => xs ≠ [] ∧ ∀ c ∈ xs, c.isDigit = true
  | .quoted, xs => ∃ s, xs = (quote s).toList

/-- The characters are those of parts in order. -/
def Fills : List Part → List Char → Prop
  | [], xs => xs = []
  | p :: ps, xs => ∃ ys zs, xs = ys ++ zs ∧ p.Allows ys ∧ Fills ps zs

/-- A text is put together from parts in order. -/
def Follows (s : String) (parts : List Part) : Prop :=
  Fills parts s.toList

/-! ## Putting patterns together -/

theorem Fills.append {ps qs : List Part} {xs ys : List Char} (hx : Fills ps xs) (hy : Fills qs ys) :
    Fills (ps ++ qs) (xs ++ ys) := by
  induction ps generalizing xs with
  | nil =>
    rw [show xs = [] from hx]
    exact hy
  | cons p ps ih =>
    obtain ⟨us, vs, rfl, hu, hv⟩ := hx
    exact ⟨us, vs ++ ys, List.append_assoc .., hu, ih hv⟩

theorem Fills.single {p : Part} {xs : List Char} (h : p.Allows xs) : Fills [p] xs :=
  ⟨xs, [], (List.append_nil xs).symm, h, rfl⟩

theorem Follows.append {a b : String} {ps qs : List Part} (ha : Follows a ps) (hb : Follows b qs) :
    Follows (a ++ b) (ps ++ qs) := by
  unfold Follows
  rw [String.toList_append]
  exact Fills.append ha hb

/-- A fixed text. A literal unifies with the list of its characters, so the pattern of a template is
found by putting the patterns of its pieces together in the order it has them. -/
theorem Follows.text {cs : List Char} : Follows (String.ofList cs) [.text cs] :=
  Fills.single String.toList_ofList

theorem IsExpression.follows {s : String} (h : IsExpression s) : Follows s [.expression] :=
  Fills.single (by rw [Part.Allows, String.ofList_toList]; exact h)

theorem IsScript.follows {s : String} (h : IsScript s) : Follows s [.script] :=
  Fills.single (by rw [Part.Allows, String.ofList_toList]; exact h)

theorem follows_quote (s : String) : Follows (quote s) [.quoted] :=
  Fills.single ⟨s, rfl⟩

theorem follows_repr (n : Nat) : Follows (Nat.repr n) [.digits] := by
  refine Fills.single ⟨?_, fun c hc => ?_⟩
  · rw [Nat.toList_repr]
    exact Nat.toDigits_ne_nil
  · rw [Nat.toList_repr] at hc
    exact Nat.isDigit_of_mem_toDigits (by decide) (by decide) hc

/-! ## Scanning a pattern

What is known of a place is less than the place: behind an operand the scanner may be in a word or
between words. A check that goes through with less holds for all of them. -/

/-- What is known of a place: what is open, and what the scanner is in the middle of, or only that
it is settled. -/
structure View where
  stack : List Opener
  lexeme : Option Lexeme
  deriving DecidableEq, Repr

/-- The place is as it is known to be. -/
def View.Covers (v : View) (p : Place) : Prop :=
  p.stack = v.stack ∧
    match v.lexeme with
    | some l => p.lexeme = l
    | none => p.lexeme.isSettled = true

/-- Exactly this place. -/
def View.of (p : Place) : View := ⟨p.stack, some p.lexeme⟩

/-- Takes a fixed text. Behind an operand it must not continue a word. -/
def View.takeText (v : View) (cs : List Char) : Option View :=
  match v.lexeme, cs with
  | some l, cs => (scan ⟨v.stack, l⟩ cs).map .of
  | none, [] => some v
  | none, c :: cs =>
    if isNameChar c then none else (scan ⟨v.stack, .gap⟩ (c :: cs)).map .of

/-- Takes a part of a template. -/
def View.take (v : View) : Part → Option View
  | .text cs => v.takeText cs
  | .expression => if v.lexeme = some .gap then some ⟨v.stack, none⟩ else none
  | .script => if v.lexeme = some .gap then some v else none
  | .quoted =>
    if v.lexeme = some .gap ∨ v.lexeme = some .square then some ⟨v.stack, some .gap⟩ else none
  | .digits =>
    match v.lexeme with
    | some .string => some v
    | some .gap | some .square | some (.word _) => some ⟨v.stack, none⟩
    | _ => none

/-- Takes the parts of a template. -/
def View.takeAll (v : View) : List Part → Option View
  | [] => some v
  | p :: ps => (v.take p).bind fun v => v.takeAll ps

/-- What a template of whole statements has to come to. -/
def isScriptPattern (parts : List Part) : Bool :=
  (View.of .start).takeAll parts = some (.of .start)

/-- What the template of an expression has to come to. -/
def isExpressionPattern (parts : List Part) : Bool :=
  match (View.of .start).takeAll parts with
  | some ⟨[], none⟩ => true
  | some ⟨[], some l⟩ => l.isSettled
  | _ => false

theorem View.covers_of (p : Place) : (View.of p).Covers p := ⟨rfl, rfl⟩

/-- If it is known what the scanner is in the middle of, the place is known. -/
theorem View.Covers.eq_of_some {v : View} {p : Place} (hv : v.Covers p) {l : Lexeme}
    (hl : v.lexeme = some l) : p = ⟨v.stack, l⟩ := by
  obtain ⟨stack, lexeme⟩ := p
  obtain ⟨stack', known⟩ := v
  obtain ⟨rfl, hlexeme⟩ := hv
  cases hl
  rw [show lexeme = l from hlexeme]

/-- A fixed text is scanned from the place itself or, behind an operand, from some settled place.
There the first character of the text tells that the last word is over. -/
theorem View.Covers.takeText {v v' : View} {p : Place} {cs : List Char} (hv : v.Covers p)
    (h : v.takeText cs = some v') : ∃ q, scan p cs = some q ∧ v'.Covers q := by
  obtain ⟨stack, lexeme⟩ := p
  obtain ⟨stack', known⟩ := v
  obtain ⟨rfl, hlexeme⟩ := hv
  cases known with
  | some l =>
    obtain rfl : lexeme = l := hlexeme
    obtain ⟨q, hq, rfl⟩ := Option.map_eq_some_iff.1 h
    exact ⟨q, hq, covers_of q⟩
  | none =>
    cases cs with
    | nil =>
      cases h
      exact ⟨_, rfl, rfl, hlexeme⟩
    | cons c cs =>
      by_cases hc : isNameChar c = true
      · exact absurd h (by simp [View.takeText, hc])
      · -- The first character ends the operand's last word, and is then taken as from a gap.
        have hstep := step_of_isSettled hlexeme (Bool.eq_false_iff.2 hc) stack
        simp only [View.takeText, if_neg hc] at h
        obtain ⟨q, hq, rfl⟩ := Option.map_eq_some_iff.1 h
        refine ⟨q, ?_, covers_of q⟩
        rw [scan, hstep]
        exact hq

/-- What is known of a place is enough to take a part, whatever stands for it. -/
theorem View.Covers.take {v v' : View} {p : Place} {part : Part} {xs : List Char} (hv : v.Covers p)
    (h : v.take part = some v') (hxs : part.Allows xs) : ∃ q, scan p xs = some q ∧ v'.Covers q := by
  cases part with
  | text cs =>
    rw [show xs = cs from hxs]
    exact hv.takeText h
  | expression =>
    -- The operand was scanned with nothing open; here it stands above what the template has opened.
    simp only [View.take] at h
    split at h
    · rename_i hgap
      cases h
      obtain ⟨l, hscan, hl⟩ := hxs.scan v.stack
      rw [hv.eq_of_some hgap, ← String.toList_ofList (l := xs)]
      exact ⟨_, hscan, rfl, hl⟩
    · exact absurd h (by simp)
  | script =>
    simp only [View.take] at h
    split at h
    · rename_i hgap
      cases h
      have hscan := hxs.scan v.stack
      rw [String.toList_ofList, ← hv.eq_of_some hgap] at hscan
      exact ⟨p, hscan, hv⟩
    · exact absurd h (by simp)
  | digits =>
    obtain ⟨hne, hdigits⟩ := hxs
    -- Outside strings digits are a word, or the end of one, and what is known is only that it is
    -- settled.
    have hword : ∀ l, v.lexeme = some l → (l = .gap ∨ l = .square ∨ ∃ letters, l = .word letters) →
        ∃ q, scan p xs = some q ∧ View.Covers ⟨v.stack, none⟩ q := by
      intro l hl hkind
      rw [hv.eq_of_some hl]
      obtain ⟨l', hscan, hl'⟩ := scan_digits hne hdigits hkind v.stack
      exact ⟨_, hscan, rfl, hl'⟩
    simp only [View.take] at h
    split at h
    · rename_i hstring
      cases h
      have hscan := scan_string_of_isDigit hdigits v.stack
      rw [← hv.eq_of_some hstring] at hscan
      exact ⟨p, hscan, hv⟩
    · rename_i hl
      cases h
      exact hword _ hl (.inl rfl)
    · rename_i hl
      cases h
      exact hword _ hl (.inr (.inl rfl))
    · rename_i letters hl
      cases h
      exact hword _ hl (.inr (.inr ⟨letters, rfl⟩))
    · exact absurd h (by simp)
  | quoted =>
    obtain ⟨s, rfl⟩ := hxs
    simp only [View.take] at h
    split at h
    · rename_i hl
      cases h
      have hlexeme : p.lexeme = .gap ∨ p.lexeme = .square := by
        rcases hl with hl | hl
        · rw [hv.eq_of_some hl]
          exact .inl rfl
        · rw [hv.eq_of_some hl]
          exact .inr rfl
      refine ⟨⟨p.stack, .gap⟩, scan_quote s hlexeme p.stack, hv.1, rfl⟩
    · exact absurd h (by simp)

/-- The parts one after another, each from the place that the one before it leads to. -/
theorem View.Covers.takeAll {v v' : View} {p : Place} {parts : List Part} {xs : List Char}
    (hv : v.Covers p) (h : v.takeAll parts = some v') (hxs : Fills parts xs) :
    ∃ q, scan p xs = some q ∧ v'.Covers q := by
  induction parts generalizing v p xs with
  | nil =>
    cases h
    rw [show xs = [] from hxs]
    exact ⟨p, rfl, hv⟩
  | cons part parts ih =>
    obtain ⟨ys, zs, rfl, hy, hz⟩ := hxs
    obtain ⟨w, htake, hrest⟩ := Option.bind_eq_some_iff.1 h
    obtain ⟨q, hq, hw⟩ := hv.take htake hy
    obtain ⟨r, hr, hv'⟩ := ih hw hrest hz
    exact ⟨r, scan_append_of_eq hq hr, hv'⟩

theorem scan_of_pattern {s : String} {parts : List Part} {p : Place} (h : Follows s parts)
    (hparts : (View.of .start).takeAll parts = some (.of p)) : scan .start s.toList = some p := by
  obtain ⟨⟨stack, lexeme⟩, hscan, hstack, hlexeme⟩ := (View.covers_of .start).takeAll hparts h
  obtain rfl : stack = p.stack := hstack
  obtain rfl : lexeme = p.lexeme := hlexeme
  exact hscan

theorem isScript_of_pattern {s : String} {parts : List Part} (h : Follows s parts)
    (hparts : isScriptPattern parts = true) : IsScript s :=
  scan_of_pattern h (of_decide_eq_true hparts)

/-- A pattern that passes the check is one of expressions, whatever it is filled with. -/
theorem isExpression_of_pattern {s : String} {parts : List Part} (h : Follows s parts)
    (hparts : isExpressionPattern parts = true) : IsExpression s := by
  unfold isExpressionPattern at hparts
  split at hparts
  · rename_i hview
    obtain ⟨⟨stack, lexeme⟩, hscan, hstack, hlexeme⟩ := (View.covers_of .start).takeAll hview h
    obtain rfl : stack = [] := hstack
    exact ⟨lexeme, hscan, hlexeme⟩
  · rename_i l hview
    obtain ⟨⟨stack, lexeme⟩, hscan, hstack, hlexeme⟩ := (View.covers_of .start).takeAll hview h
    obtain rfl : stack = [] := hstack
    obtain rfl : lexeme = l := hlexeme
    exact ⟨lexeme, hscan, hparts⟩
  · exact absurd hparts (by simp)

end BlockLink.Lua
