import BlockLink.Literal
import BlockLink.Proofs.Lua.Scan
import BlockLink.Proofs.Text.Digits

/-!
# `BlockLink/Proofs/Lua/Fragment.lean` — texts that leave nothing open

Generated code is put together from texts of two kinds. A script is a row of whole statements:
scanned from between two words it ends between two words, with nothing open. An expression may end
in a word, as long as that is no block word, and what comes behind it must not continue that word.

Everything that comes from outside is one of them: a quoted text whatever its characters are, a
number, and the name of a pin if no word in it is reserved.
-/

set_option autoImplicit false

namespace BlockLink.Lua

open BlockLink.Text

/-- Whether a word opens or closes a block. -/
def isBlockWord (letters : List Char) : Bool :=
  (closingWord :: openingWords).contains letters

theorem isBlockWord_eq_false_iff {letters : List Char} :
    isBlockWord letters = false ↔ letters ∉ closingWord :: openingWords := by
  simp [isBlockWord]

theorem settle_of_plain {letters : List Char} (h : isBlockWord letters = false)
    (stack : List Opener) :
    settle letters stack = some stack := by
  have hnot := isBlockWord_eq_false_iff.1 h
  rw [List.mem_cons, not_or] at hnot
  rw [settle, if_neg hnot.2, if_neg hnot.1]

/-- Whether nothing is left to come: the scanner is between words, or in a word that is no block
word. -/
def Lexeme.isSettled : Lexeme → Bool
  | .gap => true
  | .word letters => !isBlockWord letters
  | _ => false

/-- Behind a settled text, a character that does not continue its last word. -/
theorem step_of_isSettled {l : Lexeme} (hl : l.isSettled = true) {c : Char}
    (hc : isNameChar c = false) (stack : List Opener) : step ⟨stack, l⟩ c = outside c stack := by
  cases l with
  | gap => rfl
  | word letters =>
    have hplain : isBlockWord letters = false := by simpa [Lexeme.isSettled] using hl
    simp only [step, hc, settle_of_plain hplain]
    rfl
  | dash | square | string | escape => exact absurd hl (by simp [Lexeme.isSettled])

/-- A row of whole statements. -/
def IsScript (s : String) : Prop :=
  scan .start s.toList = some .start

/-- A text that can stand for a value. -/
def IsExpression (s : String) : Prop :=
  ∃ l, scan .start s.toList = some ⟨[], l⟩ ∧ l.isSettled = true

theorem isScript_empty : IsScript "" := rfl

theorem IsScript.append {a b : String} (ha : IsScript a) (hb : IsScript b) : IsScript (a ++ b) := by
  unfold IsScript
  rw [String.toList_append]
  exact scan_append_of_eq ha hb

/-- A script is the same wherever it stands between two words, whatever is open there. -/
theorem IsScript.scan {s : String} (h : IsScript s) (base : List Opener) :
    scan ⟨base, .gap⟩ s.toList = some ⟨base, .gap⟩ :=
  scan_above base h

theorem IsExpression.scan {s : String} (h : IsExpression s) (base : List Opener) :
    ∃ l, scan ⟨base, .gap⟩ s.toList = some ⟨base, l⟩ ∧ l.isSettled = true := by
  obtain ⟨l, hscan, hl⟩ := h
  exact ⟨l, scan_above base hscan, hl⟩

/-! ## Quoted texts

Whatever a text holds, its quoted form is one string: the scanner enters it at the first quote and
leaves it at the last. -/

/-- Inside a string everything but a quote, a backslash and a line break is passed over. -/
theorem step_string {c : Char} (hbreak : ¬ (c = '\n' ∨ c = '\r')) (hquote : c ≠ '"')
    (hslash : c ≠ '\\') (stack : List Opener) :
    step ⟨stack, .string⟩ c = some ⟨stack, .string⟩ := by
  simp only [step, if_neg hbreak, if_neg hquote, if_neg hslash]

/-- A digit is neither a quote nor a backslash nor a line break, and continues a word. -/
theorem step_string_of_isDigit {c : Char} (h : c.isDigit = true) (stack : List Opener) :
    step ⟨stack, .string⟩ c = some ⟨stack, .string⟩ := by
  refine step_string ?_ ?_ ?_ stack
  · rintro (rfl | rfl) <;> exact absurd h (by decide)
  · rintro rfl
    exact absurd h (by decide)
  · rintro rfl
    exact absurd h (by decide)

theorem scan_string_of_isDigit {cs : List Char} (h : ∀ c ∈ cs, c.isDigit = true)
    (stack : List Opener) : scan ⟨stack, .string⟩ cs = some ⟨stack, .string⟩ := by
  induction cs with
  | nil => rfl
  | cons c cs ih =>
    rw [scan, step_string_of_isDigit (h c List.mem_cons_self)]
    exact ih fun d hd => h d (List.mem_cons_of_mem _ hd)

theorem isDigit_digitChar {n : Nat} (h : n < 10) : (Nat.digitChar n).isDigit = true := by
  match n, h with
  | 0, _ | 1, _ | 2, _ | 3, _ | 4, _ | 5, _ | 6, _ | 7, _ | 8, _ | 9, _ => rfl

/-- A character that is escaped by its number: the backslash was read, and the digits behind it are
passed over. -/
theorem scan_threeDigits (n : Nat) (stack : List Opener) :
    scan ⟨stack, .escape⟩ (threeDigits n) = some ⟨stack, .string⟩ := by
  have hdigit : ∀ k, (Nat.digitChar (k % 10)).isDigit = true := fun k =>
    isDigit_digitChar (Nat.mod_lt k (by decide))
  have hfirst : step ⟨stack, .escape⟩ (Nat.digitChar (n / 100 % 10)) = some ⟨stack, .string⟩ := by
    have hbreak : ¬ (Nat.digitChar (n / 100 % 10) = '\n' ∨
        Nat.digitChar (n / 100 % 10) = '\r') := by
      rintro (h | h) <;> exact absurd (hdigit (n / 100)) (by rw [h]; decide)
    simp only [step, if_neg hbreak]
  rw [threeDigits, scan, hfirst]
  refine scan_string_of_isDigit (fun c hc => ?_) stack
  rcases List.mem_cons.1 hc with rfl | hc
  · exact hdigit _
  · rw [List.mem_singleton.1 hc]
    exact hdigit _

/-- Whatever a character is, its quoted form stays inside the string. -/
theorem scan_quoteChar (c : Char) (stack : List Opener) :
    scan ⟨stack, .string⟩ (quoteChar c) = some ⟨stack, .string⟩ := by
  unfold quoteChar
  by_cases hslash : c = '\\'
  · rw [if_pos hslash]
    rfl
  rw [if_neg hslash]
  by_cases hquote : c = '"'
  · rw [if_pos hquote]
    rfl
  rw [if_neg hquote]
  by_cases hfeed : c = '\n'
  · rw [if_pos hfeed]
    rfl
  rw [if_neg hfeed]
  by_cases hreturn : c = '\r'
  · rw [if_pos hreturn]
    rfl
  rw [if_neg hreturn]
  by_cases hcontrol : isControl c
  · rw [if_pos hcontrol]
    exact scan_threeDigits c.toNat stack
  · rw [if_neg hcontrol, scan, step_string (not_or.2 ⟨hfeed, hreturn⟩) hquote hslash]
    rfl

theorem scan_quoteBody (cs : List Char) (stack : List Opener) :
    scan ⟨stack, .string⟩ (quoteBody cs) = some ⟨stack, .string⟩ := by
  induction cs with
  | nil => rfl
  | cons c cs ih =>
    rw [quoteBody, List.flatMap_cons]
    exact scan_append_of_eq (scan_quoteChar c stack) ih

/-- A quoted text is whole, also right behind a bracket. -/
theorem scan_quote (s : String) {l : Lexeme} (hl : l = .gap ∨ l = .square) (stack : List Opener) :
    scan ⟨stack, l⟩ (quote s).toList = some ⟨stack, .gap⟩ := by
  have hopen : step ⟨stack, l⟩ '"' = some ⟨stack, .string⟩ := by
    rcases hl with rfl | rfl <;> rfl
  rw [quote, String.toList_ofList, List.cons_append, scan, hopen]
  exact scan_append_of_eq (scan_quoteBody s.toList stack) rfl

theorem isExpression_quote (s : String) : IsExpression (quote s) :=
  ⟨.gap, scan_quote s (.inl rfl) [], rfl⟩

/-! ## Digits -/

theorem isNameChar_of_isDigit {c : Char} (h : c.isDigit = true) : isNameChar c = true := by
  have hrange : '0'.val ≤ c.val ∧ c.val ≤ '9'.val := by
    simpa only [Char.isDigit, ge_iff_le, Bool.and_eq_true, decide_eq_true_eq] using h
  have hdigit : isDigit c = true := by
    simp only [isDigit, Bool.and_eq_true, decide_eq_true_eq]
    exact hrange
  simp [isNameChar, hdigit]

theorem outside_of_isNameChar {c : Char} (h : isNameChar c = true) (stack : List Opener) :
    outside c stack = some ⟨stack, .word [c]⟩ := by
  rw [outside, if_pos h]

/-- A word goes on as long as there are characters of names. -/
theorem scan_word {cs : List Char} (h : ∀ c ∈ cs, isNameChar c = true) (letters : List Char)
    (stack : List Opener) :
    scan ⟨stack, .word letters⟩ cs = some ⟨stack, .word (letters ++ cs)⟩ := by
  induction cs generalizing letters with
  | nil => rw [scan, List.append_nil]
  | cons c cs ih =>
    have hstep : step ⟨stack, .word letters⟩ c = some ⟨stack, .word (letters ++ [c])⟩ := by
      simp only [step, h c List.mem_cons_self, if_true]
    rw [scan, hstep, Option.bind_some, ih (fun d hd => h d (List.mem_cons_of_mem _ hd)),
      List.append_assoc, List.singleton_append]

/-- A word with a digit in it is no block word. -/
theorem isBlockWord_of_isDigit {letters : List Char} {c : Char} (hc : c ∈ letters)
    (h : c.isDigit = true) : isBlockWord letters = false := by
  refine isBlockWord_eq_false_iff.2 fun hmem => ?_
  have hnone : (closingWord :: openingWords).all (fun w => w.all fun c => !c.isDigit) = true := by
    decide
  have hnot := List.all_eq_true.1 (List.all_eq_true.1 hnone letters hmem) c hc
  exact absurd h (by simpa using hnot)

/-- Digits are a word of their own, or the end of the word in front of them. -/
theorem scan_digits {cs : List Char} (hne : cs ≠ []) (h : ∀ c ∈ cs, c.isDigit = true) {l : Lexeme}
    (hl : l = .gap ∨ l = .square ∨ ∃ letters, l = .word letters) (stack : List Opener) :
    ∃ l', scan ⟨stack, l⟩ cs = some ⟨stack, l'⟩ ∧ l'.isSettled = true := by
  have hname : ∀ c ∈ cs, isNameChar c = true := fun c hc => isNameChar_of_isDigit (h c hc)
  -- A word with a digit in it is no block word.
  have hsettled : ∀ front, (Lexeme.word (front ++ cs)).isSettled = true := by
    intro front
    obtain ⟨c, hc⟩ := List.exists_mem_of_ne_nil cs hne
    simp [Lexeme.isSettled, isBlockWord_of_isDigit (List.mem_append_right front hc) (h c hc)]
  obtain ⟨c, cs, rfl⟩ := List.exists_cons_of_ne_nil hne
  have hrest : ∀ d ∈ cs, isNameChar d = true := fun d hd => hname d (List.mem_cons_of_mem _ hd)
  have hout := outside_of_isNameChar (hname c List.mem_cons_self) stack
  rcases hl with rfl | rfl | ⟨letters, rfl⟩
  · refine ⟨.word (c :: cs), ?_, hsettled []⟩
    rw [scan, show step ⟨stack, .gap⟩ c = _ from hout]
    exact scan_word hrest [c] stack
  -- Behind a square bracket a digit opens no long string.
  · have hlong : ¬ (c = '[' ∨ c = '=') := by
      rintro (rfl | rfl) <;> exact absurd (h _ List.mem_cons_self) (by decide)
    refine ⟨.word (c :: cs), ?_, hsettled []⟩
    simp only [scan, step, if_neg hlong, hout]
    exact scan_word hrest [c] stack
  · exact ⟨.word (letters ++ c :: cs), scan_word hname letters stack, hsettled letters⟩

/-! ## Numbers

Numbers are words of digits with points between them and signs in front of some, none of which opens
or closes anything. -/

/-- A character of a number other than a sign. -/
def isNumeralChar (c : Char) : Bool :=
  c.isDigit || c == '.' || c == 'e'

/-- The words of a number are made of digits and the mark of the exponent. -/
def Lexeme.InNumeral : Lexeme → Prop
  | .gap => True
  | .word letters => ∀ c ∈ letters, isNumeralChar c = true
  | _ => False

/-- Every block word has a letter in it that no number has. -/
theorem Lexeme.InNumeral.isSettled {l : Lexeme} (h : l.InNumeral) : l.isSettled = true := by
  cases l with
  | gap => rfl
  | word letters =>
    have hother : (closingWord :: openingWords).all (fun w => w.any fun c => !isNumeralChar c)
        = true := by
      decide
    have hplain : isBlockWord letters = false := by
      refine isBlockWord_eq_false_iff.2 fun hmem => ?_
      obtain ⟨c, hc, hnot⟩ := List.any_eq_true.1 (List.all_eq_true.1 hother letters hmem)
      exact absurd (h c hc) (by simpa using hnot)
    simp [Lexeme.isSettled, hplain]
  | dash | square | string | escape => exact h.elim

/-- A point ends the word in front of it, and every other character of a number goes on with the
word or begins one. -/
theorem step_numeral {c : Char} (hc : isNumeralChar c = true) {l : Lexeme} (hl : l.InNumeral)
    (stack : List Opener) : ∃ l', step ⟨stack, l⟩ c = some ⟨stack, l'⟩ ∧ l'.InNumeral := by
  by_cases hname : isNameChar c = true
  · cases l with
    | gap =>
      refine ⟨.word [c], outside_of_isNameChar hname stack, fun d hd => ?_⟩
      rw [List.mem_singleton.1 hd]
      exact hc
    | word letters =>
      refine ⟨.word (letters ++ [c]), by simp only [step, hname, if_true], fun d hd => ?_⟩
      rcases List.mem_append.1 hd with hd | hd
      · exact hl d hd
      · rw [List.mem_singleton.1 hd]
        exact hc
    | dash | square | string | escape => exact hl.elim
  · -- Only the point is no part of a word.
    have hpoint : c = '.' := by
      simp only [isNumeralChar, Bool.or_eq_true, beq_iff_eq] at hc
      rcases hc with (hc | hc) | hc
      · exact absurd (isNameChar_of_isDigit hc) hname
      · exact hc
      · exact absurd (by rw [hc]; decide) hname
    subst hpoint
    exact ⟨.gap, step_of_isSettled hl.isSettled (by decide) stack, trivial⟩

theorem scan_numeral {cs : List Char} (h : ∀ c ∈ cs, isNumeralChar c = true) {l : Lexeme}
    (hl : l.InNumeral) (stack : List Opener) :
    ∃ l', scan ⟨stack, l⟩ cs = some ⟨stack, l'⟩ ∧ l'.InNumeral := by
  induction cs generalizing l with
  | nil => exact ⟨l, rfl, hl⟩
  | cons c cs ih =>
    obtain ⟨l', hstep, hl'⟩ := step_numeral (h c List.mem_cons_self) hl stack
    rw [scan, hstep]
    exact ih (fun d hd => h d (List.mem_cons_of_mem _ hd)) hl'

/-- A number without a sign, or a part of one. -/
def IsNumeral (cs : List Char) : Prop :=
  cs ≠ [] ∧ ∀ c ∈ cs, isNumeralChar c = true

/-- A sign, and a numeral behind it: no second sign follows the first. -/
theorem scan_negated {cs : List Char} (h : IsNumeral cs) {l : Lexeme} (hl : l.InNumeral)
    (stack : List Opener) :
    ∃ l', scan ⟨stack, l⟩ ('-' :: cs) = some ⟨stack, l'⟩ ∧ l'.InNumeral := by
  obtain ⟨l', hscan, hl'⟩ := scan_numeral h.2 (l := .gap) trivial stack
  refine ⟨l', ?_, hl'⟩
  obtain ⟨c, cs, rfl⟩ := List.exists_cons_of_ne_nil h.1
  have hsign : step ⟨stack, l⟩ '-' = some ⟨stack, .dash⟩ :=
    step_of_isSettled hl.isSettled (by decide) stack
  have hc : c ≠ '-' := by
    rintro rfl
    exact absurd (h.2 '-' List.mem_cons_self) (by decide)
  have hfirst : step ⟨stack, .dash⟩ c = step ⟨stack, .gap⟩ c := by
    simp only [step, if_neg hc]
  rw [scan, hsign, Option.bind_some, scan, hfirst]
  exact hscan

theorem isNumeral_decimal (n : Nat) : IsNumeral (decimal n) := by
  refine ⟨Nat.toDigits_ne_nil, fun c hc => ?_⟩
  have hdigit : c.isDigit = true := Nat.isDigit_of_mem_toDigits (by decide) (by decide) hc
  simp [isNumeralChar, hdigit]

theorem IsNumeral.append {a b : List Char} (ha : IsNumeral a)
    (hb : ∀ c ∈ b, isNumeralChar c = true) :
    IsNumeral (a ++ b) := by
  refine ⟨by simp [ha.1], fun c hc => ?_⟩
  rcases List.mem_append.1 hc with hc | hc
  · exact ha.2 c hc
  · exact hb c hc

theorem isNumeralChar_of_replicate {n : Nat} {c : Char} (h : c ∈ List.replicate n '0') :
    isNumeralChar c = true := by
  rw [List.eq_of_mem_replicate h]
  decide

/-- A number is laid out as a numeral, with a negative exponent behind it or without. -/
theorem exists_layout_eq (digits : Nat) (exponent : Int) :
    ∃ a b, Number.layout digits exponent = a ++ b ∧ IsNumeral a ∧
      (b = [] ∨ ∃ power, b = '-' :: power ∧ IsNumeral power) := by
  have hds := isNumeral_decimal digits
  have hwhole : ∀ a, IsNumeral a → ∃ a' b, a = a' ++ b ∧ IsNumeral a' ∧
      (b = [] ∨ ∃ power, b = '-' :: power ∧ IsNumeral power) :=
    fun a ha => ⟨a, [], (List.append_nil a).symm, ha, .inl rfl⟩
  unfold Number.layout
  generalize decimal digits = ds at hds
  dsimp only
  generalize (ds.length : Int) + exponent = p
  split
  -- A whole number, with zeros behind its digits.
  · exact hwhole _ (hds.append fun c => isNumeralChar_of_replicate)
  split
  · refine hwhole _ ⟨by simp, fun c hc => ?_⟩
    -- A point within the digits.
    rcases List.mem_append.1 hc with hc | hc
    · exact hds.2 c (List.mem_of_mem_take hc)
    · rcases List.mem_cons.1 hc with rfl | hc
      · decide
      · exact hds.2 c (List.mem_of_mem_drop hc)
  split
  · refine hwhole _ ⟨by simp, fun c hc => ?_⟩
    -- Less than one: zeros between the point and the digits.
    simp only [List.cons_append, List.mem_cons, List.mem_append] at hc
    rcases hc with rfl | rfl | hc | hc
    · decide
    · decide
    · exact isNumeralChar_of_replicate hc
    · exact hds.2 c hc
  · -- With an exponent: the digits get a point behind the first one, if there are more.
    have hpower := isNumeral_decimal (p - 1).natAbs
    have hmark : ∀ c ∈ ['e'], isNumeralChar c = true := List.forall_mem_singleton.2 (by decide)
    have hexponent : ∀ mantissa, IsNumeral mantissa → ∃ a b,
        mantissa ++ 'e' :: (if p - 1 < 0 then ['-'] else []) ++ decimal (p - 1).natAbs = a ++ b ∧
          IsNumeral a ∧ (b = [] ∨ ∃ power, b = '-' :: power ∧ IsNumeral power) := by
      intro mantissa h
      by_cases hneg : p - 1 < 0
      · exact ⟨mantissa ++ ['e'], '-' :: decimal (p - 1).natAbs, by simp [hneg], h.append hmark,
          .inr ⟨_, rfl, hpower⟩⟩
      · rw [if_neg hneg]
        exact hwhole _ ((h.append hmark).append hpower.2)
    rcases ds with _ | ⟨d, _ | ⟨e, rest⟩⟩
    · exact absurd rfl hds.1
    · exact hexponent [d] hds
    · refine hexponent (d :: '.' :: e :: rest) ⟨by simp, fun c hc => ?_⟩
      rcases List.mem_cons.1 hc with rfl | hc
      · exact hds.2 c List.mem_cons_self
      · rcases List.mem_cons.1 hc with rfl | hc
        · decide
        · exact hds.2 c (List.mem_cons_of_mem _ hc)

/-- A number, with its sign, can stand for a value. -/
theorem isExpression_number (x : Number) : IsExpression x.text := by
  unfold IsExpression Number.text
  rw [String.toList_ofList]
  unfold Number.textChars
  split
  · exact ⟨.word ['0'], rfl, rfl⟩
  · dsimp only
    obtain ⟨a, b, hlayout, ha, hb⟩ :=
      exists_layout_eq x.magnitude.shortest.1 x.magnitude.shortest.2
    -- The sign, if there is one, is an operator in front of the digits.
    have hfront : ∃ l, scan .start ((if x.negative then ['-'] else []) ++ a) = some ⟨[], l⟩ ∧
        l.InNumeral := by
      cases x.negative with
      | true => exact scan_negated ha (l := .gap) trivial []
      | false => exact scan_numeral ha.2 (l := .gap) trivial []
    obtain ⟨l, hl, hl'⟩ := hfront
    rw [hlayout, ← List.append_assoc]
    rcases hb with rfl | ⟨power, rfl, hpower⟩
    · rw [List.append_nil]
      exact ⟨l, hl, hl'.isSettled⟩
    · obtain ⟨m, hm, hm'⟩ := scan_negated hpower hl' []
      exact ⟨m, scan_append_of_eq hl hm, hm'.isSettled⟩

/-- What is typed into a slot can stand for a value, as a number or quoted. -/
theorem isExpression_lua (l : Literal) : IsExpression l.lua := by
  cases l with
  | number x => exact isExpression_number x
  | bool b => cases b <;> exact ⟨_, rfl, rfl⟩
  | text s => exact isExpression_quote s

/-- Where a number is expected, a text that is none is converted at run time. -/
theorem isExpression_luaNumber (l : Literal) : IsExpression l.luaNumber := by
  cases l with
  | number x => exact isExpression_number x
  | bool b => exact isExpression_lua (.bool b)
  | text s =>
    unfold Literal.luaNumber
    dsimp only
    split
    · exact ⟨.word ['0'], rfl, rfl⟩
    · exact isExpression_quote s

/-! ## Names of pins

The name of a pin is written as it is, so what it is must be told from its characters. A path whose
words are not reserved leaves nothing open. -/

/-- The words that Lua keeps for itself. -/
def reservedWords : List String :=
  ["and", "break", "do", "else", "elseif", "end", "false", "for", "function", "goto", "if", "in",
   "local", "nil", "not", "or", "repeat", "return", "then", "true", "until", "while"]

/-- The words of a text, with those letters in front that belong to the first one. -/
def wordsFrom (letters : List Char) : List Char → List (List Char)
  | [] => [letters]
  | c :: cs => if isNameChar c then wordsFrom (letters ++ [c]) cs else letters :: wordsFrom [] cs

/-- Whether a text has a reserved word in it. -/
def hasReservedWord (s : String) : Bool :=
  (wordsFrom [] s.toList).any fun letters => String.ofList letters ∈ reservedWords

/-- The scanner behind some letters of a word, or behind none. -/
def Lexeme.inWord (letters : List Char) : Lexeme :=
  if letters = [] then .gap else .word letters

/-- Between words, or in a word that is no block word, nothing is left to come. -/
theorem Lexeme.isSettled_inWord {letters : List Char} (h : isBlockWord letters = false) :
    (Lexeme.inWord letters).isSettled = true := by
  unfold inWord
  split
  · rfl
  · simp [isSettled, h]

theorem step_inWord {c : Char} (hc : isNameChar c = true) (letters : List Char)
    (stack : List Opener) :
    step ⟨stack, .inWord letters⟩ c = some ⟨stack, .inWord (letters ++ [c])⟩ := by
  cases letters with
  | nil => exact outside_of_isNameChar hc stack
  | cons d ds => simp [Lexeme.inWord, step, hc]

/-- A text of words with points between them, as far as none of the words is a block word. -/
theorem scan_path {cs : List Char} (hcs : ∀ c ∈ cs, isNameChar c = true ∨ c = '.')
    (letters : List Char) (hwords : ∀ w ∈ wordsFrom letters cs, isBlockWord w = false)
    (stack : List Opener) :
    ∃ l, scan ⟨stack, .inWord letters⟩ cs = some ⟨stack, l⟩ ∧ l.isSettled = true := by
  induction cs generalizing letters with
  | nil =>
    have hplain := hwords letters (by simp [wordsFrom])
    exact ⟨.inWord letters, rfl, Lexeme.isSettled_inWord hplain⟩
  | cons c cs ih =>
    have hrest : ∀ d ∈ cs, isNameChar d = true ∨ d = '.' := fun d hd =>
      hcs d (List.mem_cons_of_mem _ hd)
    rw [wordsFrom] at hwords
    by_cases hc : isNameChar c = true
    · rw [if_pos hc] at hwords
      rw [scan, step_inWord hc]
      exact ih hrest (letters ++ [c]) hwords
    · rw [if_neg hc] at hwords
      obtain rfl : c = '.' := (hcs c List.mem_cons_self).resolve_left hc
      have hplain := hwords letters List.mem_cons_self
      rw [scan, step_of_isSettled (Lexeme.isSettled_inWord hplain) (by decide)]
      exact ih hrest [] fun w hw => hwords w (List.mem_cons_of_mem _ hw)

/-- The name of a pin can stand for a value if no word of it is reserved. -/
theorem isExpression_path {s : String} (hs : ∀ c ∈ s.toList, isNameChar c = true ∨ c = '.')
    (hwords : hasReservedWord s = false) : IsExpression s := by
  have hreserved : (closingWord :: openingWords).all (fun w => String.ofList w ∈ reservedWords)
      = true := by
    decide
  refine scan_path hs [] (fun w hw => isBlockWord_eq_false_iff.2 fun hblock => ?_) []
  have hfree : String.ofList w ∉ reservedWords := by
    simpa using List.any_eq_false.1 hwords w hw
  exact hfree (of_decide_eq_true (List.all_eq_true.1 hreserved w hblock))

end BlockLink.Lua
