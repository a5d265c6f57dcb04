import BlockLink.Proofs.Lua.Fragment
import BlockLink.Proofs.Lua.Token

/-!
# `BlockLink/Proofs/Lua/Name.lean` — names, paths and numerals as they stand in code

What may be put into code without quotes: a name, names with dots between them, or a numeral. A name
is a word of letters, digits and underscores that begins with no digit and is not reserved; `IsPath`
is the grammar of dotted names. Both are told from the characters alone.

The lexer decides what Lua makes of the same characters. Over the characters that can turn up here
the two agree: a text is read as one numeral, or as names and dots in turn, exactly if it is a
numeral or a path (`readsAs_argument_iff`). From the characters to the tokens this follows the
grammar. Back, the tokens spell the text (`spells_lex`), so what they are can be read off it.
-/

set_option autoImplicit false

namespace BlockLink.Lua

open BlockLink.Text

/-! ## Characters -/

/-- The letters by their codes, from which disjointness of the classes is arithmetic. -/
theorem isLetter_iff {c : Char} :
    isLetter c = true ↔ (97 ≤ c.toNat ∧ c.toNat ≤ 122) ∨ (65 ≤ c.toNat ∧ c.toNat ≤ 90) := by
  simp only [isLetter, Bool.or_eq_true, Bool.and_eq_true, decide_eq_true_eq, Char.le_def,
    UInt32.le_iff_toNat_le]
  exact Iff.rfl

theorem isDigit_iff {c : Char} : isDigit c = true ↔ 48 ≤ c.toNat ∧ c.toNat ≤ 57 := by
  simp only [isDigit, Bool.and_eq_true, decide_eq_true_eq, Char.le_def, UInt32.le_iff_toNat_le]
  exact Iff.rfl

/-- Whether a character may begin a name. -/
def opensWord (c : Char) : Bool :=
  isLetter c || c == '_'

theorem toNat_of_opensWord {c : Char} (h : opensWord c = true) :
    (97 ≤ c.toNat ∧ c.toNat ≤ 122) ∨ (65 ≤ c.toNat ∧ c.toNat ≤ 90) ∨ c.toNat = 95 := by
  rw [opensWord, Bool.or_eq_true, isLetter_iff, beq_iff_eq] at h
  rcases h with (h | h) | rfl
  · exact .inl h
  · exact .inr (.inl h)
  · exact .inr (.inr rfl)

theorem isDigit_of_opensWord {c : Char} (h : opensWord c = true) : isDigit c = false := by
  have hrange := toNat_of_opensWord h
  rw [Bool.eq_false_iff, ne_eq, isDigit_iff]
  omega

theorem isNameChar_eq (c : Char) : isNameChar c = (opensWord c || isDigit c) := by
  unfold isNameChar opensWord
  cases isLetter c <;> cases isDigit c <;> simp

theorem opensWord_iff {c : Char} : opensWord c = true ↔ isNameChar c = true ∧
    isDigit c = false := by
  rw [isNameChar_eq]
  constructor
  · intro h
    exact ⟨by simp [h], isDigit_of_opensWord h⟩
  · rintro ⟨h, hdigit⟩
    simpa [hdigit] using h

theorem isSpace_of_isNameChar {c : Char} (h : isNameChar c = true) : isSpace c = false := by
  rw [Bool.eq_false_iff]
  intro hspace
  simp only [isSpace, Bool.or_eq_true, beq_iff_eq, Bool.and_eq_true, decide_eq_true_eq] at hspace
  rcases hspace with rfl | hspace
  · exact absurd h (by decide)
  · rw [isNameChar_eq, Bool.or_eq_true, isDigit_iff] at h
    have hrange := h.imp_left toNat_of_opensWord
    omega

/-! ## Names and paths

The grammar of both, and how it is told from a list of characters: names by their first character,
paths by the words between their dots. -/

/-- The characters are a name. -/
structure IsName (cs : List Char) : Prop where
  nonempty : cs ≠ []
  chars : ∀ c ∈ cs, isNameChar c = true
  opening : ∀ c ∈ cs.head?, isDigit c = false
  free : String.ofList cs ∉ reservedWords

/-- The characters are names with dots between them. -/
inductive IsPath : List Char → Prop
  | name {n : List Char} (hn : IsName n) : IsPath n
  | dot {n rest : List Char} (hn : IsName n) (hrest : IsPath rest) : IsPath (n ++ '.' :: rest)

theorem isIdentifierChars_iff {cs : List Char} :
    isIdentifierChars cs = true ↔
      cs ≠ [] ∧ (∀ c ∈ cs, isNameChar c = true) ∧ ∀ c ∈ cs.head?, isDigit c = false := by
  cases cs with
  | nil => simp [isIdentifierChars]
  | cons c cs =>
    have hfirst : (isLetter c || c == '_') = opensWord c := rfl
    rw [isIdentifierChars, hfirst, Bool.and_eq_true, opensWord_iff]
    simp [and_assoc, and_comm]

/-- A name is what has the shape of one and is not reserved. -/
theorem isName_iff {cs : List Char} :
    IsName cs ↔ isIdentifierChars cs = true ∧ String.ofList cs ∉ reservedWords := by
  rw [isIdentifierChars_iff]
  exact ⟨fun h => ⟨⟨h.nonempty, h.chars, h.opening⟩, h.free⟩, fun h =>
    ⟨h.1.1, h.1.2.1, h.1.2.2, h.2⟩⟩

theorem isIdentifierChars_append {cs : List Char} (h : isIdentifierChars cs = true) {c : Char}
    (hc : isNameChar c = true) : isIdentifierChars (cs ++ [c]) = true := by
  cases cs with
  | nil => cases h
  | cons d cs => simpa [isIdentifierChars, hc] using h

/-- What has the shape of a name has a first character that begins one. -/
theorem exists_of_isIdentifierChars {cs : List Char} (h : isIdentifierChars cs = true) :
    ∃ c rest, cs = c :: rest ∧ opensWord c = true ∧ ∀ d ∈ rest, isNameChar d = true := by
  cases cs with
  | nil => cases h
  | cons c rest =>
    rw [isIdentifierChars, Bool.and_eq_true, List.all_eq_true] at h
    exact ⟨c, rest, rfl, h.1, h.2⟩

theorem IsPath.exists_opensWord {cs : List Char} (h : IsPath cs) :
    ∃ c rest, cs = c :: rest ∧ opensWord c = true := by
  cases h with
  | name hn =>
    obtain ⟨c, rest, rfl, hc, -⟩ := exists_of_isIdentifierChars (isName_iff.1 hn).1
    exact ⟨c, rest, rfl, hc⟩
  | dot hn _ =>
    obtain ⟨c, rest, rfl, hc, -⟩ := exists_of_isIdentifierChars (isName_iff.1 hn).1
    exact ⟨c, _, rfl, hc⟩

/-! ### By their words -/

/-- Characters of names belong to the word that is being read. -/
theorem wordsFrom_append {n : List Char} (h : ∀ c ∈ n, isNameChar c = true)
    (letters cs : List Char) :
    wordsFrom letters (n ++ cs) = wordsFrom (letters ++ n) cs := by
  induction n generalizing letters with
  | nil => simp
  | cons c n ih =>
    rw [List.forall_mem_cons] at h
    rw [List.cons_append, wordsFrom, if_pos h.1, ih h.2]
    simp

/-- Words are made of characters of names. -/
theorem isNameChar_of_mem_wordsFrom {letters cs w : List Char}
    (hletters : ∀ c ∈ letters, isNameChar c = true) (hw : w ∈ wordsFrom letters cs) :
    ∀ c ∈ w, isNameChar c = true := by
  induction cs generalizing letters with
  | nil =>
    rw [wordsFrom, List.mem_singleton] at hw
    rw [hw]
    exact hletters
  | cons d cs ih =>
    rw [wordsFrom] at hw
    split at hw
    · rename_i hd
      exact ih (by simpa [or_imp, forall_and] using ⟨hletters, hd⟩) hw
    · rcases List.mem_cons.1 hw with rfl | hw
      · exact hletters
      · exact ih (by simp) hw

/-- Words that are names, with the dots between them, make a path. -/
theorem isPath_of_wordsFrom {letters cs : List Char} (hcs : ∀ c ∈ cs, isNameChar c = true ∨ c = '.')
    (h : ∀ w ∈ wordsFrom letters cs, IsName w) : IsPath (letters ++ cs) := by
  induction cs generalizing letters with
  | nil =>
    rw [List.append_nil]
    exact .name (h letters List.mem_cons_self)
  | cons c cs ih =>
    rw [List.forall_mem_cons] at hcs
    rw [wordsFrom] at h
    split at h
    · have hpath := ih hcs.2 h
      rwa [List.append_assoc, List.singleton_append] at hpath
    · rename_i hc
      obtain rfl := hcs.1.resolve_left hc
      rw [List.forall_mem_cons] at h
      exact .dot h.1 (ih hcs.2 h.2)

/-- A path is a text of words and dots whose words are all names. -/
theorem isPath_iff_words {cs : List Char} (hcs : ∀ c ∈ cs, isNameChar c = true ∨ c = '.') :
    IsPath cs ↔ ∀ w ∈ wordsFrom [] cs, IsName w := by
  constructor
  · intro h
    clear hcs
    induction h with
    | @name n hn =>
      have hwords := wordsFrom_append hn.chars [] []
      rw [List.append_nil, List.nil_append] at hwords
      rw [hwords]
      simpa [wordsFrom] using hn
    | @dot n rest hn _ ih =>
      rw [wordsFrom_append hn.chars, List.nil_append, wordsFrom, if_neg (by decide)]
      exact List.forall_mem_cons.2 ⟨hn, ih⟩
  · exact isPath_of_wordsFrom hcs

/-! ## What the lexer makes of them

From the characters to the tokens, along the grammar. -/

/-- Whether tokens are names with dots between them. -/
def isAccess : List Token → Bool
  | [.word n] => !reservedWords.contains (String.ofList n)
  | .word n :: .symbol ['.'] :: rest => !reservedWords.contains (String.ofList n) && isAccess rest
  | _ => false

/-- Whether tokens are a numeral, or names with dots between them. -/
def isArgument : List Token → Bool
  | [.numeral _] => true
  | ts => isAccess ts

/-- Whether a text is read to its end as tokens of a kind. -/
def readsAs (kind : List Token → Bool) (cs : List Char) : Bool :=
  (lex cs).any fun l => l.ending == .between && kind l.tokens

namespace Lexer

theorem start_of_opensWord {c : Char} (h : opensWord c = true) : start c = ([], word [c]) := by
  have hspace := isSpace_of_isNameChar (opensWord_iff.1 h).1
  have hword : (isLetter c || c == '_') = true := h
  simp only [start, hspace, hword, Bool.false_eq_true, if_false, if_true]

theorem start_of_isDigit {c : Char} (h : isDigit c = true) : start c = ([], numeral [c]) := by
  have hspace : isSpace c = false := isSpace_of_isNameChar (by simp [isNameChar_eq, h])
  have hword : (isLetter c || c == '_') = false := by
    rw [Bool.eq_false_iff]
    intro hword
    exact absurd (isDigit_of_opensWord hword) (by simp [h])
  simp only [start, hspace, hword, h, Bool.false_eq_true, if_false, if_true]

/-- The lexer stays in a word as long as there are characters of names. -/
theorem run_word {letters cs : List Char} (h : ∀ c ∈ cs, isNameChar c = true) :
    run (word letters) cs = some ([], word (letters ++ cs)) := by
  induction cs generalizing letters with
  | nil => simp [run]
  | cons c cs ih =>
    rw [List.forall_mem_cons] at h
    have hstep : step (word letters) c = some ([], word (letters ++ [c])) := by
      simp only [step, h.1, if_true]
    have hrun := run_cons_of_eq hstep (ih h.2)
    simpa using hrun

theorem run_identifier {cs : List Char} (h : isIdentifierChars cs = true) :
    run gap cs = some ([], word cs) := by
  obtain ⟨c, rest, rfl, hc, hrest⟩ := exists_of_isIdentifierChars h
  have hstep : step gap c = some ([], word [c]) := congrArg some (start_of_opensWord hc)
  exact run_cons_of_eq hstep (run_word hrest)

theorem step_dot_of_opensWord {c : Char} (h : opensWord c = true) :
    step (symbol ['.']) c = some (startBehind (.symbol ['.']) c) := by
  have hdot : c ≠ '.' := by
    rintro rfl
    exact absurd h (by decide)
  have hlong : longSymbols.contains (['.'] ++ [c]) = false := by simp [longSymbols]
  simp only [step, isDigit_of_opensWord h, hlong, hdot]
  simp

end Lexer

theorem lex_identifier {cs : List Char} (h : isIdentifierChars cs = true) :
    lex cs = some ⟨[.word cs], .between⟩ := by
  rw [lex, Lexer.run_identifier h]
  rfl

/-- A word and a dot are two tokens in front of whatever begins with a word. -/
theorem lex_word_dot {n : List Char} (hn : isIdentifierChars n = true) {c : Char}
    (hc : opensWord c = true) (cs : List Char) :
    lex (n ++ '.' :: c :: cs) = (lex (c :: cs)).map (·.behind [.word n, .symbol ['.']]) := by
  have hdot : Lexer.step (.word n) '.' = some ([.word n], .symbol ['.']) := rfl
  have hrun : Lexer.run .gap (n ++ '.' :: c :: cs)
      = (Lexer.run .gap (c :: cs)).map fun r => (.word n :: .symbol ['.'] :: r.1, r.2) := by
    rw [Lexer.run_append, Lexer.run_identifier hn, Option.bind_some, Lexer.run, hdot,
      Option.bind_some,
      Lexer.run_of_startBehind (Lexer.step_dot_of_opensWord hc), Option.map_map, Option.map_map]
    rfl
  rw [lex, hrun, lex]
  cases Lexer.run .gap (c :: cs) with
  | none => rfl
  | some r =>
    simp only [Option.map_some, Option.bind_some]
    cases r.2.finish with
    | none => rfl
    | some l => rfl

/-- A path is read as names and dots in turn. -/
theorem lex_of_isPath {cs : List Char} (h : IsPath cs) :
    ∃ ts, lex cs = some ⟨ts, .between⟩ ∧ isAccess ts = true := by
  induction h with
  | @name n hn =>
    obtain ⟨hshape, hfree⟩ := isName_iff.1 hn
    exact ⟨[.word n], lex_identifier hshape, by simpa [isAccess] using hfree⟩
  | @dot n rest hn hrest ih =>
    obtain ⟨hshape, hfree⟩ := isName_iff.1 hn
    obtain ⟨ts, hlex, haccess⟩ := ih
    obtain ⟨c, rest, rfl, hc⟩ := hrest.exists_opensWord
    refine ⟨.word n :: .symbol ['.'] :: ts, ?_, ?_⟩
    · rw [lex_word_dot hshape hc, hlex]
      rfl
    · rw [isAccess, haccess]
      simpa using hfree

/-! ## Numerals

A numeral is told by its characters alone, and the lexer takes it bit by bit. What has to be shown
is that no character of it ends the token early. -/

theorem isSome_digitValue?_of_le {radix radix' : Nat} (hle : radix ≤ radix') {c : Char}
    (h : (digitValue? radix c).isSome = true) : (digitValue? radix' c).isSome = true := by
  obtain ⟨d, hd⟩ := Option.isSome_iff_exists.1 h
  rw [digitValue?, Option.filter_eq_some_iff, decide_eq_true_eq] at hd
  refine Option.isSome_iff_exists.2 ⟨d, ?_⟩
  rw [digitValue?, Option.filter_eq_some_iff, decide_eq_true_eq]
  exact ⟨hd.1, Nat.lt_of_lt_of_le hd.2 hle⟩

theorem isSome_digitValue?_ten {c : Char} :
    (digitValue? 10 c).isSome = true ↔ isDigit c = true := by
  have hdigit : isDigit c = c.isDigit := rfl
  rw [hdigit]
  constructor
  · intro h
    obtain ⟨d, hd⟩ := Option.isSome_iff_exists.1 h
    exact isDigit_of_digitValue? hd
  · intro h
    rw [digitValue?_of_isDigit h]
    rfl

/-- What an exponent is made of. -/
theorem mem_isExponent {hexadecimal : Bool} {text : List Char}
    (h : isExponent hexadecimal text = true) {c : Char} (hc : c ∈ text) :
    isDigit c = true ∨ isExponentMark hexadecimal c = true ∨ c = '+' ∨ c = '-' := by
  unfold isExponent at h
  split at h
  · cases hc
  all_goals
    simp only [isDigits, Bool.and_eq_true, List.all_eq_true] at h
    simp only [List.mem_cons] at hc
    obtain ⟨hmark, -, hdigits⟩ := h
    rcases hc with rfl | hc
    · exact .inr (.inl hmark)
  · rcases hc with rfl | hc
    · exact .inr (.inr (.inl rfl))
    · exact .inl (hdigits c hc)
  · rcases hc with rfl | hc
    · exact .inr (.inr (.inr rfl))
    · exact .inl (hdigits c hc)
  · exact .inl (hdigits c hc)

theorem holds_or_mem_dropWhile (p : Char → Bool) {text : List Char} {c : Char} (hc : c ∈ text) :
    p c = true ∨ c ∈ text.dropWhile p := by
  rw [← List.takeWhile_append_dropWhile (p := p) (l := text), List.mem_append] at hc
  exact hc.imp_left (List.all_eq_true.1 List.all_takeWhile c)

/-- Whether a character is a digit of a numeral of either kind. -/
def isDigitOf (hexadecimal : Bool) (c : Char) : Bool :=
  (digitValue? (if hexadecimal then 16 else 10) c).isSome

/-- The digits before the point, those behind it and the exponent, with the digits of either kind
under one name. -/
theorem isMagnitude_eq (hexadecimal : Bool) (text : List Char) :
    isMagnitude hexadecimal text = match text.dropWhile (isDigitOf hexadecimal) with
      | '.' :: rest =>
        !(text.takeWhile (isDigitOf hexadecimal) ++ rest.takeWhile (isDigitOf hexadecimal)).isEmpty
          && isExponent hexadecimal (rest.dropWhile (isDigitOf hexadecimal))
      | rest =>
        !(text.takeWhile (isDigitOf hexadecimal)).isEmpty && isExponent hexadecimal rest := rfl

/-- What a magnitude is made of. -/
theorem mem_isMagnitude {hexadecimal : Bool} {text : List Char}
    (h : isMagnitude hexadecimal text = true) {c : Char} (hc : c ∈ text) :
    (digitValue? 16 c).isSome = true ∨ c = '.' ∨ isExponentMark hexadecimal c = true ∨
    c = '+' ∨ c = '-' := by
  have hdigit (hd : isDigitOf hexadecimal c = true) : (digitValue? 16 c).isSome = true := by
    refine isSome_digitValue?_of_le ?_ hd
    cases hexadecimal <;> decide
  have hexponent {l : List Char} (hl : isExponent hexadecimal l = true) (hcl : c ∈ l) :
      (digitValue? 16 c).isSome = true ∨ c = '.' ∨ isExponentMark hexadecimal c = true ∨
      c = '+' ∨ c = '-' :=
    (mem_isExponent hl hcl).imp
      (fun hd => isSome_digitValue?_of_le (by decide) (isSome_digitValue?_ten.2 hd)) .inr
  rw [isMagnitude_eq] at h
  -- Digits, then perhaps a point and digits, then perhaps an exponent.
  rcases holds_or_mem_dropWhile (isDigitOf hexadecimal) hc with hc | hc
  · exact .inl (hdigit hc)
  · split at h
    · rename_i rest heq
      rw [Bool.and_eq_true] at h
      rw [heq, List.mem_cons] at hc
      rcases hc with rfl | hc
      · exact .inr (.inl rfl)
      · rcases holds_or_mem_dropWhile (isDigitOf hexadecimal) hc with hc | hc
        · exact .inl (hdigit hc)
        · exact hexponent h.2 hc
    · rw [Bool.and_eq_true] at h
      exact hexponent h.2 hc

/-- A magnitude begins with a digit, or with a point and a digit. -/
theorem isMagnitude_opening {hexadecimal : Bool} {text : List Char}
    (h : isMagnitude hexadecimal text = true) :
    ∃ c rest, text = c :: rest ∧ (isDigitOf hexadecimal c = true ∨
      c = '.' ∧ ∃ d rest', rest = d :: rest' ∧ isDigitOf hexadecimal d = true) := by
  rw [isMagnitude_eq] at h
  cases text with
  | nil => cases h
  | cons c rest =>
    refine ⟨c, rest, rfl, ?_⟩
    cases hc : isDigitOf hexadecimal c with
    | true => exact .inl rfl
    | false =>
      -- Without a digit in front there has to be one behind the point.
      rw [List.dropWhile_cons_of_neg (by simp [hc]), List.takeWhile_cons_of_neg (by simp [hc])] at h
      split at h
      · rename_i heq
        cases heq
        cases rest with
        | nil => cases h
        | cons d rest =>
          cases hd : isDigitOf hexadecimal d with
          | true => exact .inr ⟨rfl, d, rest, rfl, hd⟩
          | false =>
            rw [List.takeWhile_cons_of_neg (by simp [hd])] at h
            cases h
      · cases h

namespace Lexer

/-- The lexer stays in a numeral as long as each character continues it, whatever was read
before. -/
theorem run_numeral {text cs : List Char}
    (h : ∀ c ∈ cs, ∀ more, continuesNumeral (text ++ more) c = true) :
    run (numeral text) cs = some ([], numeral (text ++ cs)) := by
  induction cs generalizing text with
  | nil => simp [run]
  | cons c cs ih =>
    rw [List.forall_mem_cons] at h
    have hc : continuesNumeral text c = true := by simpa using h.1 []
    have hstep : step (numeral text) c = some ([], numeral (text ++ [c])) := by
      simp only [step, hc, if_true]
    have hrun := run_cons_of_eq hstep (ih fun d hd more => by
      rw [List.append_assoc]
      exact h.2 d hd _)
    simpa using hrun

theorem continuesNumeral_of_digit {text : List Char} {c : Char}
    (h : (digitValue? 16 c).isSome = true ∨ c = '.' ∨
      isExponentMark (isHexadecimal text) c = true) : continuesNumeral text c = true := by
  unfold continuesNumeral
  rcases h with h | rfl | h <;> simp [*]

/-- In a decimal numeral the mark of the exponent is a hexadecimal digit, so that it is taken
whatever was read before. -/
theorem isSome_digitValue?_of_isExponentMark {c : Char} (h : isExponentMark false c = true) :
    (digitValue? 16 c).isSome = true := by
  simp only [isExponentMark, Bool.false_eq_true, if_false, Bool.or_eq_true, beq_iff_eq] at h
  rcases h with rfl | rfl <;> rfl

/-- Every character of a magnitude but a sign continues the numeral. -/
theorem continuesNumeral_of_mem_magnitude {hexadecimal : Bool} {magnitude text : List Char}
    (h : isMagnitude hexadecimal magnitude = true)
    (htext : hexadecimal = true → isHexadecimal text = true)
    {c : Char} (hc : c ∈ magnitude) (hplus : c ≠ '+') (hminus : c ≠ '-') :
    continuesNumeral text c = true := by
  refine continuesNumeral_of_digit ?_
  rcases mem_isMagnitude h hc with hdigit | hdot | hmark | rfl | rfl
  · exact .inl hdigit
  · exact .inr (.inl hdot)
  · cases hexadecimal with
    | true =>
      rw [htext rfl]
      exact .inr (.inr hmark)
    | false => exact .inl (isSome_digitValue?_of_isExponentMark hmark)
  · exact absurd rfl hplus
  · exact absurd rfl hminus

theorem step_dot_of_isDigit {c : Char} (h : isDigit c = true) :
    step (symbol ['.']) c = some ([], numeral ['.', c]) := by
  have hdash : ¬ (['.'] = ['-'] ∧ c = '-') := by simp
  simp only [step, h, if_neg hdash, and_self, if_true]

/-- A numeral without signs is taken as a whole. -/
theorem run_of_isNumeral {cs : List Char} (hcs : ∀ c ∈ cs, c ≠ '+' ∧ c ≠ '-')
    (h : isNumeral cs = true) :
    run gap cs = some ([], numeral cs) := by
  have hexadecimal {x : Char} (hx : x = 'x' ∨ x = 'X') {text : List Char}
      (htext : isMagnitude true text = true) (hsigns : ∀ c ∈ '0' :: x :: text, c ≠ '+' ∧ c ≠ '-') :
      run gap ('0' :: x :: text) = some ([], numeral ('0' :: x :: text)) := by
    have hhead : run gap ['0', x] = some ([], numeral ['0', x]) := by
      rcases hx with rfl | rfl <;> rfl
    refine run_append_of_eq hhead (run_numeral fun c hc more => ?_)
    have hsign := hsigns c (List.mem_cons_of_mem _ (List.mem_cons_of_mem _ hc))
    refine continuesNumeral_of_mem_magnitude htext (fun _ => ?_) hc hsign.1 hsign.2
    rcases hx with rfl | rfl <;> rfl
  -- Hexadecimal behind either mark, or decimal.
  unfold isNumeral at h
  split at h
  · exact hexadecimal (.inl rfl) h hcs
  · exact hexadecimal (.inr rfl) h hcs
  · have hcontinues {c : Char} (hc : c ∈ cs) (text : List Char) : continuesNumeral text c = true :=
      continuesNumeral_of_mem_magnitude h (fun hfalse => nomatch hfalse) hc
        (hcs c hc).1 (hcs c hc).2
    obtain ⟨c, rest, rfl, hdigit | ⟨rfl, d, rest, rfl, hdigit⟩⟩ := isMagnitude_opening h
    · have hstep : step gap c = some ([], numeral [c]) :=
        congrArg some (start_of_isDigit (isSome_digitValue?_ten.1 hdigit))
      exact run_cons_of_eq hstep (run_numeral fun d hd more =>
        hcontinues (List.mem_cons_of_mem _ hd) _)
    · -- The dot is a symbol until the digit behind it makes it the beginning of a numeral.
      have hdot : step gap '.' = some ([], symbol ['.']) := rfl
      have hstep := step_dot_of_isDigit (isSome_digitValue?_ten.1 hdigit)
      refine run_cons_of_eq hdot (run_cons_of_eq hstep (run_numeral fun c hc more => ?_))
      exact hcontinues (List.mem_cons_of_mem _ (List.mem_cons_of_mem _ hc)) _

end Lexer

theorem lex_of_isNumeral {cs : List Char} (hcs : ∀ c ∈ cs, c ≠ '+' ∧ c ≠ '-')
    (h : isNumeral cs = true) :
    lex cs = some ⟨[.numeral cs], .between⟩ := by
  rw [lex, Lexer.run_of_isNumeral hcs h, Option.bind_some, Lexer.finish, if_pos h]
  rfl

/-! ## The tokens spell the text

Over these characters there are no strings and no comments, so nothing of the text is lost between
the tokens. -/

/-- The characters of a token that is written as it is. -/
def Token.spelling : Token → List Char
  | .word letters => letters
  | .numeral text => text
  | .symbol marks => marks
  | .string _ | .stray _ => []

/-- The token is written as it is; a word has the shape of a name, and a numeral is one. -/
def Token.IsSound : Token → Prop
  | .word letters => isIdentifierChars letters = true
  | .numeral text => isNumeral text = true
  | .symbol _ => True
  | .string _ | .stray _ => False

namespace Lexer

/-- The characters of the token that the lexer is in the middle of. -/
def pending : Lexer → List Char
  | word letters => letters
  | numeral text => text
  | symbol marks => marks
  | _ => []

/-- The lexer is between tokens, or in one that is made of letters, digits, underscores and dots. -/
def IsPlain : Lexer → Prop
  | gap | numeral _ => True
  | word letters => isIdentifierChars letters = true
  | symbol marks => marks ≠ ['-']
  | _ => False

/-- What has been read of a text is its tokens and the beginning of the next. -/
structure Spells (text : List Char) (r : List Token × Lexer) : Prop where
  eq : r.1.flatMap Token.spelling ++ r.2.pending = text
  sound : ∀ t ∈ r.1, t.IsSound
  plain : r.2.IsPlain

theorem spells_nil {q : Lexer} (h : q.IsPlain) : Spells q.pending ([], q) :=
  ⟨rfl, by simp, h⟩

theorem spells_token (token : Token) (h : token.IsSound) : Spells token.spelling ([token], gap) :=
  ⟨by simp [pending], by simpa using h, trivial⟩

/-- Reading on from the middle of a token spells that token together with what was read. -/
theorem Spells.append {text text' : List Char} {ts ts' : List Token} {q q' : Lexer}
    (h : Spells text (ts, q)) (h' : Spells (q.pending ++ text') (ts', q')) :
    Spells (text ++ text') (ts ++ ts', q') where
  eq := by
    rw [← h.eq, List.flatMap_append, List.append_assoc, h'.eq, List.append_assoc]
  sound t ht := (List.mem_append.1 ht).elim (h.sound t) (h'.sound t)
  plain := h'.plain

/-- The first character of a token is in it. -/
theorem spells_start {c : Char} (hc : isNameChar c = true ∨ c = '.') : Spells [c] (start c) := by
  rcases hc with hc | rfl
  · rw [isNameChar_eq, Bool.or_eq_true] at hc
    rcases hc with hc | hc
    · rw [start_of_opensWord hc]
      refine spells_nil (q := word [c]) ?_
      exact isIdentifierChars_iff.2 ⟨by simp, by simpa using (opensWord_iff.1 hc).1,
        by simpa using (opensWord_iff.1 hc).2⟩
    · rw [start_of_isDigit hc]
      exact spells_nil (q := numeral [c]) trivial
  · have hdot : ['.'] ≠ ['-'] := by decide
    exact spells_nil (q := symbol ['.']) hdot

theorem spells_startBehind (token : Token) (htoken : token.IsSound) {c : Char}
    (hc : isNameChar c = true ∨ c = '.') : Spells (token.spelling ++ [c]) (startBehind token c) :=
  (spells_token token htoken).append (spells_start hc)

/-- One character is added to the pending token, or begins the next one and the pending one is
done. -/
theorem spells_step {q : Lexer} (hq : q.IsPlain) {c : Char} (hc : isNameChar c = true ∨ c = '.')
    {r : List Token × Lexer} (h : q.step c = some r) : Spells (q.pending ++ [c]) r := by
  cases q with
  | gap =>
    cases h
    exact spells_start hc
  | word letters =>
    rw [step] at h
    split at h
    · rename_i hname
      cases h
      exact spells_nil (q := word (letters ++ [c])) (isIdentifierChars_append hq hname)
    · cases h
      exact spells_startBehind (.word letters) hq hc
  | numeral text =>
    rw [step] at h
    split at h
    · cases h
      exact spells_nil (q := numeral (text ++ [c])) trivial
    · split at h
      · rename_i hnumeral
        cases h
        exact spells_startBehind (.numeral text) hnumeral hc
      · cases h
  | symbol marks =>
    -- Only behind a minus sign could a comment begin, whose characters no token would spell.
    rw [step, if_neg fun hdash => hq hdash.1] at h
    split at h
    · rename_i hdigit
      cases h
      rw [hdigit.1]
      exact spells_nil (q := numeral ['.', c]) trivial
    · split at h
      · rename_i hdots
        cases h
        rw [hdots.1, hdots.2]
        have htwo : ['.', '.'] ≠ ['-'] := by decide
        exact spells_nil (q := symbol ['.', '.']) htwo
      · split at h
        · cases h
          exact spells_token (.symbol (marks ++ [c])) trivial
        · cases h
          exact spells_startBehind (.symbol marks) trivial hc
  | square | dashes | commentSquare | comment | short | long => exact hq.elim

/-- What was read so far is spelled by the tokens and the pending one. -/
theorem spells_run {q : Lexer} (hq : q.IsPlain) {cs : List Char}
    (hcs : ∀ c ∈ cs, isNameChar c = true ∨ c = '.') {r : List Token × Lexer}
    (h : run q cs = some r) : Spells (q.pending ++ cs) r := by
  induction cs generalizing q r with
  | nil =>
    cases h
    rw [List.append_nil]
    exact spells_nil hq
  | cons c cs ih =>
    rw [List.forall_mem_cons] at hcs
    rw [run, Option.bind_eq_some_iff] at h
    obtain ⟨first, hfirst, hrest⟩ := h
    obtain ⟨rest, hrun, rfl⟩ := Option.map_eq_some_iff.1 hrest
    have hstep := spells_step hq hcs.1 hfirst
    have happend := hstep.append (ih hstep.plain hcs.2 hrun)
    rwa [List.append_assoc, List.singleton_append] at happend

/-- At the end the pending token is done. -/
theorem spells_finish {q : Lexer} (hq : q.IsPlain) {lexed : Lexed} (h : q.finish = some lexed) :
    Spells q.pending (lexed.tokens, gap) := by
  cases q with
  | gap =>
    cases h
    exact spells_nil trivial
  | word letters =>
    cases h
    exact spells_token (.word letters) hq
  | numeral text =>
    rw [finish] at h
    split at h
    · rename_i hnumeral
      cases h
      exact spells_token (.numeral text) hnumeral
    · cases h
  | symbol marks =>
    cases h
    exact spells_token (.symbol marks) trivial
  | square | dashes | commentSquare | comment | short | long => exact hq.elim

end Lexer

/-- Read to its end, a text of letters, digits, underscores and dots is what its tokens spell. -/
theorem spells_lex {cs : List Char} (hcs : ∀ c ∈ cs, isNameChar c = true ∨ c = '.') {lexed : Lexed}
    (h : lex cs = some lexed) :
    lexed.tokens.flatMap Token.spelling = cs ∧ ∀ t ∈ lexed.tokens, t.IsSound := by
  rw [lex, Option.bind_eq_some_iff] at h
  obtain ⟨r, hrun, hfinish⟩ := h
  obtain ⟨last, hlast, rfl⟩ := Option.map_eq_some_iff.1 hfinish
  have hread := Lexer.spells_run (q := .gap) trivial hcs hrun
  have hend := Lexer.spells_finish hread.plain hlast
  rw [← List.append_nil r.2.pending] at hend
  have hall := hread.append hend
  exact ⟨by simpa [Lexer.pending, Lexed.behind] using hall.eq, hall.sound⟩

/-- Names and dots in turn spell a path. -/
theorem isPath_of_isAccess {ts : List Token} (hsound : ∀ t ∈ ts, t.IsSound)
    (h : isAccess ts = true) :
    IsPath (ts.flatMap Token.spelling) := by
  fun_induction isAccess ts with
  | case1 n =>
    have hfree : String.ofList n ∉ reservedWords := by simpa using h
    have hname := isName_iff.2 ⟨hsound _ List.mem_cons_self, hfree⟩
    simpa [Token.spelling] using IsPath.name hname
  | case2 n rest ih =>
    rw [Bool.and_eq_true] at h
    rw [List.forall_mem_cons, List.forall_mem_cons] at hsound
    have hfree : String.ofList n ∉ reservedWords := by simpa using h.1
    have hname := isName_iff.2 ⟨hsound.1, hfree⟩
    simpa [Token.spelling] using IsPath.dot hname (ih hsound.2.2 h.2)
  | case3 => cases h

theorem isArgument_of_isAccess {ts : List Token} (h : isAccess ts = true) :
    isArgument ts = true := by
  unfold isArgument
  split
  · rfl
  · exact h

/-- Where it is spliced in as an argument, Lua reads one numeral, or names with dots between them,
exactly if the text is that. -/
theorem readsAs_argument_iff {cs : List Char} (hcs : ∀ c ∈ cs, isNameChar c = true ∨ c = '.') :
    readsAs isArgument cs = true ↔ isNumeral cs = true ∨ IsPath cs := by
  constructor
  · intro h
    rw [readsAs, Option.any_eq_true] at h
    obtain ⟨lexed, hlex, hkind⟩ := h
    rw [Bool.and_eq_true] at hkind
    obtain ⟨hspells, hsound⟩ := spells_lex hcs hlex
    -- What the tokens are is known, and the text is what they spell.
    rw [← hspells]
    have hargument := hkind.2
    unfold isArgument at hargument
    split at hargument
    · rename_i text heq
      rw [heq] at hsound ⊢
      exact .inl (by simpa [Token.spelling, Token.IsSound] using hsound)
    · exact .inr (isPath_of_isAccess hsound hargument)
  · rintro (h | h)
    · have hsigns : ∀ c ∈ cs, c ≠ '+' ∧ c ≠ '-' := by
        intro c hc
        constructor <;> rintro rfl <;> exact absurd (hcs _ hc) (by decide)
      rw [readsAs, lex_of_isNumeral hsigns h]
      rfl
    · obtain ⟨ts, hlex, haccess⟩ := lex_of_isPath h
      rw [readsAs, hlex]
      exact isArgument_of_isAccess haccess

/-- Behind the table of pins and a dot, Lua reads a field exactly if the text is a name. -/
theorem readsAs_field_iff {cs : List Char} (hcs : isIdentifierChars cs = true) :
    readsAs isAccess ("pio.".toList ++ cs) = true ↔ IsName cs := by
  obtain ⟨c, rest, rfl, hc, -⟩ := exists_of_isIdentifierChars hcs
  have hlex := lex_word_dot (n := ['p', 'i', 'o']) rfl hc rest
  rw [lex_identifier hcs] at hlex
  have htext : "pio.".toList ++ c :: rest = ['p', 'i', 'o'] ++ '.' :: c :: rest := rfl
  have hpio : "pio" ∉ reservedWords := by decide
  rw [readsAs, htext, hlex, isName_iff]
  simp [Lexed.behind, isAccess, hcs, hpio]

/-! ## Telling a channel by its words

A test that runs through the words once, for boards with many channels. -/

theorem isNumeral_opening {cs : List Char} (h : isNumeral cs = true) :
    ∃ c rest, cs = c :: rest ∧ (isDigit c = true ∨ c = '.') := by
  unfold isNumeral at h
  split at h
  · exact ⟨'0', _, rfl, .inl rfl⟩
  · exact ⟨'0', _, rfl, .inl rfl⟩
  · obtain ⟨c, rest, rfl, hdigit | ⟨rfl, -⟩⟩ := isMagnitude_opening h
    · exact ⟨c, rest, rfl, .inl (isSome_digitValue?_ten.1 hdigit)⟩
    · exact ⟨'.', rest, rfl, .inr rfl⟩

/-- Whether a word of name characters is a name: it is not empty, begins with no digit and is not
reserved. -/
def isFreeWord (w : List Char) : Bool :=
  w.head?.any (fun c => !isDigit c) && !reservedWords.contains (String.ofList w)

theorem isFreeWord_iff {w : List Char} (hw : ∀ c ∈ w, isNameChar c = true) :
    isFreeWord w = true ↔ IsName w := by
  rw [isName_iff, isIdentifierChars_iff, isFreeWord]
  cases w with
  | nil => simp
  | cons c w => simpa using fun _ _ => hw

/-- Whether a text of words and dots is a numeral or a path. What begins like a numeral must be one;
of anything else every word must be a name. -/
def isChannelText : List Char → Bool
  | [] => false
  | c :: cs =>
    if isDigit c || c == '.' then isNumeral (c :: cs) else (wordsFrom [] (c :: cs)).all isFreeWord

/-- The test by words agrees with the grammar. -/
theorem isChannelText_iff {cs : List Char} (hcs : ∀ c ∈ cs, isNameChar c = true ∨ c = '.') :
    isChannelText cs = true ↔ isNumeral cs = true ∨ IsPath cs := by
  have hwords : (wordsFrom [] cs).all isFreeWord = true ↔ IsPath cs := by
    rw [isPath_iff_words hcs, List.all_eq_true]
    exact forall₂_congr fun w hw => isFreeWord_iff (isNameChar_of_mem_wordsFrom (by simp) hw)
  cases cs with
  | nil =>
    refine iff_of_false (by simp [isChannelText]) ?_
    rintro (hnumeral | hpath)
    · cases hnumeral
    · obtain ⟨c, rest, heq, -⟩ := hpath.exists_opensWord
      cases heq
  | cons c cs =>
    rw [isChannelText]
    split
    · rename_i hopening
      -- A digit or a dot in front: no path begins so, and it must be a numeral.
      refine ⟨.inl, fun h => h.resolve_right fun hpath => ?_⟩
      obtain ⟨d, rest, heq, hd⟩ := hpath.exists_opensWord
      cases heq
      rw [isDigit_of_opensWord hd, Bool.false_or, beq_iff_eq] at hopening
      subst hopening
      exact absurd hd (by decide)
    · rename_i hopening
      rw [hwords]
      -- Anything else in front: no numeral begins so.
      refine ⟨.inr, fun h => h.resolve_left fun hnumeral => hopening ?_⟩
      obtain ⟨d, rest, heq, hd⟩ := isNumeral_opening hnumeral
      cases heq
      simpa using hd

end BlockLink.Lua
