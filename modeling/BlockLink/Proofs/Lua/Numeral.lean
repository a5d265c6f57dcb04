import BlockLink.Number
import BlockLink.Proofs.Lua.Name

/-!
# `BlockLink/Proofs/Lua/Numeral.lean` — the text of a number is a numeral

A number is written as digits, with a fraction and an exponent where it needs them, and with a minus
sign in front if it is negative. Lua reads the digits as one numeral, a negative exponent included,
and the sign as an operator (`exists_lex_number`).
-/

set_option autoImplicit false

namespace BlockLink.Lua

open BlockLink.Text

/-- The parts of a decimal numeral. -/
structure Decimal where
  whole : List Char
  fraction : List Char
  power : List Char
  digits : isDigits whole = true
  fraction_eq : fraction = [] ∨ ∃ ds, fraction = '.' :: ds ∧ ds.all isDigit = true
  power_eq : power = [] ∨ ∃ sign ds, power = 'e' :: (sign ++ ds) ∧ (sign = [] ∨ sign = ['-']) ∧
    isDigits ds = true

namespace Decimal

/-- The characters of a decimal numeral. -/
def text (d : Decimal) : List Char :=
  d.whole ++ d.fraction ++ d.power

theorem isDigitOf_false (c : Char) : isDigitOf false c = isDigit c := by
  rw [Bool.eq_iff_iff]
  exact isSome_digitValue?_ten

theorem exists_of_isDigits {ds : List Char} (h : isDigits ds = true) :
    (∃ c rest, ds = c :: rest) ∧ ∀ c ∈ ds, isDigit c = true := by
  rw [isDigits, Bool.and_eq_true, Bool.not_eq_true', List.isEmpty_eq_false_iff] at h
  exact ⟨List.exists_cons_of_ne_nil h.1, List.all_eq_true.1 h.2⟩

/-- The last part is an exponent of decimal numerals. -/
theorem isExponent_power (d : Decimal) : isExponent false d.power = true := by
  rcases d.power_eq with h | ⟨sign, ds, h, rfl | rfl, hds⟩
  · rw [h]
    rfl
  · obtain ⟨⟨c, rest, rfl⟩, hdigit⟩ := exists_of_isDigits hds
    have hc := hdigit c List.mem_cons_self
    rw [h, List.nil_append]
    -- The first digit is no sign, so all of it is the power.
    unfold isExponent
    split
    · rfl
    · rename_i heq
      cases heq
      exact absurd hc (by decide)
    · rename_i heq
      cases heq
      exact absurd hc (by decide)
    · rename_i heq
      cases heq
      rw [hds]
      rfl
  · rw [h]
    exact hds

/-- No digit opens an exponent. -/
theorem dropWhile_power (d : Decimal) : d.power.dropWhile (isDigitOf false) = d.power := by
  rcases d.power_eq with h | ⟨sign, ds, h, -, -⟩
  · rw [h]
    rfl
  · rw [h]
    rfl

theorem isMagnitude_text (d : Decimal) : isMagnitude false d.text = true := by
  obtain ⟨⟨c, rest, hwhole⟩, hdigit⟩ := exists_of_isDigits d.digits
  have hdigits : ∀ c ∈ d.whole, isDigitOf false c = true := fun c hc => by
    rw [isDigitOf_false]
    exact hdigit c hc
  -- The digits in front are taken first, then the point with its digits if there is one, and the
  -- exponent is left.
  rw [isMagnitude_eq, text, List.append_assoc, List.dropWhile_append_of_pos hdigits,
    List.takeWhile_append_of_pos hdigits]
  rcases d.fraction_eq with h | ⟨ds, h, hds⟩
  · rw [h, List.nil_append, dropWhile_power]
    have hpower := d.isExponent_power
    split
    · rename_i rest' heq
      rcases d.power_eq with h' | ⟨sign, ds, h', -, -⟩ <;> rw [h'] at heq <;> cases heq
    · rw [hpower, hwhole]
      rfl
  · have hds' : ∀ c ∈ ds, isDigitOf false c = true := fun c hc => by
      rw [isDigitOf_false]
      exact List.all_eq_true.1 hds c hc
    have hdot : ('.' :: ds ++ d.power).dropWhile (isDigitOf false) = '.' :: (ds ++ d.power) := rfl
    rw [h, hdot]
    simp [List.dropWhile_append_of_pos hds', dropWhile_power, d.isExponent_power, hwhole]

/-- The characters of a numeral are digits, a point, the mark of the exponent and its sign. -/
theorem mem_text {d : Decimal} {c : Char} (hc : c ∈ d.text) :
    isDigit c = true ∨ c = '.' ∨ c = 'e' ∨ c = '-' := by
  simp only [text, List.mem_append] at hc
  rcases hc with (hc | hc) | hc
  · exact .inl ((exists_of_isDigits d.digits).2 c hc)
  · rcases d.fraction_eq with h | ⟨ds, h, hds⟩
    · rw [h] at hc
      cases hc
    · rw [h, List.mem_cons] at hc
      exact hc.elim (fun h => .inr (.inl h)) fun h => .inl (List.all_eq_true.1 hds c h)
  · rcases d.power_eq with h | ⟨sign, ds, h, hsign, hds⟩
    · rw [h] at hc
      cases hc
    · rw [h, List.mem_cons, List.mem_append] at hc
      rcases hc with rfl | hc | hc
      · exact .inr (.inr (.inl rfl))
      · rcases hsign with rfl | rfl
        · cases hc
        · exact .inr (.inr (.inr (List.mem_singleton.1 hc)))
      · exact .inl ((exists_of_isDigits hds).2 c hc)

theorem isNumeral_text (d : Decimal) : isNumeral d.text = true := by
  have hmem : ∀ c ∈ d.text, c ≠ 'x' ∧ c ≠ 'X' := by
    intro c hc
    constructor <;> rintro rfl <;> exact absurd (mem_text hc) (by decide)
  unfold isNumeral
  split
  · rename_i heq
    exact absurd rfl (hmem 'x' (by simp [heq])).1
  · rename_i heq
    exact absurd rfl (hmem 'X' (by simp [heq])).2
  · exact d.isMagnitude_text

/-- What begins with digits and has no mark behind is not hexadecimal. -/
theorem isHexadecimal_of_isDigits {whole : List Char} (h : isDigits whole = true) {more : List Char}
    (hmore : ∀ c ∈ more, c ≠ 'x' ∧ c ≠ 'X') : isHexadecimal (whole ++ more) = false := by
  obtain ⟨⟨c, rest, rfl⟩, hdigit⟩ := exists_of_isDigits h
  have hx : ∀ d ∈ c :: rest ++ more, d ≠ 'x' ∧ d ≠ 'X' := by
    intro d hd
    rcases List.mem_append.1 hd with hd | hd
    · have hd := hdigit d hd
      constructor <;> rintro rfl <;> exact absurd hd (by decide)
    · exact hmore d hd
  unfold isHexadecimal
  split
  · rename_i d tail heq
    have hx := hx d (by rw [heq]; simp)
    simp [hx]
  · rename_i d tail heq
    have hx := hx d (by rw [heq]; simp)
    simp [hx]
  · rfl

/-- Digits, points and the mark of the exponent continue any numeral. -/
theorem continuesNumeral_of_unsigned {c : Char} (hc : isDigit c = true ∨ c = '.' ∨ c = 'e')
    (text : List Char) : continuesNumeral text c = true := by
  refine Lexer.continuesNumeral_of_digit ?_
  rcases hc with hc | rfl | rfl
  · exact .inl (isSome_digitValue?_of_le (by decide) (isSome_digitValue?_ten.2 hc))
  · exact .inr (.inl rfl)
  · exact .inl rfl

/-- What begins with digits is taken as a whole up to a sign. -/
theorem run_unsigned {whole more : List Char} (hwhole : isDigits whole = true)
    (hmore : ∀ c ∈ more, isDigit c = true ∨ c = '.' ∨ c = 'e') :
    Lexer.run .gap (whole ++ more) = some ([], .numeral (whole ++ more)) := by
  obtain ⟨⟨c, rest, rfl⟩, hdigit⟩ := exists_of_isDigits hwhole
  have hstart : Lexer.step .gap c = some ([], .numeral [c]) :=
    congrArg some (Lexer.start_of_isDigit (hdigit c List.mem_cons_self))
  refine Lexer.run_cons_of_eq hstart (Lexer.run_numeral fun d hd _ =>
    continuesNumeral_of_unsigned ?_ _)
  rcases List.mem_append.1 hd with hd | hd
  · exact .inl (hdigit d (List.mem_cons_of_mem _ hd))
  · exact hmore d hd

/-- The lexer takes a numeral as a whole. -/
theorem run_text (d : Decimal) : Lexer.run .gap d.text = some ([], .numeral d.text) := by
  have hfraction : ∀ c ∈ d.fraction, isDigit c = true ∨ c = '.' ∨ c = 'e' := by
    intro c hc
    rcases d.fraction_eq with h | ⟨ds, h, hds⟩
    · rw [h] at hc
      cases hc
    · rw [h, List.mem_cons] at hc
      exact hc.elim (fun h => .inr (.inl h)) fun h => .inl (List.all_eq_true.1 hds c h)
  -- Up to a sign everything is taken by `run_unsigned`.
  have hfront : ∀ power : List Char, (∀ c ∈ power, isDigit c = true ∨ c = '.' ∨ c = 'e') →
      Lexer.run .gap (d.whole ++ d.fraction ++ power)
        = some ([], .numeral (d.whole ++ d.fraction ++ power)) := by
    intro power hpower
    rw [List.append_assoc]
    refine run_unsigned d.digits fun c hc => ?_
    rcases List.mem_append.1 hc with hc | hc
    · exact hfraction c hc
    · exact hpower c hc
  rw [text]
  rcases d.power_eq with h | ⟨sign, ds, h, hsign, hds⟩
  · rw [h]
    exact hfront [] (by simp)
  · have hds := (exists_of_isDigits hds).2
    rcases hsign with rfl | rfl
    · rw [h]
      refine hfront _ fun c hc => ?_
      rcases List.mem_cons.1 hc with rfl | hc
      · exact .inr (.inr rfl)
      · exact .inl (hds c hc)
    · -- A sign continues a numeral only right behind the mark of the exponent.
      have hmark := hfront ['e'] (by simp)
      have hdecimal : isHexadecimal (d.whole ++ d.fraction ++ ['e']) = false := by
        rw [List.append_assoc]
        refine isHexadecimal_of_isDigits d.digits fun c hc => ?_
        have hc : isDigit c = true ∨ c = '.' ∨ c = 'e' := by
          rcases List.mem_append.1 hc with hc | hc
          · exact hfraction c hc
          · exact .inr (.inr (List.mem_singleton.1 hc))
        constructor <;> rintro rfl <;> exact absurd hc (by decide)
      have hminus : Lexer.step (.numeral (d.whole ++ d.fraction ++ ['e'])) '-'
          = some ([], .numeral (d.whole ++ d.fraction ++ ['e'] ++ ['-'])) := by
        have hcontinues : continuesNumeral (d.whole ++ d.fraction ++ ['e']) '-' = true := by
          rw [List.append_assoc] at hdecimal
          simp [continuesNumeral, hdecimal, isExponentMark]
        simp only [Lexer.step, hcontinues, if_true]
      have hdigits : Lexer.run (.numeral (d.whole ++ d.fraction ++ ['e'] ++ ['-'])) ds
          = some ([], .numeral (d.whole ++ d.fraction ++ ['e'] ++ ['-'] ++ ds)) :=
        Lexer.run_numeral fun c hc _ => continuesNumeral_of_unsigned (.inl (hds c hc)) _
      have hall := Lexer.run_append_of_eq hmark (Lexer.run_cons_of_eq hminus hdigits)
      rw [h]
      simpa using hall

theorem lex_text (d : Decimal) : lex d.text = some ⟨[.numeral d.text], .between⟩ := by
  rw [lex, d.run_text, Option.bind_some, Lexer.finish, if_pos d.isNumeral_text]
  rfl

/-- The sign in front is a token of its own. It is no comment, as the next character is a digit. -/
theorem lex_negated (d : Decimal) :
    lex ('-' :: d.text) = some ⟨[.symbol ['-'], .numeral d.text], .between⟩ := by
  obtain ⟨⟨c, rest, hwhole⟩, hdigit⟩ := exists_of_isDigits d.digits
  have hc := hdigit c (by simp [hwhole])
  have htext : d.text = c :: (rest ++ d.fraction ++ d.power) := by simp [text, hwhole]
  have hsign : Lexer.step .gap '-' = some ([], .symbol ['-']) := rfl
  -- The sign is settled by the first digit, which no operator goes on with.
  have hstep : Lexer.step (.symbol ['-']) c = some (Lexer.startBehind (.symbol ['-']) c) := by
    have hdash : c ≠ '-' := by
      rintro rfl
      exact absurd hc (by decide)
    have hlong : longSymbols.contains (['-'] ++ [c]) = false := by simp [longSymbols]
    simp only [Lexer.step, hlong, hdash]
    simp
  have hrun : Lexer.run .gap ('-' :: d.text) = some ([.symbol ['-']], .numeral d.text) := by
    have hrest : Lexer.run (.symbol ['-']) d.text = some ([.symbol ['-']], .numeral d.text) := by
      rw [htext, Lexer.run_of_startBehind hstep, ← htext, d.run_text]
      rfl
    exact Lexer.run_cons_of_eq hsign hrest
  rw [lex, hrun, Option.bind_some, Lexer.finish, if_pos d.isNumeral_text]
  rfl

end Decimal

/-! ## Numbers

The four ways in which digits are laid out all come to digits, a fraction that may be missing, and
an exponent that may be. -/

theorem isDigits_of_digits {ds : List Char} (hne : ds ≠ []) (h : ∀ c ∈ ds, c.isDigit = true) :
    isDigits ds = true := by
  rw [isDigits, Bool.and_eq_true, Bool.not_eq_true', List.isEmpty_eq_false_iff]
  exact ⟨hne, List.all_eq_true.2 h⟩

theorem isDigits_decimal (n : Nat) : isDigits (decimal n) = true :=
  isDigits_of_digits Nat.toDigits_ne_nil fun _ hc =>
    Nat.isDigit_of_mem_toDigits (by decide) (by decide) hc

/-- A number without its sign is laid out as a decimal numeral. -/
theorem exists_decimal_layout (digits : Nat) (exponent : Int) :
    ∃ d : Decimal, d.text = Number.layout digits exponent := by
  have hds := isDigits_decimal digits
  unfold Number.layout
  generalize decimal digits = ds at hds
  obtain ⟨hne, hdigit⟩ := Decimal.exists_of_isDigits hds
  have hzero : ∀ n, ∀ c ∈ List.replicate n '0', isDigit c = true := by
    intro n c hc
    rw [List.eq_of_mem_replicate hc]
    decide
  dsimp only
  generalize (ds.length : Int) + exponent = p
  -- The four layouts: whole, with a point within the digits, less than one, and with an exponent.
  split
  · refine ⟨⟨ds ++ List.replicate exponent.toNat '0', [], [], ?_, .inl rfl, .inl rfl⟩, by
      simp [Decimal.text]⟩
    obtain ⟨c, rest, rfl⟩ := hne
    refine isDigits_of_digits (by simp) fun d hd => ?_
    exact (List.mem_append.1 hd).elim (hdigit d) (hzero _ d)
  split
  · rename_i hp
    refine ⟨⟨ds.take p.toNat, '.' :: ds.drop p.toNat, [], ?_, .inr ⟨_, rfl, ?_⟩, .inl rfl⟩,
      by simp [Decimal.text]⟩
    · obtain ⟨c, rest, rfl⟩ := hne
      refine isDigits_of_digits ?_ fun d hd => hdigit d (List.mem_of_mem_take hd)
      have hpos : p.toNat ≠ 0 := by omega
      simpa [List.take_eq_nil_iff] using hpos
    · exact List.all_eq_true.2 fun d hd => hdigit d (List.mem_of_mem_drop hd)
  split
  · refine ⟨⟨['0'], '.' :: (List.replicate (-p).toNat '0' ++ ds), [], rfl,
      .inr ⟨_, rfl, ?_⟩, .inl rfl⟩,
      by simp [Decimal.text]⟩
    exact List.all_eq_true.2 fun d hd => (List.mem_append.1 hd).elim (hzero _ d) (hdigit d)
  · -- With an exponent: the digits get a point behind the first one, if there are more.
    have hpower : ∃ sign ds, ('e' :: (if p - 1 < 0 then ['-'] else [])) ++ decimal (p - 1).natAbs
        = 'e' :: (sign ++ ds) ∧ (sign = [] ∨ sign = ['-']) ∧ isDigits ds = true := by
      refine ⟨_, _, rfl, ?_, isDigits_decimal _⟩
      split
      · exact .inr rfl
      · exact .inl rfl
    have hsingle : ∀ d ∈ ds, isDigits [d] = true := fun d hd =>
      isDigits_of_digits (by simp) fun c hc => by rw [List.mem_singleton.1 hc]; exact hdigit d hd
    rcases ds with _ | ⟨d, _ | ⟨e, rest⟩⟩
    · obtain ⟨c, rest, h⟩ := hne
      cases h
    · exact ⟨⟨[d], [], _, hsingle d (by simp), .inl rfl, .inr hpower⟩, by simp [Decimal.text]⟩
    · refine ⟨⟨[d], '.' :: e :: rest, _, hsingle d (by simp), .inr ⟨_, rfl, ?_⟩, .inr hpower⟩,
        by simp [Decimal.text]⟩
      exact List.all_eq_true.2 fun c hc => hdigit c (List.mem_cons_of_mem _ hc)

/-- The text of a number is a numeral, behind a minus sign if it is negative. -/
theorem exists_lex_number (x : Number) :
    ∃ text, lex x.text.toList = some ⟨[.numeral text], .between⟩ ∨
      lex x.text.toList = some ⟨[.symbol ['-'], .numeral text], .between⟩ := by
  rw [Number.text, String.toList_ofList, Number.textChars]
  split
  · exact ⟨['0'], .inl rfl⟩
  · dsimp only
    obtain ⟨d, hd⟩ := exists_decimal_layout x.magnitude.shortest.1 x.magnitude.shortest.2
    refine ⟨d.text, ?_⟩
    rw [← hd]
    cases x.negative with
    | true => exact .inr d.lex_negated
    | false => exact .inl d.lex_text

end BlockLink.Lua
