import Mathlib.Data.List.TakeWhile
import Mathlib.Data.Nat.Digits.Defs
import BlockLink.Literal
import BlockLink.Proofs.Decimal.Whole
import BlockLink.Proofs.Event

/-!
# `BlockLink/Proofs/Literal.lean` — whole numbers in every spelling

A whole number can be typed into a slot in many ways: in decimal with a sign and zeros in front, or
in one of three radices behind a mark, where the sign stands between the mark and the digits; and
with blanks around. `Literal.Spells` lists them without the readers, digits by their place values.

All of them are read through `Number.ofDecimal?` on the size of the number with exponent zero
(`readChars?_of_spells`). So it does not matter which reader took the digits, and the text is the
one that `Proofs/Decimal/Whole.lean` gives.
-/

set_option autoImplicit false

namespace BlockLink

open BlockLink.Text BlockLink.Decimal

namespace Text

/-! ## Spellings

The definitions follow what may be typed and mention none of the readers. -/

/-- A character is a digit of a radix, letters in either case. -/
def DigitFor (radix : Nat) (c : Char) (d : Nat) : Prop :=
  d < radix ∧ (c = d.digitChar ∨ c = d.digitChar.toUpper)

instance (radix : Nat) (c : Char) (d : Nat) : Decidable (DigitFor radix c d) :=
  inferInstanceAs (Decidable (_ ∧ _))

/-- Characters are the digits of a number, the most significant first and perhaps behind zeros. -/
def SpellsNat (radix : Nat) (cs : List Char) (m : Nat) : Prop :=
  ∃ ds : List Nat, ds ≠ [] ∧ List.Forall₂ (DigitFor radix) cs ds ∧ Nat.ofDigits radix ds.reverse = m

/-- Digits with or without a sign in front. -/
inductive SpellsSigned (radix : Nat) : List Char → Int → Prop
  | plain {cs : List Char} {m : Nat} : SpellsNat radix cs m → SpellsSigned radix cs m
  | plus {cs : List Char} {m : Nat} : SpellsNat radix cs m → SpellsSigned radix ('+' :: cs) m
  | minus {cs : List Char} {m : Nat} : SpellsNat radix cs m → SpellsSigned radix ('-' :: cs) (-m)

/-- The letters that mark a radix behind a zero. -/
inductive Marks : Char → Nat → Prop
  | hexadecimal : Marks 'x' 16
  | hexadecimalUpper : Marks 'X' 16
  | octal : Marks 'o' 8
  | octalUpper : Marks 'O' 8
  | binary : Marks 'b' 2
  | binaryUpper : Marks 'B' 2

/-- A whole number in decimal, or in a radix behind its mark. -/
inductive SpellsInt : List Char → Int → Prop
  | decimal {cs : List Char} {n : Int} : SpellsSigned 10 cs n → SpellsInt cs n
  | marked {mark : Char} {radix : Nat} {cs : List Char} {n : Int} :
      Marks mark radix → SpellsSigned radix cs n → SpellsInt ('0' :: mark :: cs) n

/-! ## Digits

A digit has the same value in every radix above it, so one lemma serves decimal numbers and those
behind a mark. -/

theorem digitValue?_digitChar : ∀ d : Fin 16,
    digitValue? 16 d.val.digitChar = some d.val ∧
      digitValue? 16 d.val.digitChar.toUpper = some d.val := by
  decide

theorem digitValue?_of_le {radix radix' : Nat} {c : Char} {d : Nat}
    (h : digitValue? radix' c = some d) (hd : d < radix) : digitValue? radix c = some d := by
  obtain ⟨hvalue, -⟩ := Option.filter_eq_some_iff.mp h
  exact Option.filter_eq_some_iff.mpr ⟨hvalue, decide_eq_true hd⟩

theorem DigitFor.digitValue? {radix : Nat} (hradix : radix ≤ 16) {c : Char} {d : Nat}
    (h : DigitFor radix c d) : digitValue? radix c = some d := by
  obtain ⟨hd, hc⟩ := h
  have htable := digitValue?_digitChar ⟨d, by omega⟩
  rcases hc with rfl | rfl
  · exact digitValue?_of_le htable.1 hd
  · exact digitValue?_of_le htable.2 hd

/-- A digit is a decimal one or a letter. -/
theorem toNat_of_digitValue? {radix : Nat} {c : Char} {d : Nat} (h : digitValue? radix c = some d) :
    (48 ≤ c.toNat ∧ c.toNat ≤ 57) ∨ (10 ≤ d ∧ 65 ≤ c.toNat ∧ c.toNat ≤ 122) := by
  obtain ⟨hvalue, -⟩ := Option.filter_eq_some_iff.mp h
  split at hvalue
  · rename_i hrange
    exact Or.inl hrange
  · split at hvalue
    · rename_i hrange
      have hlow : 97 ≤ c.toNat := hrange.1
      have hhigh : c.toNat ≤ 122 := hrange.2
      cases hvalue
      omega
    · split at hvalue
      · rename_i hrange
        have hlow : 65 ≤ c.toNat := hrange.1
        have hhigh : c.toNat ≤ 90 := hrange.2
        cases hvalue
        omega
      · cases hvalue

/-- The reader multiplies and adds, from the most significant digit on. -/
theorem readDigitsFrom?_of_digits {radix : Nat} (hradix : radix ≤ 16) {cs : List Char}
    {ds : List Nat} (h : List.Forall₂ (DigitFor radix) cs ds) (n : Nat) :
    readDigitsFrom? radix n cs = some (ds.foldl (fun m d => d + radix * m) n) := by
  induction h generalizing n with
  | nil => rfl
  | cons hd _ ih =>
    rw [readDigitsFrom?, hd.digitValue? hradix, List.foldl_cons, Nat.add_comm]
    exact ih _

/-- The characters that digits of a radix are written with. -/
theorem toNat_of_digits {radix : Nat} (hradix : radix ≤ 16) {cs : List Char} {ds : List Nat}
    (h : List.Forall₂ (DigitFor radix) cs ds) :
    ∀ c ∈ cs, (48 ≤ c.toNat ∧ c.toNat ≤ 57) ∨ (10 < radix ∧ 65 ≤ c.toNat ∧ c.toNat ≤ 122) := by
  induction h with
  | nil => simp
  | cons hd _ ih =>
    refine List.forall_mem_cons.mpr ⟨?_, ih⟩
    have hrange := toNat_of_digitValue? (hd.digitValue? hradix)
    have hlt := hd.1
    omega

section Natural

variable {radix : Nat} {cs : List Char} {m : Nat}

theorem SpellsNat.ne_nil (h : SpellsNat radix cs m) : cs ≠ [] := by
  obtain ⟨ds, hne, hdigits, -⟩ := h
  rintro rfl
  exact hne (List.forall₂_nil_left_iff.mp hdigits)

theorem SpellsNat.toNat_of_mem (h : SpellsNat radix cs m) (hradix : radix ≤ 16) {c : Char}
    (hc : c ∈ cs) : (48 ≤ c.toNat ∧ c.toNat ≤ 57) ∨
    (10 < radix ∧ 65 ≤ c.toNat ∧ c.toNat ≤ 122) := by
  obtain ⟨ds, -, hdigits, -⟩ := h
  exact toNat_of_digits hradix hdigits c hc

theorem SpellsNat.readDigits? (h : SpellsNat radix cs m) (hradix : radix ≤ 16) :
    readDigits? radix cs = some m := by
  obtain ⟨c, rest, rfl⟩ := List.exists_cons_of_ne_nil h.ne_nil
  obtain ⟨ds, -, hdigits, hvalue⟩ := h
  rw [← hvalue, Nat.ofDigits_eq_foldr, List.foldr_reverse]
  exact readDigitsFrom?_of_digits hradix hdigits 0

/-- What begins with a sign is not all digits. -/
theorem SpellsNat.ne_cons (h : SpellsNat radix cs m) (hradix : radix ≤ 16) {sign : Char}
    (hsign : sign = '+' ∨ sign = '-') (rest : List Char) : cs ≠ sign :: rest := by
  rintro rfl
  have hrange := h.toNat_of_mem hradix List.mem_cons_self
  have hplus : '+'.toNat = 43 := rfl
  have hminus : '-'.toNat = 45 := rfl
  rcases hsign with rfl | rfl <;> omega

end Natural

/-! ## Signs -/

/-- The reader behind a mark keeps to integers of 64 bits, hence the bound. -/
theorem SpellsSigned.readSigned? {radix : Nat} {cs : List Char} {n : Int}
    (h : SpellsSigned radix cs n) (hradix : radix ≤ 16) (hn : n.natAbs < 2 ^ 63) :
    readSigned? radix cs = some n := by
  cases h with
  | @plain cs m h =>
    have hfits : m < Nat.pow 2 63 := by simpa using hn
    unfold Text.readSigned?
    split
    · exact absurd rfl (h.ne_cons hradix (Or.inr rfl) _)
    · exact absurd rfl (h.ne_cons hradix (Or.inl rfl) _)
    · rw [h.readDigits? hradix, Option.bind_some, if_pos hfits]
  | @plus cs m h =>
    have hfits : m < Nat.pow 2 63 := by simpa using hn
    rw [Text.readSigned?, h.readDigits? hradix, Option.bind_some, if_pos hfits]
  | @minus cs m h =>
    have hfits : m ≤ Nat.pow 2 63 := by
      rw [Int.natAbs_neg, Int.natAbs_natCast] at hn
      exact Nat.le_of_lt hn
    rw [Text.readSigned?, h.readDigits? hradix, Option.bind_some, if_pos hfits]

/-- The decimal reader splits the sign off first, and the rest spells the size. -/
theorem SpellsSigned.readSign {radix : Nat} {cs : List Char} {n : Int} (h : SpellsSigned radix cs n)
    (hradix : radix ≤ 16) :
    ∃ negative digits m, Number.readSign cs = (negative, digits) ∧ SpellsNat radix digits m ∧
      n = Number.signed negative m := by
  cases h with
  | @plain cs m h =>
    refine ⟨false, cs, m, ?_, h, rfl⟩
    unfold Number.readSign
    split
    · exact absurd rfl (h.ne_cons hradix (Or.inr rfl) _)
    · exact absurd rfl (h.ne_cons hradix (Or.inl rfl) _)
    · rfl
  | @plus cs m h => exact ⟨false, cs, m, rfl, h, rfl⟩
  | @minus cs m h => exact ⟨true, cs, m, rfl, h, rfl⟩

/-! ## Blanks around

Neither digits nor signs nor marks are blanks, so only what stands around them is trimmed. -/

theorem isBlank_of_toNat {c : Char} (h : 43 ≤ c.toNat ∧ c.toNat ≤ 122) : isBlank c = false := by
  simp only [isBlank, Bool.or_eq_false_iff, Bool.and_eq_false_iff, decide_eq_false_iff_not,
    beq_eq_false_iff_ne]
  omega

/-- Blanks are taken off on both sides, and the rest stays if none of it is blank. -/
theorem trim_around {front body back : List Char} (hfront : ∀ c ∈ front, isBlank c = true)
    (hback : ∀ c ∈ back, isBlank c = true) (hbody : ∀ c ∈ body, isBlank c = false) :
    trim (front ++ body ++ back) = body := by
  have hstart : trimStart (front ++ body ++ back) = trimStart (body ++ back) := by
    rw [trimStart, List.append_assoc, List.dropWhile_append_of_pos hfront, trimStart]
  rw [trim, hstart]
  cases body with
  | nil =>
    have hnone : trimStart back = [] := List.dropWhile_eq_nil_iff.mpr hback
    rw [List.nil_append, hnone]
    rfl
  | cons c rest =>
    have hkept : trimStart (c :: rest ++ back) = c :: rest ++ back :=
      List.dropWhile_cons_of_neg (by simp [hbody c List.mem_cons_self])
    rw [hkept, trimEnd, dropEnd_eq_iff]
    exact ⟨back, rfl, hback, fun d hd => hbody d (List.mem_of_getLast? hd)⟩

/-- The characters of a number in decimal are below those that mark a radix. -/
theorem SpellsSigned.toNat_of_mem {radix : Nat} {cs : List Char} {n : Int}
    (h : SpellsSigned radix cs n) (hradix : radix ≤ 16) {c : Char} (hc : c ∈ cs) :
    (43 ≤ c.toNat ∧ c.toNat ≤ 57) ∨ (10 < radix ∧ 65 ≤ c.toNat ∧ c.toNat ≤ 122) := by
  have hdigits {cs : List Char} {m : Nat} (h : SpellsNat radix cs m) (hc : c ∈ cs) :
      (43 ≤ c.toNat ∧ c.toNat ≤ 57) ∨ (10 < radix ∧ 65 ≤ c.toNat ∧ c.toNat ≤ 122) := by
    have hrange := h.toNat_of_mem hradix hc
    omega
  cases h with
  | plain h => exact hdigits h hc
  | plus h =>
    rcases List.mem_cons.mp hc with rfl | hc
    · exact Or.inl (by decide)
    · exact hdigits h hc
  | minus h =>
    rcases List.mem_cons.mp hc with rfl | hc
    · exact Or.inl (by decide)
    · exact hdigits h hc

theorem Marks.radix_le {mark : Char} {radix : Nat} (h : Marks mark radix) : radix ≤ 16 := by
  cases h <;> decide

theorem Marks.toNat {mark : Char} {radix : Nat} (h : Marks mark radix) :
    58 ≤ mark.toNat ∧ mark.toNat ≤ 122 := by
  cases h <;> decide

/-- There are no blanks within a number. -/
theorem SpellsInt.isBlank_of_mem {cs : List Char} {n : Int} (h : SpellsInt cs n) :
    ∀ c ∈ cs, isBlank c = false := by
  intro c hc
  apply isBlank_of_toNat
  cases h with
  | decimal h =>
    have hrange := h.toNat_of_mem (by decide) hc
    omega
  | marked hmark h =>
    rcases List.mem_cons.mp hc with rfl | hc
    · decide
    · rcases List.mem_cons.mp hc with rfl | hc
      · have hrange := hmark.toNat
        omega
      · have hrange := h.toNat_of_mem hmark.radix_le hc
        omega

end Text

/-! ## Reading -/

namespace Number

/-- Nothing but decimal digits: there is no point and no exponent to split off. -/
theorem readDecimal?_of_digits (negative : Bool) {cs : List Char} {m : Nat}
    (h : SpellsNat 10 cs m) :
    readDecimal? negative cs = ofDecimal? negative m 0 := by
  have hrange : ∀ c ∈ cs, 48 ≤ c.toNat ∧ c.toNat ≤ 57 := by
    intro c hc
    have hdigit := h.toNat_of_mem (by decide) hc
    omega
  have hspan {p : Char → Bool} (hp : ∀ c ∈ cs, p c = true) : cs.span p = (cs, []) := by
    rw [List.span_eq_takeWhile_dropWhile, List.takeWhile_eq_self_iff.mpr hp,
      List.dropWhile_eq_nil_iff.mpr hp]
  -- Without an exponent and a point all of the text is digits.
  have hexponent : splitExponent cs = (cs, []) := by
    refine hspan fun c hc => ?_
    have hdigit := hrange c hc
    have hlower : c ≠ 'e' := by rintro rfl; exact absurd hdigit (by decide)
    have hupper : c ≠ 'E' := by rintro rfl; exact absurd hdigit (by decide)
    simp [hlower, hupper]
  have hpoint : splitPoint cs = (cs, []) := by
    have hall : cs.span (· != '.') = (cs, []) := by
      refine hspan fun c hc => ?_
      have hdigit := hrange c hc
      have hdot : c ≠ '.' := by rintro rfl; exact absurd hdigit (by decide)
      simp [hdot]
    simp only [splitPoint, hall, List.drop_nil]
  have hread : readNat? cs = some m := h.readDigits? (by decide)
  simp only [readDecimal?, hexponent, hpoint, List.append_nil, hread, readExponent?,
    List.length_nil]
  rfl

theorem signed_natAbs (n : Int) : signed (decide (n < 0)) n.natAbs = n := by
  by_cases hneg : n < 0
  · rw [decide_eq_true hneg, signed]
    omega
  · rw [decide_eq_false hneg, signed]
    omega

/-- Every spelling is read as the size of the number without a power of ten. -/
theorem readChars?_of_spells {cs body : List Char} {n : Int} (htrim : trim cs = body)
    (h : SpellsInt body n) (hn : n.natAbs < 2 ^ 63) :
    ∃ negative m, readChars? cs = ofDecimal? negative m 0 ∧ signed negative m = n := by
  cases h with
  | decimal h =>
    obtain ⟨negative, digits, m, hsign, hdigits, hvalue⟩ := h.readSign (by decide)
    -- The second character of a decimal spelling is no letter, so none of the radices is taken.
    have hunmarked {mark : Char} {rest : List Char} (hmark : 58 ≤ mark.toNat) :
        body ≠ '0' :: mark :: rest := by
      rintro rfl
      have hrange := h.toNat_of_mem (by decide) (List.mem_cons_of_mem _ List.mem_cons_self)
      omega
    refine ⟨negative, m, ?_, hvalue.symm⟩
    unfold readChars?
    rw [htrim]
    split
    · exact absurd rfl (hunmarked (by decide))
    · exact absurd rfl (hunmarked (by decide))
    · exact absurd rfl (hunmarked (by decide))
    · exact absurd rfl (hunmarked (by decide))
    · exact absurd rfl (hunmarked (by decide))
    · exact absurd rfl (hunmarked (by decide))
    · rw [hsign]
      exact readDecimal?_of_digits negative hdigits
  | marked hmark h =>
    have hread := h.readSigned? hmark.radix_le hn
    refine ⟨decide (n < 0), n.natAbs, ?_, signed_natAbs n⟩
    unfold readChars?
    rw [htrim]
    cases hmark <;> exact congrArg (Option.bind · ofInt?) hread

end Number

/-! ## Literals -/

namespace Literal

/-- A text spells a whole number, with blanks around it or none. -/
def Spells (s : String) (n : Int) : Prop :=
  ∃ front body back, s.toList = front ++ body ++ back ∧ (∀ c ∈ front, isBlank c = true) ∧
    (∀ c ∈ back, isBlank c = true) ∧ SpellsInt body n

/-- The whole numbers up to `2 ^ 53` in size are classified as numbers in every spelling, keep their
value, and are written in plain decimal, wherever they stand. -/
theorem integers_keep_their_value {s : String} {n : Int} (h : Spells s n) (hn : n.natAbs ≤ 2 ^ 53) :
    ∃ x, classify s = .number x ∧ x.value = n ∧ (classify s).lua = toString n ∧
      (classify s).luaNumber = toString n := by
  -- The blanks go first; then whatever reader takes the digits gives the number of that size.
  obtain ⟨front, body, back, hs, hfront, hback, hbody⟩ := h
  have htrim : trim s.toList = body := by
    rw [hs]
    exact trim_around hfront hback hbody.isBlank_of_mem
  obtain ⟨negative, m, hread, rfl⟩ := Number.readChars?_of_spells htrim hbody (by omega)
  have hm : m ≤ 2 ^ 53 := by
    cases negative <;> simpa [Number.signed] using hn
  obtain ⟨x, hx, hvalue, htext⟩ := Number.ofDecimal?_whole negative hm
  have hnumber : Number.read? s = some x := hread.trans hx
  have hclass : classify s = .number x := by
    have htrue : s ≠ "true" := by
      rintro rfl
      cases hnumber
    have hfalse : s ≠ "false" := by
      rintro rfl
      cases hnumber
    simp only [classify, if_neg htrue, if_neg hfalse, hnumber]
  refine ⟨x, hclass, hvalue, ?_, ?_⟩
  · rw [hclass]
    exact htext
  · rw [hclass]
    exact htext

/-- The largest odd double with a minus sign, in hexadecimal: the sign stands behind the mark, there
are zeros in front, letters in both cases, and blanks around. -/
theorem integers_keep_their_value_hexadecimal :
    let s := "\u3000 0X-001FfffffffffffF\t"
    Spells s (-9007199254740991) ∧ (-9007199254740991 : Int).natAbs ≤ 2 ^ 53 ∧
      ∃ x, classify s = .number x ∧ x.value = ((-9007199254740991 : Int) : ℚ) ∧
        (classify s).lua = "-9007199254740991" ∧ (classify s).luaNumber = "-9007199254740991" := by
  intro s
  have hspells : Spells s (-9007199254740991) := by
    refine ⟨['\u3000', ' '], '0' :: 'X' :: '-' :: '0' :: '0' :: '1' :: 'F' :: List.replicate
      11 'f' ++ ['F'],
      ['\t'], by decide +kernel, List.all_eq_true.mp rfl, List.all_eq_true.mp rfl, ?_⟩
    refine .marked .hexadecimalUpper (.minus ⟨[0, 0, 1] ++ List.replicate 13 15, ?_, ?_, ?_⟩)
    · decide
    · decide
    · decide
  have hsize : (-9007199254740991 : Int).natAbs ≤ 2 ^ 53 := by decide
  exact ⟨hspells, hsize, integers_keep_their_value hspells hsize⟩

end Literal

end BlockLink
