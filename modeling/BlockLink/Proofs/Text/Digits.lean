import BlockLink.Text.Digits
import BlockLink.Unit

/-!
# `BlockLink/Proofs/Text/Digits.lean` — ids in decimal

Units and pins are written in decimal wherever they are named, in programs and in printed lines. The
spelling is nothing but digits, it tells ids apart, and it reads back. What else is read as a number
is spelled with a plus sign or with zeros in front (`readWord?_eq_some_iff`).
-/

set_option autoImplicit false

namespace BlockLink

open BlockLink.Text

/-- The digits of a 32-bit number. -/
def wordDigits (n : UInt32) : List Char :=
  Nat.toDigits 10 n.toNat

theorem toList_wordText (n : UInt32) : (wordText n).toList = wordDigits n :=
  Nat.toList_repr

theorem wordDigits_ne_nil (n : UInt32) : wordDigits n ≠ [] :=
  Nat.toDigits_ne_nil

theorem isDigit_of_mem_wordDigits {n : UInt32} {c : Char} (h : c ∈ wordDigits n) :
    c.isDigit = true :=
  Nat.isDigit_of_mem_toDigits (by decide) (by decide) h

theorem wordDigits_injective {m n : UInt32} (h : wordDigits m = wordDigits n) : m = n := by
  have hnat : m.toNat = n.toNat := by
    rw [← Nat.ofDigitChars_ten_toDigits (n := m.toNat),
      ← Nat.ofDigitChars_ten_toDigits (n := n.toNat)]
    exact congrArg (Nat.ofDigitChars 10 · 0) h
  exact UInt32.toNat_inj.mp hnat

namespace Text

theorem digitValue?_of_isDigit {c : Char} (h : c.isDigit = true) :
    digitValue? 10 c = some (c.toNat - '0'.toNat) := by
  have hval : '0'.val ≤ c.val ∧ c.val ≤ '9'.val := by
    simpa only [Char.isDigit, ge_iff_le, Bool.and_eq_true, decide_eq_true_eq] using h
  have hrange : '0' ≤ c ∧ c ≤ '9' := hval
  have hlt : c.toNat - '0'.toNat < 10 := by
    have h9 : c.toNat ≤ 57 := hrange.2
    have h0 : '0'.toNat = 48 := rfl
    omega
  simp only [digitValue?, hrange, and_self, if_true, Option.filter_some, hlt, decide_true]

theorem readDigitsFrom?_of_isDigit {cs : List Char} (h : ∀ c ∈ cs, c.isDigit = true) (n : Nat) :
    readDigitsFrom? 10 n cs = some (Nat.ofDigitChars 10 cs n) := by
  induction cs generalizing n with
  | nil => rfl
  | cons c cs ih =>
    rw [readDigitsFrom?, digitValue?_of_isDigit (h c List.mem_cons_self), Nat.ofDigitChars_cons]
    exact ih (fun d hd => h d (List.mem_cons_of_mem _ hd)) _

/-- Only digits have a value. -/
theorem isDigit_of_digitValue? {c : Char} {d : Nat} (h : digitValue? 10 c = some d) :
    c.isDigit = true := by
  obtain ⟨hvalue, hlt⟩ := Option.filter_eq_some_iff.mp h
  have hd : d < 10 := of_decide_eq_true hlt
  split at hvalue
  · rename_i hrange
    simp only [Char.isDigit, ge_iff_le, Bool.and_eq_true, decide_eq_true_eq]
    exact hrange
  -- The letters are worth ten and more.
  · split at hvalue
    · cases hvalue
      omega
    · split at hvalue
      · cases hvalue
        omega
      · cases hvalue

theorem isDigit_of_readDigitsFrom? {cs : List Char} {n m : Nat}
    (h : readDigitsFrom? 10 n cs = some m) :
    ∀ c ∈ cs, c.isDigit = true := by
  induction cs generalizing n with
  | nil => simp
  | cons c cs ih =>
    rw [readDigitsFrom?] at h
    split at h
    · rename_i d hd
      exact List.forall_mem_cons.mpr ⟨isDigit_of_digitValue? hd, ih h⟩
    · cases h

/-- A number is read from digits and nothing else. -/
theorem readNat?_eq_some_iff {cs : List Char} {n : Nat} :
    readNat? cs = some n ↔ cs ≠ [] ∧ (∀ c ∈ cs, c.isDigit = true) ∧
    Nat.ofDigitChars 10 cs 0 = n := by
  cases cs with
  | nil => simp [readNat?, readDigits?]
  | cons c cs =>
    have hread : readNat? (c :: cs) = readDigitsFrom? 10 0 (c :: cs) := rfl
    rw [hread]
    constructor
    · intro h
      have hdigits := isDigit_of_readDigitsFrom? h
      rw [readDigitsFrom?_of_isDigit hdigits] at h
      exact ⟨List.cons_ne_nil c cs, hdigits, Option.some.inj h⟩
    · rintro ⟨-, hdigits, rfl⟩
      exact readDigitsFrom?_of_isDigit hdigits 0

/-- The spellings of a 32-bit number: digits, and perhaps a plus sign in front of them. -/
def SpellsWord (key : List Char) (n : UInt32) : Prop :=
  ∃ digits, (key = digits ∨ key = '+' :: digits) ∧ digits ≠ [] ∧ (∀ c ∈ digits, c.isDigit = true) ∧
    Nat.ofDigitChars 10 digits 0 = n.toNat

theorem spellsWord_wordDigits (n : UInt32) : SpellsWord (wordDigits n) n :=
  ⟨wordDigits n, Or.inl rfl, wordDigits_ne_nil n, fun _ => isDigit_of_mem_wordDigits,
    Nat.ofDigitChars_ten_toDigits⟩

/-- The 32-bit number that is read from digits. -/
def digitsWord? (digits : List Char) : Option UInt32 :=
  (readNat? digits).bind fun n => if n < UInt32.size then some (UInt32.ofNat n) else none

theorem readWord?_plus (digits : List Char) : readWord? ('+' :: digits) = digitsWord? digits := by
  simp only [readWord?, digitsWord?]
  cases readNat? digits <;> rfl

theorem readWord?_of_ne_plus {key : List Char} (h : ∀ rest, key ≠ '+' :: rest) :
    readWord? key = digitsWord? key := by
  unfold readWord? digitsWord?
  split
  · rename_i rest
    exact absurd rfl (h rest)
  · dsimp only
    cases readNat? key <;> rfl

/-- Digits are read as a word if their number fits into one. -/
theorem digitsWord?_eq_some_iff {digits : List Char} {n : UInt32} :
    digitsWord? digits = some n ↔
      digits ≠ [] ∧ (∀ c ∈ digits, c.isDigit = true) ∧ Nat.ofDigitChars 10 digits 0 = n.toNat := by
  rw [← readNat?_eq_some_iff, digitsWord?, Option.bind_eq_some_iff]
  constructor
  · rintro ⟨m, hread, hm⟩
    split at hm
    · rename_i hfits
      cases hm
      rw [hread, UInt32.toNat_ofNat_of_lt' hfits]
    · cases hm
  · intro hread
    exact ⟨n.toNat, hread, by rw [if_pos n.toNat_lt, UInt32.ofNat_toNat]⟩

/-- Reading takes every spelling and nothing else. -/
theorem readWord?_eq_some_iff {key : List Char} {n : UInt32} :
    readWord? key = some n ↔ SpellsWord key n := by
  constructor
  · intro h
    by_cases hplus : ∃ rest, key = '+' :: rest
    · obtain ⟨digits, rfl⟩ := hplus
      rw [readWord?_plus] at h
      exact ⟨digits, Or.inr rfl, digitsWord?_eq_some_iff.mp h⟩
    · rw [readWord?_of_ne_plus (not_exists.mp hplus)] at h
      exact ⟨key, Or.inl rfl, digitsWord?_eq_some_iff.mp h⟩
  · rintro ⟨digits, rfl | rfl, hspelt⟩
    · have hplus : ∀ rest, key ≠ '+' :: rest := by
        rintro rest rfl
        exact absurd (hspelt.2.1 '+' List.mem_cons_self) (by decide)
      rw [readWord?_of_ne_plus hplus]
      exact digitsWord?_eq_some_iff.mpr hspelt
    · rw [readWord?_plus]
      exact digitsWord?_eq_some_iff.mpr hspelt

/-- A number is read back from its decimal spelling. -/
theorem readWord?_wordDigits (n : UInt32) : readWord? (wordDigits n) = some n :=
  readWord?_eq_some_iff.mpr (spellsWord_wordDigits n)

end Text

end BlockLink
