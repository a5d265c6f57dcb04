import BlockLink.Proofs.Text.Bytes
import BlockLink.Proofs.Text.Digits
import BlockLink.Text.Quoted

/-!
# `BlockLink/Proofs/Lua/ShortString.lean` — strings between quotes, and how they are read

A reader for the short strings of Lua 5.3, with all of their escapes: one letter for a control
character, up to three decimal digits or exactly two hexadecimal ones for a byte, a code point in
braces, an escaped line break, and a mark that skips blanks. A raw line break is an error. The value
of a string is its bytes.

Lua reads bytes too, but those of a character beyond ASCII mean nothing to it one by one, so the
reader takes such a character whole.

`quote_reads_back` is that a quoted text is read as that text, and that nothing behind it is taken
along: a decimal escape is always written with three digits, so a digit that follows is not part of
it.
-/

set_option autoImplicit false

namespace BlockLink.Lua

open BlockLink.Text

/-! ## The reader -/

/-- Whether a character breaks a line. -/
def isLineBreak (c : Char) : Bool :=
  c == '\n' || c == '\r'

/-- Whether a character is a blank of Lua. -/
def isSpace (c : Char) : Bool :=
  c == ' ' || (9 ≤ c.toNat && c.toNat ≤ 13)

/-- The bytes of a code point. Surrogates are encoded like any other number. -/
def codePointBytes (n : Nat) : List UInt8 :=
  let tail (n : Nat) : UInt8 := UInt8.ofNat (0x80 + n % 64)
  if n ≤ 0x7f then [UInt8.ofNat n]
  else if n ≤ 0x7ff then [UInt8.ofNat (0xc0 + n / 64), tail n]
  else if n ≤ 0xffff then [UInt8.ofNat (0xe0 + n / 4096), tail (n / 64), tail n]
  else [UInt8.ofNat (0xf0 + n / 262144), tail (n / 4096), tail (n / 64), tail n]

/-- What the reader of a short string is in the middle of. -/
inductive Short where
  | plain
  /-- Behind a backslash. -/
  | escape
  /-- Behind the first digit of a decimal escape, with its value. -/
  | digit (value : Nat)
  /-- Behind the second digit of a decimal escape, with the value of both. -/
  | digits (value : Nat)
  /-- Behind `\x`, with the value of the first digit if there was one. -/
  | hex (first : Option Nat)
  /-- Behind `\u`. -/
  | brace
  /-- Behind `\u` and a brace, with the value of the digits if there were any. -/
  | codePoint (value : Option Nat)
  /-- Behind `\z` and blanks. -/
  | skip
  /-- Behind an escaped line break, which may be the first half of a pair. -/
  | lineBreak (first : Char)
  deriving DecidableEq, Repr

/-- The byte that a letter behind a backslash stands for. -/
def escapeByte? : Char → Option UInt8
  | 'a' => some 7
  | 'b' => some 8
  | 't' => some 9
  | 'n' => some 10
  | 'v' => some 11
  | 'f' => some 12
  | 'r' => some 13
  | '"' => some 34
  | '\x27' => some 39
  | '\\' => some 92
  | _ => none

namespace Short

/-- Takes a character that is not part of an escape. The answer is the bytes so far and what the
reader is in the middle of, which is nothing behind the closing quote. -/
def take (quote : Char) (bytes : List UInt8) (c : Char) : Option (List UInt8 × Option Short) :=
  if c = quote then some (bytes, none)
  else if c = '\\' then some (bytes, some escape)
  else if isLineBreak c then none
  else some (bytes ++ String.utf8EncodeChar c, some plain)

/-- Takes the character behind a backslash. -/
def takeEscape (bytes : List UInt8) (c : Char) : Option (List UInt8 × Option Short) :=
  match escapeByte? c, digitValue? 10 c with
  | some b, _ => some (bytes ++ [b], some plain)
  | none, some d => some (bytes, some (digit d))
  | none, none =>
    if c = 'x' then some (bytes, some (hex none))
    else if c = 'u' then some (bytes, some brace)
    else if c = 'z' then some (bytes, some skip)
    else if isLineBreak c then some (bytes ++ [10], some (lineBreak c))
    else none

/-- Takes a character inside a short string. -/
def step (quote : Char) (bytes : List UInt8) : Short → Char → Option (List UInt8 × Option Short)
  | plain, c => take quote bytes c
  | escape, c => takeEscape bytes c
  | digit n, c =>
    match digitValue? 10 c with
    | some d => some (bytes, some (digits (10 * n + d)))
    | none => take quote (bytes ++ [UInt8.ofNat n]) c
  | digits n, c =>
    match digitValue? 10 c with
    | some d =>
      if 10 * n + d ≤ 255 then some (bytes ++ [UInt8.ofNat (10 * n + d)], some plain) else none
    | none => take quote (bytes ++ [UInt8.ofNat n]) c
  | hex none, c => (digitValue? 16 c).map fun d => (bytes, some (hex (some d)))
  | hex (some n), c =>
    (digitValue? 16 c).map fun d => (bytes ++ [UInt8.ofNat (16 * n + d)], some plain)
  | brace, c => if c = '\x7b' then some (bytes, some (codePoint none)) else none
  | codePoint value, c =>
    match digitValue? 16 c with
    | some d =>
      let value := 16 * value.getD 0 + d
      if value ≤ 0x10ffff then some (bytes, some (codePoint (some value))) else none
    | none =>
      if c = '\x7d' then value.map fun n => (bytes ++ codePointBytes n, some plain) else none
  | skip, c => if isSpace c then some (bytes, some skip) else take quote bytes c
  | lineBreak first, c =>
    if isLineBreak c ∧ c ≠ first then some (bytes, some plain) else take quote bytes c

/-- Reads on to the closing quote. The answer is the bytes of the string and what follows it. -/
def read? (quote : Char) : List UInt8 → Short → List Char → Option (List UInt8 × List Char)
  | _, _, [] => none
  | bytes, place, c :: cs =>
    match place.step quote bytes c with
    | none => none
    | some (bytes, none) => some (bytes, cs)
    | some (bytes, some place) => read? quote bytes place cs

end Short

/-- Reads a short string at the front of a text. -/
def readString? : List Char → Option (List UInt8 × List Char)
  | [] => none
  | c :: cs => if c = '"' ∨ c = '\x27' then Short.read? c [] .plain cs else none

-- The escapes that quoted texts do not use; a decimal escape ends in front of what is no digit, or
-- with its third digit; a decimal escape beyond a byte and a raw line break are errors.
example : readString? "'\\x41\\u\x7b20AC\x7d\\z \n\\9x\\0655'..".toList
      = some ([65, 226, 130, 172, 9, 120, 65, 53], ['.', '.']) ∧
    readString? "\"\\256\"".toList = none ∧ readString? "\"a\nb\"".toList
      = none := by decide +kernel

/-! ## Quoted texts

Each character is written as itself or as one escape, and is read back on its own, so a text is read
back character by character. -/

namespace Short

theorem digitValue?_digitChar {n : Nat} (h : n < 10) :
    digitValue? 10 (Nat.digitChar n) = some n := by
  match n, h with
  | 0, _ | 1, _ | 2, _ | 3, _ | 4, _ | 5, _ | 6, _ | 7, _ | 8, _ | 9, _ => rfl

theorem escapeByte?_digitChar {n : Nat} (h : n < 10) : escapeByte? (Nat.digitChar n) = none := by
  match n, h with
  | 0, _ | 1, _ | 2, _ | 3, _ | 4, _ | 5, _ | 6, _ | 7, _ | 8, _ | 9, _ => rfl

/-- Three digits behind a backslash are the byte with that number, whatever follows them. -/
theorem read?_threeDigits {n : Nat} (h : n ≤ 255) (quote : Char) (bytes : List UInt8)
    (cs : List Char) :
    read? quote bytes .escape (threeDigits n ++ cs)
      = read? quote (bytes ++ [UInt8.ofNat n]) .plain cs := by
  have hfirst : n / 100 % 10 < 10 := Nat.mod_lt _ (by decide)
  have hsecond : n / 10 % 10 < 10 := Nat.mod_lt _ (by decide)
  have hthird : n % 10 < 10 := Nat.mod_lt _ (by decide)
  have hvalue : 10 * (10 * (n / 100 % 10) + n / 10 % 10) + n % 10 = n := by omega
  simp only [threeDigits, List.cons_append, List.nil_append, read?, step, takeEscape,
    escapeByte?_digitChar hfirst, digitValue?_digitChar hfirst, digitValue?_digitChar hsecond,
    digitValue?_digitChar hthird, hvalue, h, if_true]

/-- A quoted character is read as the bytes of the character. -/
theorem read?_quoteChar (c : Char) (bytes : List UInt8) (cs : List Char) :
    read? '"' bytes .plain (quoteChar c ++ cs)
      = read? '"' (bytes ++ String.utf8EncodeChar c) .plain cs := by
  unfold quoteChar
  by_cases hslash : c = '\\'
  · subst hslash
    rfl
  rw [if_neg hslash]
  by_cases hquote : c = '"'
  · subst hquote
    rfl
  rw [if_neg hquote]
  by_cases hfeed : c = '\n'
  · subst hfeed
    rfl
  rw [if_neg hfeed]
  by_cases hreturn : c = '\r'
  · subst hreturn
    rfl
  rw [if_neg hreturn]
  -- What has no escape of its own is a control character, which is escaped by its number, or stands
  -- for itself.
  by_cases hcontrol : isControl c = true
  · have hascii : c.toNat ≤ 0x7f := by
      simp only [isControl, Bool.or_eq_true, decide_eq_true_eq, beq_iff_eq] at hcontrol
      omega
    rw [if_pos hcontrol, utf8EncodeChar_of_ascii hascii, List.cons_append]
    show read? '"' bytes .escape _ = _
    exact read?_threeDigits (by omega) '"' bytes cs
  · have hbreak : isLineBreak c = false := by simp [isLineBreak, hfeed, hreturn]
    rw [if_neg hcontrol]
    simp only [List.cons_append, List.nil_append, read?, step, take, hquote, hslash, hbreak,
      if_false, Bool.false_eq_true]

/-- The inside of a quoted text is read up to its closing quote and no further. -/
theorem read?_quoteBody (cs : List Char) (bytes : List UInt8) (rest : List Char) :
    read? '"' bytes .plain (quoteBody cs ++ '"' :: rest)
      = some (bytes ++ cs.flatMap String.utf8EncodeChar, rest) := by
  induction cs generalizing bytes with
  | nil => simp [quoteBody, read?, step, take]
  | cons c cs ih =>
    rw [quoteBody, List.flatMap_cons, List.append_assoc, read?_quoteChar]
    rw [← quoteBody, ih, List.flatMap_cons, List.append_assoc]

end Short

theorem toList_quote (s : String) : (quote s).toList = '"' :: (quoteBody s.toList ++ ['"']) := by
  rw [quote, String.toList_ofList]
  rfl

theorem readString?_quote (s : String) (rest : List Char) :
    readString? ((quote s).toList ++ rest) = some (textBytes s, rest) := by
  rw [toList_quote, List.cons_append, List.append_assoc, List.singleton_append, readString?]
  rw [if_pos (Or.inl rfl), Short.read?_quoteBody, List.nil_append, textBytes_eq_flatMap]

/-- Whether a character is printed as itself: it is no control character. -/
def isPrinted (c : Char) : Bool :=
  0x20 ≤ c.toNat && c.toNat != 0x7f

theorem isLineBreak_of_isPrinted {c : Char} (h : isPrinted c = true) : isLineBreak c = false := by
  rw [Bool.eq_false_iff]
  intro hbreak
  simp only [isLineBreak, Bool.or_eq_true, beq_iff_eq] at hbreak
  rcases hbreak with rfl | rfl <;> cases h

theorem isPrinted_digitChar {n : Nat} (h : n < 10) : isPrinted (Nat.digitChar n) = true := by
  match n, h with
  | 0, _ | 1, _ | 2, _ | 3, _ | 4, _ | 5, _ | 6, _ | 7, _ | 8, _ | 9, _ => rfl

/-- Control characters are written as escapes, and escapes are printed. -/
theorem isPrinted_of_mem_quoteChar {c d : Char} (h : d ∈ quoteChar c) : isPrinted d = true := by
  unfold quoteChar at h
  split at h
  · simp only [List.mem_cons, List.not_mem_nil, or_false, or_self] at h
    subst h
    rfl
  split at h
  · simp only [List.mem_cons, List.not_mem_nil, or_false] at h
    rcases h with rfl | rfl <;> rfl
  split at h
  · simp only [List.mem_cons, List.not_mem_nil, or_false] at h
    rcases h with rfl | rfl <;> rfl
  split at h
  · simp only [List.mem_cons, List.not_mem_nil, or_false] at h
    rcases h with rfl | rfl <;> rfl
  split at h
  · simp only [threeDigits, List.mem_cons, List.not_mem_nil, or_false] at h
    -- An escape by number is a backslash and three digits.
    rcases h with rfl | rfl | rfl | rfl
    · rfl
    all_goals exact isPrinted_digitChar (Nat.mod_lt _ (by decide))
  · rename_i hcontrol
    rw [List.mem_singleton] at h
    subst h
    simp only [isControl, Bool.or_eq_true, decide_eq_true_eq, beq_iff_eq, not_or] at hcontrol
    simp only [isPrinted, Bool.and_eq_true, decide_eq_true_eq, bne_iff_ne]
    omega

theorem isPrinted_of_mem_quote {s : String} {c : Char} (h : c ∈ (quote s).toList) :
    isPrinted c = true := by
  rw [toList_quote, List.mem_cons, List.mem_append, List.mem_singleton] at h
  rcases h with rfl | h | rfl
  · rfl
  · obtain ⟨d, -, hd⟩ := List.mem_flatMap.mp h
    exact isPrinted_of_mem_quoteChar hd
  · rfl

/-- A quoted text in front of any other text is read as the bytes of the text, and all of the other
text is left; and it is written without control characters. -/
theorem quote_reads_back (s t : String) :
    readString? (quote s ++ t).toList = some (textBytes s, t.toList) ∧
      ∀ c ∈ (quote s).toList, 0x20 ≤ c.toNat ∧ c.toNat ≠ 0x7f := by
  constructor
  · rw [String.toList_append]
    exact readString?_quote s t.toList
  · intro c hc
    have hprinted := isPrinted_of_mem_quote hc
    simp only [isPrinted, Bool.and_eq_true, decide_eq_true_eq, bne_iff_ne] at hprinted
    exact hprinted

/-- A control character in front of digits, which could be read as part of its escape. -/
theorem quote_reads_back_before_digits :
    readString? (quote "\x007\"\\" ++ "8").toList = some ([0, 55, 34, 92], ['8']) ∧
      '0' ∈ (quote "\x007\"\\").toList ∧ 0x20 ≤ '0'.toNat ∧ '0'.toNat ≠ 0x7f := by
  have hread := (quote_reads_back "\x007\"\\" "8").1
  have hvalue : (textBytes "\x007\"\\", "8".toList) = ([0, 55, 34, 92], ['8']) := by decide +kernel
  rw [hvalue] at hread
  have hmem : '0' ∈ (quote "\x007\"\\").toList := by decide +kernel
  exact ⟨hread, hmem, (quote_reads_back "\x007\"\\" "8").2 '0' hmem⟩

end BlockLink.Lua
