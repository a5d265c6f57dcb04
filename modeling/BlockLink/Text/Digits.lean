/-!
# `BlockLink/Text/Digits.lean` — reading whole numbers

Three readers share one fold over digits. `readNat?` takes plain decimal digits, `readWord?` a pin
or unit number as the board and the editor write it (an optional plus sign, then digits, below
`2 ^ 32`), and `readSigned?` the digits after a radix mark (either sign, within 64 bits).

A reader takes the whole list or nothing: a stray character anywhere is a refusal.
-/

set_option autoImplicit false

namespace BlockLink.Text

/-- The value of a digit of the given radix, letters in either case; `none` for anything else. -/
def digitValue? (radix : Nat) (c : Char) : Option Nat :=
  let value? :=
    if '0' ≤ c ∧ c ≤ '9' then some (c.toNat - '0'.toNat)
    else if 'a' ≤ c ∧ c ≤ 'z' then some (c.toNat - 'a'.toNat + 10)
    else if 'A' ≤ c ∧ c ≤ 'Z' then some (c.toNat - 'A'.toNat + 10)
    else none
  value?.filter (· < radix)

/-- Continues reading digits behind a number already read. -/
def readDigitsFrom? (radix : Nat) : Nat → List Char → Option Nat
  | n, [] => some n
  | n, c :: cs =>
    match digitValue? radix c with
    | some d => readDigitsFrom? radix (radix * n + d) cs
    | none => none

/-- Reads one or more digits of the given radix. -/
def readDigits? (radix : Nat) : List Char → Option Nat
  | [] => none
  | cs => readDigitsFrom? radix 0 cs

/-- Reads one or more decimal digits. -/
def readNat? (cs : List Char) : Option Nat :=
  readDigits? 10 cs

/-- Reads a 32-bit number: an optional plus sign, then decimal digits. -/
def readWord? (cs : List Char) : Option UInt32 :=
  let digits := match cs with
    | '+' :: rest => rest
    | _ => cs
  match readNat? digits with
  | some n => if n < UInt32.size then some (UInt32.ofNat n) else none
  | none => none

/-- Reads a signed number of the given radix: an optional sign, then digits; within 64 bits. -/
def readSigned? (radix : Nat) (cs : List Char) : Option Int :=
  match cs with
  | '-' :: rest =>
    (readDigits? radix rest).bind fun n => if n ≤ Nat.pow 2 63 then some (-(n : Int)) else none
  | '+' :: rest =>
    (readDigits? radix rest).bind fun n => if n < Nat.pow 2 63 then some (n : Int) else none
  | _ => (readDigits? radix cs).bind fun n => if n < Nat.pow 2 63 then some (n : Int) else none

/-- The decimal digits of a number, most significant first and without leading zeros. -/
def decimal (n : Nat) : List Char :=
  Nat.toDigits 10 n

end BlockLink.Text
