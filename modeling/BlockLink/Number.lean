import BlockLink.Decimal.Shortest
import BlockLink.Text.Blank
import BlockLink.Text.Digits

/-!
# `BlockLink/Number.lean` — the numbers a slot can hold

A number is a finite double, and there is one zero: a minus sign in front of a zero is dropped when
the number is made, so that no number is ever shown as `-0`. Infinities and not-a-number are
refused where a number is made from bits, and a text that names one is not a number.

* `Number.read?` reads what the editor accepts in a numeric slot.
* `Number.text` writes the shortest decimal that reads back, in the layout Lua takes.
-/

set_option autoImplicit false

namespace BlockLink

open BlockLink.Text BlockLink.Decimal

/-- A finite double without a negative zero. -/
structure Number where
  negative : Bool
  magnitude : Magnitude
  deriving DecidableEq, Repr

/-- Why bits are not a number. -/
inductive NumberError where
  | notANumber
  | infinite
  deriving DecidableEq, Repr

namespace Number

/-- The one zero. -/
def zero : Number := ⟨false, ⟨0, minExponent⟩⟩

/-- The number one. -/
def one : Number := ⟨false, ⟨Nat.pow 2 52, -52⟩⟩

/-- A number from its sign and size; zero has no sign. -/
def ofMagnitude (negative : Bool) (m : Magnitude) : Number :=
  if m.significand = 0 then zero else ⟨negative, m⟩

/-- The number with the given binary64 bits. -/
def ofBits (bits : UInt64) : Except NumberError Number :=
  let n := bits.toNat
  let negative := Nat.pow 2 63 ≤ n
  let exponent : Nat := n / Nat.pow 2 52 % Nat.pow 2 11
  let fraction := n % Nat.pow 2 52
  if exponent = Nat.pow 2 11 - 1 then
    throw (if fraction = 0 then .infinite else .notANumber)
  else if exponent = 0 then
    pure (ofMagnitude negative ⟨fraction, minExponent⟩)
  else
    pure (ofMagnitude negative ⟨Nat.pow 2 52 + fraction, (exponent : Int) - 1075⟩)

/-- The binary64 bits of a number. -/
def toBits (x : Number) : UInt64 :=
  let sign := if x.negative then Nat.pow 2 63 else 0
  let m := x.magnitude.significand
  let body := if m < Nat.pow 2 52 then m
    else (x.magnitude.exponent + 1075).toNat * Nat.pow 2 52 + (m - Nat.pow 2 52)
  UInt64.ofNat (sign + body)

/-- The number nearest to `± digits * 10 ^ exponent`; `none` beyond the largest double. The two
outer tests only keep the powers small: below `10 ^ -330` a value rounds to zero, and from
`10 ^ 310` on it is too large. -/
def ofDecimal? (negative : Bool) (digits : Nat) (exponent : Int) : Option Number :=
  let place := (digitCount digits : Int) + exponent
  if digits = 0 ∨ place < -330 then some zero
  else if 310 < place then none
  else
    let num := if 0 ≤ exponent then digits * Nat.pow 10 exponent.toNat else digits
    let den := if 0 ≤ exponent then 1 else Nat.pow 10 (-exponent).toNat
    (nearest? num den).map (ofMagnitude negative)

/-- The number nearest to an integer. -/
def ofInt? (n : Int) : Option Number :=
  ofDecimal? (n < 0) n.natAbs 0

/-! ## Reading -/

/-- Splits off a sign; `true` for minus. -/
def readSign : List Char → Bool × List Char
  | '-' :: cs => (true, cs)
  | '+' :: cs => (false, cs)
  | cs => (false, cs)

/-- Reads the exponent of a decimal, mark included; nothing at all is exponent zero. -/
def readExponent? : List Char → Option Int
  | [] => some 0
  | c :: cs =>
    if c = 'e' ∨ c = 'E' then
      let (negative, digits) := readSign cs
      (readNat? digits).map fun n => if negative then -(n : Int) else (n : Int)
    else none

/-- Splits a decimal at its exponent mark; the mark stays with the exponent. -/
def splitExponent (cs : List Char) : List Char × List Char :=
  cs.span fun c => !(c == 'e' || c == 'E')

/-- Splits the digits of a decimal at its point. -/
def splitPoint (cs : List Char) : List Char × List Char :=
  let (whole, rest) := cs.span (· != '.')
  (whole, rest.drop 1)

/-- Reads an unsigned decimal: digits with at most one point among or around them, at least one
digit, and an optional exponent. -/
def readDecimal? (negative : Bool) (cs : List Char) : Option Number :=
  let (mantissa, rest) := splitExponent cs
  let (whole, fraction) := splitPoint mantissa
  match readNat? (whole ++ fraction), readExponent? rest with
  | some digits, some exponent => ofDecimal? negative digits (exponent - (fraction.length : Int))
  | _, _ => none

/-- Reads a number as the editor accepts it in a numeric slot: blanks around are dropped, `0x`,
`0o` and `0b` (in either case) mark the radix of a signed integer, and anything else is a
decimal. -/
def readChars? (cs : List Char) : Option Number :=
  match trim cs with
  | '0' :: 'x' :: digits | '0' :: 'X' :: digits => (readSigned? 16 digits).bind ofInt?
  | '0' :: 'o' :: digits | '0' :: 'O' :: digits => (readSigned? 8 digits).bind ofInt?
  | '0' :: 'b' :: digits | '0' :: 'B' :: digits => (readSigned? 2 digits).bind ofInt?
  | cs =>
    let (negative, unsigned) := readSign cs
    readDecimal? negative unsigned

/-- Reads a number as the editor accepts it in a numeric slot. -/
def read? (s : String) : Option Number :=
  readChars? s.toList

/-! ## Writing -/

/-- The digits of `digits * 10 ^ exponent` laid out as a decimal. With the point at place `p`
(the value is below `10 ^ p` and not below `10 ^ (p - 1)`) the positional form is used for
`-5 < p ≤ 16`, and otherwise one digit, a point if more follow, and the exponent. -/
def layout (digits : Nat) (exponent : Int) : List Char :=
  let ds := decimal digits
  let p := (ds.length : Int) + exponent
  if 0 ≤ exponent ∧ p ≤ 16 then ds ++ List.replicate exponent.toNat '0'
  else if 0 < p ∧ p ≤ 16 then ds.take p.toNat ++ '.' :: ds.drop p.toNat
  else if -5 < p ∧ p ≤ 0 then '0' :: '.' :: List.replicate (-p).toNat '0' ++ ds
  else
    let mantissa := match ds with
      | d :: e :: rest => d :: '.' :: e :: rest
      | short => short
    let power := p - 1
    mantissa ++ 'e' :: (if power < 0 then ['-'] else []) ++ decimal power.natAbs

/-- The characters of a number's text. -/
def textChars (x : Number) : List Char :=
  if x.magnitude.significand = 0 then ['0']
  else
    let (digits, exponent) := x.magnitude.shortest
    (if x.negative then ['-'] else []) ++ layout digits exponent

/-- The text of a number: the shortest decimal that reads back. -/
def text (x : Number) : String :=
  String.ofList x.textChars

end Number

end BlockLink
