import Mathlib.Data.Rat.Cast.Order
import Mathlib.Tactic.Ring
import Mathlib.Tactic.FieldSimp
import BlockLink.Number

/-!
# `BlockLink/Proofs/Decimal/Whole.lean` — whole numbers as doubles and back

Up to `2 ^ 53` the doubles include every whole number, and neighbouring ones are at most one apart.
So a whole number is rounded to itself (`nearest?_whole`), and it is the only whole number among the
reals that round to its double (`encloses_whole`). The search for the shortest digits goes from
coarse grids to fine ones and never gets behind the grid of the whole numbers, where it finds the
number itself; whatever it finds before is the same number with its zeros in the exponent.

At `2 ^ 53` itself the doubles above are two apart, and half-way to the next one lies a whole number
that rounds down. That single number is evaluated.
-/

set_option autoImplicit false

namespace BlockLink.Decimal

/-- The exact value of a double. -/
def Magnitude.value (x : Magnitude) : ℚ :=
  x.significand * (2 : ℚ) ^ x.exponent

/-- The double of a whole number below `2 ^ 53`: its bits moved up until they are fifty-three. -/
def whole (n : Nat) : Magnitude :=
  ⟨n * 2 ^ (52 - n.log2), -((52 - n.log2 : Nat) : Int)⟩

section Whole

variable {n : Nat}

theorem log2_le (hpos : 0 < n) (hn : n < 2 ^ 53) : n.log2 ≤ 52 :=
  Nat.le_of_lt_succ ((Nat.log2_lt (by omega)).mpr hn)

theorem le_significand_whole (hpos : 0 < n) (hn : n < 2 ^ 53) : 2 ^ 52 ≤ n * 2 ^ (52 - n.log2) := by
  have hlog := log2_le hpos hn
  calc 2 ^ 52 = 2 ^ n.log2 * 2 ^ (52 - n.log2) := by rw [← Nat.pow_add, Nat.add_sub_cancel' hlog]
    _ ≤ n * 2 ^ (52 - n.log2) := Nat.mul_le_mul_right _ (Nat.log2_self_le (by omega))

theorem significand_whole_lt (hpos : 0 < n) (hn : n < 2 ^ 53) : n * 2 ^ (52 - n.log2) < 2 ^ 53 := by
  have hlog := log2_le hpos hn
  calc n * 2 ^ (52 - n.log2)
      < 2 ^ (n.log2 + 1) * 2 ^ (52 - n.log2) :=
        Nat.mul_lt_mul_of_pos_right Nat.lt_log2_self (Nat.two_pow_pos _)
    _ = 2 ^ 53 := by rw [← Nat.pow_add]; congr 1; omega

theorem value_whole (n : Nat) : (whole n).value = n := by
  rw [Magnitude.value, whole, zpow_neg, zpow_natCast]
  push_cast
  field_simp

/-! ## Rounding

A whole number below `2 ^ 53` fits into the significand, so that the quotient by the power of two
comes out even and there is nothing to round. -/

theorem roundDiv_one (m : Nat) : roundDiv m 1 = m := by
  simp [roundDiv, Nat.mod_one]

/-- A whole number is shifted by multiplication alone, and nothing is divided. -/
theorem shiftDown_neg (n k : Nat) : shiftDown n 1 (-(k : Int)) = (n * 2 ^ k, 1) := by
  unfold shiftDown
  cases k with
  | zero => simp
  | succ k =>
    rw [if_neg (by omega), Int.neg_neg, Int.toNat_natCast]
    rfl

/-- The estimate of the exponent is one too low, which leaves one bit too many, and is put up by
one. -/
theorem exponentFor_whole (hpos : 0 < n) (hn : n < 2 ^ 53) :
    exponentFor n 1 = -((52 - n.log2 : Nat) : Int) := by
  have hlog := log2_le hpos hn
  have hstart : max ((n.log2 : Int) - ((1 : Nat).log2 : Int) - 53) minExponent
      = -((53 - n.log2 : Nat) : Int) := by
    have hone : (1 : Nat).log2 = 0 := by decide
    rw [hone, minExponent]
    omega
  have hbits : ¬ n * 2 ^ (53 - n.log2) / 1 < Nat.pow 2 53 := by
    have hle := le_significand_whole hpos hn
    have hsucc : 53 - n.log2 = 52 - n.log2 + 1 := by omega
    rw [Nat.div_one, hsucc, Nat.pow_succ, ← Nat.mul_assoc, Nat.pow_eq]
    omega
  simp only [exponentFor, hstart, shiftDown_neg, if_neg hbits]
  omega

/-- A whole number is rounded to itself. -/
theorem nearest?_whole (hpos : 0 < n) (hn : n < 2 ^ 53) : nearest? n 1 = some (whole n) := by
  have hbits : n * 2 ^ (52 - n.log2) < Nat.pow 2 53 := significand_whole_lt hpos hn
  have hlarge : -((52 - n.log2 : Nat) : Int) ≤ maxExponent := by
    rw [maxExponent]
    omega
  simp only [nearest?, exponentFor_whole hpos hn, shiftDown_neg, roundDiv_one, if_pos hbits,
    if_pos hlarge]
  rfl

end Whole

/-! ## The numbers that round to a whole number

The digits are looked for in the interval of the reals that round to the double. Around a whole
number that interval is less than one wide on either side. -/

/-- A whole number is the value of the interval, and no other one lies in it or at its ends. -/
structure Interval.Encloses (i : Interval) (n : Nat) : Prop where
  value : i.value = n * i.den
  low_lt : i.low < i.value
  lt_high : i.value < i.high
  below : i.value < i.low + i.den
  above : i.high < i.value + i.den

/-- The interval of a double in quarters of its last place, of which two lie above and one or two
below. -/
theorem interval_neg (m k : Nat) :
    ∃ below closed, (below = 1 ∨ below = 2) ∧
      (⟨m, -(k : Int)⟩ : Magnitude).interval
        = ⟨4 * m - below, 4 * m, 4 * m + 2, 2 ^ (k + 2), closed⟩ := by
  have hneg : ¬ (0 : Int) ≤ -(k : Int) - 2 := by omega
  have hden : (-(-(k : Int) - 2)).toNat = k + 2 := by omega
  refine ⟨if m = Nat.pow 2 52 ∧ minExponent < -(k : Int) then 1 else 2, m % 2 = 0, ?_, ?_⟩
  · split
    · exact Or.inl rfl
    · exact Or.inr rfl
  · simp only [Magnitude.interval, if_neg hneg, hden, Nat.mul_one]
    rfl

/-- Neighbouring doubles are at most one apart, so half-way to either of them no other whole number
is met. -/
theorem encloses_whole {n : Nat} (hpos : 0 < n) (hn : n < 2 ^ 53) :
    (whole n).interval.Encloses n := by
  obtain ⟨below, closed, hbelow, hinterval⟩ := interval_neg (n * 2 ^ (52 - n.log2)) (52 - n.log2)
  have hle := le_significand_whole hpos hn
  have hquarters : 4 * (n * 2 ^ (52 - n.log2)) = n * 2 ^ (52 - n.log2 + 2) := by ring
  have hfour : 4 ≤ 2 ^ (52 - n.log2 + 2) := by
    rw [Nat.pow_add]
    exact Nat.le_mul_of_pos_left 4 (Nat.two_pow_pos _)
  rw [whole, hinterval]
  exact ⟨hquarters, by dsimp only; omega, by dsimp only; omega, by dsimp only; omega,
    by dsimp only; omega⟩

section Grid

variable {i : Interval} {n : Nat}

theorem Interval.Encloses.den_pos (h : i.Encloses n) : 0 < i.den := by
  have hlow := h.low_lt
  have hbelow := h.below
  omega

/-- On the grid of the multiples of a power of ten the interval holds the number or nothing. -/
theorem Interval.Encloses.inside_iff (h : i.Encloses n) (w : Nat) :
    (if i.closed then decide (i.low ≤ w * i.den) && decide (w * i.den ≤ i.high)
      else decide (i.low < w * i.den) && decide (w * i.den < i.high)) = decide (w = n) := by
  have hvalue := h.value
  have hlow := h.low_lt
  have hhigh := h.lt_high
  have hbelow := h.below
  have habove := h.above
  rcases Nat.lt_trichotomy w n with hlt | rfl | hgt
  · have hstep : (w + 1) * i.den ≤ n * i.den := Nat.mul_le_mul_right _ hlt
    rw [Nat.add_mul] at hstep
    have hne : ¬ w = n := by omega
    split <;> simp only [hne, decide_false, Bool.and_eq_false_iff, decide_eq_false_iff_not]
      <;> omega
  · split <;> simp only [decide_true, Bool.and_eq_true, decide_eq_true_eq] <;> omega
  · have hstep : (n + 1) * i.den ≤ w * i.den := Nat.mul_le_mul_right _ hgt
    rw [Nat.add_mul] at hstep
    have hne : ¬ w = n := by omega
    split <;> simp only [hne, decide_false, Bool.and_eq_false_iff, decide_eq_false_iff_not]
      <;> omega

/-- The search on a grid of whole numbers finds the number if it lies on the grid. -/
theorem Interval.Encloses.onGrid? (h : i.Encloses n) (j : Nat) :
    i.onGrid? (j : Int) = if 10 ^ j ∣ n then some (n / 10 ^ j) else none := by
  have hden := h.den_pos
  -- Of the grid only the number itself is inside the interval.
  have hinside (d : Nat) : (if i.closed then
        decide (i.low * 1 ≤ d * (i.den * 10 ^ j)) && decide (d * (i.den * 10 ^ j) ≤ i.high * 1)
      else decide (i.low * 1 < d * (i.den * 10 ^ j)) && decide (d * (i.den * 10 ^ j) < i.high * 1))
        = decide (d * 10 ^ j = n) := by
    have hmul : d * (i.den * 10 ^ j) = d * 10 ^ j * i.den := by ring
    rw [Nat.mul_one, Nat.mul_one, hmul]
    exact h.inside_iff (d * 10 ^ j)
  have hbelow : i.value * 1 / (i.den * 10 ^ j) = n / 10 ^ j := by
    rw [Nat.mul_one, h.value, Nat.mul_comm i.den, Nat.mul_div_mul_right _ _ hden]
  have habove : ¬ (n / 10 ^ j + 1) * 10 ^ j = n := by
    have hlt := Nat.lt_mul_div_succ n (Nat.pow_pos (n := j) (show 0 < 10 by decide))
    rw [Nat.mul_comm] at hlt
    omega
  have hzero : (0 : Int) ≤ (j : Int) := Int.natCast_nonneg j
  simp only [Interval.onGrid?, if_pos hzero, Int.toNat_natCast, Nat.pow_eq, hbelow, hinside,
    decide_eq_false habove]
  by_cases hdvd : 10 ^ j ∣ n
  · rw [if_pos hdvd, decide_eq_true (Nat.div_mul_cancel hdvd)]
  · have hne : ¬ n / 10 ^ j * 10 ^ j = n := fun heq => hdvd (Dvd.intro_left _ heq)
    rw [if_neg hdvd, decide_eq_false hne]

theorem Interval.Encloses.pointPlace (h : i.Encloses n) (hpos : 0 < n) :
    pointPlace i.value i.den = digitCount n := by
  have hle : i.den ≤ n * i.den := Nat.le_mul_of_pos_left _ hpos
  rw [Decimal.pointPlace, h.value, if_pos hle, Nat.mul_div_cancel n h.den_pos]

end Grid

/-! ## The shortest digits

The search tries one digit, then two, and so on, and takes the first grid that has a point in the
interval. -/

/-- Zeros move from the digits to the exponent, and the number stays the same. -/
theorem dropZeros_spec (fuel d j : Nat) :
    ∃ d' j' : Nat, dropZeros fuel d (j : Int) = (d', (j' : Int)) ∧ d' * 10 ^ j' = d * 10 ^ j := by
  induction fuel generalizing d j with
  | zero => exact ⟨d, j, rfl, rfl⟩
  | succ fuel ih =>
    rw [dropZeros]
    split
    · rename_i hzero
      obtain ⟨d', j', hdrop, hsame⟩ := ih (d / 10) (j + 1)
      refine ⟨d', j', hdrop, ?_⟩
      have hten : d / 10 * 10 = d := Nat.div_mul_cancel (Nat.dvd_of_mod_eq_zero hzero.2)
      calc d' * 10 ^ j' = d / 10 * 10 ^ (j + 1) := hsame
        _ = d / 10 * 10 * 10 ^ j := by ring
        _ = d * 10 ^ j := by rw [hten]
    · exact ⟨d, j, rfl, rfl⟩

/-- The grids that are tried while the digits of a whole number last are those of whole numbers. -/
theorem exists_findSome?_onGrid? {i : Interval} {n : Nat} (h : i.Encloses n)
    (hcount : digitCount n ≤ 17) :
    ∃ d j : Nat, d * 10 ^ j = n ∧
      ((List.range 17).findSome? fun m =>
        (i.onGrid? ((digitCount n : Int) - (m + 1 : Nat))).map fun d =>
          (d, (digitCount n : Int) - (m + 1 : Nat))) = some (d, (j : Int)) := by
  have hcountPos : 0 < digitCount n := Nat.length_toDigits_pos
  have hgrid (m : Nat) (hm : m < digitCount n) :
      (digitCount n : Int) - (m + 1 : Nat) = ((digitCount n - (m + 1) : Nat) : Int) := by omega
  obtain ⟨rest, hrest⟩ := Nat.exists_eq_add_of_le hcount
  rw [hrest, List.range_add, List.findSome?_append]
  generalize hsearch : (List.range (digitCount n)).findSome? _ = found
  -- On the grid of the whole numbers at the latest the search finds the number.
  have hfound : found.isSome = true := by
    rw [← hsearch, List.findSome?_isSome_iff]
    refine ⟨digitCount n - 1, List.mem_range.mpr (by omega), ?_⟩
    have hlast : digitCount n - (digitCount n - 1 + 1) = 0 := by omega
    rw [hgrid _ (by omega), hlast, h.onGrid?]
    simp
  obtain ⟨r, rfl⟩ := Option.isSome_iff_exists.mp hfound
  obtain ⟨m, hm, hr⟩ := List.exists_of_findSome?_eq_some hsearch
  rw [hgrid m (List.mem_range.mp hm), h.onGrid?, Option.map_eq_some_iff] at hr
  obtain ⟨d, hd, rfl⟩ := hr
  rw [Option.ite_none_right_eq_some] at hd
  obtain ⟨hdvd, hdiv⟩ := hd
  cases hdiv
  exact ⟨_, _, Nat.div_mul_cancel hdvd, rfl⟩

/-- The shortest digits of a whole number are its own, less zeros at their end. -/
theorem shortest_of_encloses {x : Magnitude} {n : Nat} (h : x.interval.Encloses n) (hpos : 0 < n)
    (hcount : digitCount n ≤ 17) :
    ∃ d j : Nat, x.shortest = (d, (j : Int)) ∧ d * 10 ^ j = n := by
  obtain ⟨d, j, hvalue, hfound⟩ := exists_findSome?_onGrid? h hcount
  obtain ⟨d', j', hdrop, hsame⟩ := dropZeros_spec 17 d j
  refine ⟨d', j', ?_, hsame.trans hvalue⟩
  simp only [Magnitude.shortest, h.pointPlace hpos, hfound, hdrop]

end BlockLink.Decimal

namespace BlockLink.Number

open BlockLink.Text BlockLink.Decimal

/-! ## The text

What was found as digits and an exponent is laid out as the digits of the number, and the sign is
put in front. -/

theorem decimal_mul_pow {d : Nat} (hd : 0 < d) (j : Nat) :
    decimal (d * 10 ^ j) = decimal d ++ List.replicate j '0' := by
  induction j with
  | zero => simp
  | succ j ih =>
    have hpos : 0 < d * 10 ^ j := Nat.mul_pos hd (Nat.pow_pos (by decide))
    have hshift : d * 10 ^ (j + 1) = 10 * (d * 10 ^ j) + 0 := by ring
    rw [hshift, decimal, ← Nat.toDigits_append_toDigits (by decide) hpos (by decide),
      Nat.toDigits_zero, List.replicate_succ', ← List.append_assoc, ← ih]
    rfl

/-- A whole number of at most sixteen digits is laid out without point and exponent. -/
theorem layout_whole {d j n : Nat} (hn : d * 10 ^ j = n) (hpos : 0 < n)
    (hcount : digitCount n ≤ 16) :
    layout d (j : Int) = decimal n := by
  have hd : 0 < d := Nat.pos_of_ne_zero fun hzero => by simp [hzero] at hn; omega
  have hdigits : decimal n = decimal d ++ List.replicate j '0' := by
    rw [← hn]
    exact decimal_mul_pow hd j
  have hlength : (decimal n).length = (decimal d).length + j := by
    rw [hdigits, List.length_append, List.length_replicate]
  have hplace : (0 : Int) ≤ (j : Int) ∧ ((decimal d).length : Int) + (j : Int) ≤ 16 := by
    have hcount' : (decimal n).length ≤ 16 := hcount
    omega
  rw [layout, if_pos hplace, Int.toNat_natCast, hdigits]

theorem digitCount_le {n : Nat} (hn : n ≤ 2 ^ 53) : digitCount n ≤ 16 :=
  (Nat.length_toDigits_le_iff (by decide) (by decide)).mpr (by omega)

/-- A whole number up to `2 ^ 53` is a double exactly, and has the digits of that double. -/
theorem exists_nearest?_eq {n : Nat} (hpos : 0 < n) (hn : n ≤ 2 ^ 53) :
    ∃ m, nearest? n 1 = some m ∧ m.significand ≠ 0 ∧ m.value = n ∧
      ∃ d j : Nat, m.shortest = (d, (j : Int)) ∧ d * 10 ^ j = n := by
  rcases Nat.lt_or_eq_of_le hn with hlt | rfl
  · have hle := le_significand_whole hpos hlt
    have hcount : digitCount n ≤ 17 := Nat.le_succ_of_le (digitCount_le hn)
    refine ⟨whole n, nearest?_whole hpos hlt, ?_, value_whole n,
      shortest_of_encloses (encloses_whole hpos hlt) hpos hcount⟩
    show n * 2 ^ (52 - n.log2) ≠ 0
    omega
  -- At `2 ^ 53` the doubles above are two apart, so this number is evaluated.
  · refine ⟨⟨2 ^ 52, 1⟩, by decide +kernel, by decide, ?_, 2 ^ 53, 0, by decide +kernel, by decide⟩
    norm_num [Magnitude.value]

/-- The whole number with the given sign and size. -/
def signed : Bool → Nat → Int
  | true, n => -(n : Int)
  | false, n => n

/-- The exact value of a number. -/
def value (x : Number) : ℚ :=
  if x.negative then -x.magnitude.value else x.magnitude.value

/-- Texts of whole numbers are the digits, with a minus sign in front of a negative one. -/
theorem toString_signed (negative : Bool) {n : Nat} (hpos : 0 < n) :
    toString (signed negative n)
      = String.ofList ((if negative then ['-'] else []) ++ decimal n) := by
  cases negative with
  | true =>
    have hneg : ¬ 0 ≤ -(n : Int) := by omega
    calc toString (-(n : Int))
        = "-" ++ n.repr := by
          rw [Int.toString_eq_repr, Int.repr_eq_if, if_neg hneg, Int.neg_neg, Int.toNat_natCast]
      _ = String.ofList (['-'] ++ decimal n) := by rw [String.ofList_append]; rfl
  | false => exact Nat.repr_eq_ofList_toDigits

/-- A whole number up to `2 ^ 53` in size is read exactly, and written in plain decimal; a minus
sign in front of a zero is lost. -/
theorem ofDecimal?_whole (negative : Bool) {n : Nat} (hn : n ≤ 2 ^ 53) :
    ∃ x, ofDecimal? negative n 0 = some x ∧ x.value = signed negative n ∧
      x.text = toString (signed negative n) := by
  rcases Nat.eq_zero_or_pos n with rfl | hpos
  · have hzero : signed negative 0 = 0 := by cases negative <;> rfl
    rw [hzero]
    exact ⟨zero, rfl, by simp [value, zero, Magnitude.value], by decide⟩
  · obtain ⟨m, hnearest, hne, hvalue, d, j, hshortest, hdigits⟩ := exists_nearest?_eq hpos hn
    have hcount := digitCount_le hn
    have hfits : ¬ (n = 0 ∨ (digitCount n : Int) + 0 < -330) := by omega
    have hsmall : ¬ (310 < (digitCount n : Int) + 0) := by omega
    refine ⟨⟨negative, m⟩, ?_, ?_, ?_⟩
    · simp only [ofDecimal?, if_neg hfits, if_neg hsmall, Int.le_refl, if_true, Int.toNat_zero]
      have hone : n * Nat.pow 10 0 = n := Nat.mul_one n
      rw [hone, hnearest, Option.map_some, ofMagnitude, if_neg hne]
    · cases negative <;> simp [value, signed, hvalue]
    · rw [toString_signed negative hpos, text, textChars, if_neg hne, hshortest]
      dsimp only
      rw [layout_whole hdigits hpos hcount]

end BlockLink.Number
