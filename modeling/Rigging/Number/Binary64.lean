/-!
# Binary floating point

The numbers of the 64-bit binary format, kept as what they stand for: a whole mantissa times a
power of two, an infinity, or no number.  `ofRatio` rounds an exact quotient to the nearest of
them, a tie to the even mantissa, and `ofDecimal` does so for a decimal numeral.  All arithmetic is
on natural numbers, so nothing is rounded twice.
-/

namespace Rigging.Number

/-- A number of the 64-bit binary format.  `finite negative m e` stands for `m · 2 ^ e`; the ones
that `ofRatio` builds have `m < 2 ^ 53` and `-1074 ≤ e`, with `2 ^ 52 ≤ m` unless `e = -1074`. -/
inductive Binary64 where
  | finite (negative : Bool) (mantissa : Nat) (exponent : Int)
  | infinite (negative : Bool)
  | nan
deriving DecidableEq, Repr, Inhabited

namespace Binary64

/-- Zero, of either sign. -/
def isZero : Binary64 → Bool
  | finite _ 0 _ => true
  | _ => false

/-- `n · 2 ^ e` as a quotient `(numerator, denominator)`. -/
def twoPower (n : Nat) (e : Int) : Nat × Nat :=
  if 0 ≤ e then (n * Nat.pow 2 e.toNat, 1) else (n, Nat.pow 2 (-e).toNat)

/-- The whole part and remainder of `num / (den · 2 ^ e)`, with the divisor of the remainder. -/
def divideAt (num den : Nat) (e : Int) : Nat × Nat × Nat :=
  let p := twoPower 1 e
  let n := num * p.2
  let d := den * p.1
  (n / d, n % d, d)

/-- The exponent at which the quotient `num / den` has a mantissa of 53 bits, or the least exponent
when that would lie below it. -/
def exponentFor (num den : Nat) : Int :=
  let e : Int := (Nat.log2 num : Int) - (Nat.log2 den : Int) - 52
  let e := if (divideAt num den e).1 < Nat.pow 2 52 then e - 1 else e
  max e (-1074)

/-- The nearest number to `num / den`; of two that are equally near, the one with the even
mantissa. -/
def ofRatio (negative : Bool) (num den : Nat) : Binary64 :=
  if num = 0 then finite negative 0 (-1074)
  else
    let e := exponentFor num den
    let (q, r, d) := divideAt num den e
    let q := if d < 2 * r || (2 * r = d && q % 2 = 1) then q + 1 else q
    let (q, e) := if q = Nat.pow 2 53 then (Nat.pow 2 52, e + 1) else (q, e)
    if 971 < e then infinite negative else finite negative q e

/-- The nearest number to `digits · 10 ^ exponent`, where `digits` is written with `width` decimal
digits.  Exponents that decide the answer alone are settled without computing the power. -/
def ofDecimal (negative : Bool) (digits width : Nat) (exponent : Int) : Binary64 :=
  if digits = 0 then finite negative 0 (-1074)
  else if 400 < exponent + width && 400 < exponent + (Nat.log2 digits : Int) / 4 then infinite negative
  else if exponent + width < -400 then finite negative 0 (-1074)
  else if 0 ≤ exponent then ofRatio negative (digits * Nat.pow 10 exponent.toNat) 1
  else ofRatio negative digits (Nat.pow 10 (-exponent).toNat)

end Binary64

end Rigging.Number
