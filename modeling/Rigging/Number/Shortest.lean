import Rigging.Number.Binary64

/-!
# Shortest decimal digits

The decimal numeral of a binary number: the fewest digits that read back as the number, and of the
numerals with so few digits the nearest one.  A numeral reads back when it lies between the two
midpoints to the neighbouring numbers, the midpoints included when the mantissa is even.

How the digits are laid out (positional or with an exponent, marks and padding) is a `Layout`,
chosen where the text is written.
-/

namespace Rigging.Number

/-- A positive decimal numeral `digits · 10 ^ exponent`. -/
structure Decimal where
  digits : Nat
  exponent : Int
deriving DecidableEq, Repr

/-- A positive quotient together with its distances to the two midpoints, all over `den`. -/
structure Span where
  value : Nat
  below : Nat
  above : Nat
  den : Nat
  closed : Bool

/-- The span of `m · 2 ^ e`.  The gap below a power of two is half of the gap above it. -/
def spanOf (m : Nat) (e : Int) : Span :=
  let up := Nat.pow 2 e.toNat
  { value := 4 * m * up
    below := (if m = Nat.pow 2 52 && (-1074 < e) then 1 else 2) * up
    above := 2 * up
    den := 4 * Nat.pow 2 (-e).toNat
    closed := m % 2 = 0 }

namespace Span

/-- Whether `10 ^ x` is at most the value. -/
def powerLe (s : Span) (x : Int) : Bool :=
  if 0 ≤ x then decide (Nat.pow 10 x.toNat * s.den ≤ s.value)
  else decide (s.den ≤ s.value * Nat.pow 10 (-x).toNat)

/-- The decimal exponent of the value: the greatest `x` with `10 ^ x` at most the value, looked for
next to an estimate from the binary exponent. -/
def magnitude (s : Span) : Int :=
  let binary : Int := (Nat.log2 s.value : Int) - (Nat.log2 s.den : Int)
  let guess := (binary * 30103) / 100000
  ([guess + 2, guess + 1, guess, guess - 1].find? s.powerLe).getD (guess - 2)

/-- `d · 10 ^ p` and the span over one denominator: `(numeral, value, below, above)`. -/
def align (s : Span) (d : Nat) (p : Int) : Nat × Nat × Nat × Nat :=
  if 0 ≤ p then (d * Nat.pow 10 p.toNat * s.den, s.value, s.below, s.above)
  else
    let k := Nat.pow 10 (-p).toNat
    (d * s.den, s.value * k, s.below * k, s.above * k)

/-- Whether `d · 10 ^ p` reads back as the value. -/
def holds (s : Span) (d : Nat) (p : Int) : Bool :=
  let (x, v, b, a) := s.align d p
  if s.closed then v ≤ x + b && x ≤ v + a else v < x + b && x < v + a

/-- The distance of `d · 10 ^ p` from the value, over the common denominator. -/
def distance (s : Span) (d : Nat) (p : Int) : Nat :=
  let (x, v, _, _) := s.align d p
  (x - v) + (v - x)

/-- The whole part of the value over `10 ^ p`. -/
def floorAt (s : Span) (p : Int) : Nat :=
  if 0 ≤ p then s.value / (s.den * Nat.pow 10 p.toNat) else s.value * Nat.pow 10 (-p).toNat / s.den

/-- The numeral with its last digit at `10 ^ p` that reads back, if there is one: of the two grid
points around the value the nearer, of two equally near ones the even. -/
def at? (s : Span) (p : Int) : Option Decimal :=
  let low := s.floorAt p
  let high := low + 1
  match s.holds low p, s.holds high p with
  | true, true =>
    let dl := s.distance low p
    let dh := s.distance high p
    if dl < dh || (dl = dh && low % 2 = 0) then some ⟨low, p⟩ else some ⟨high, p⟩
  | true, false => some ⟨low, p⟩
  | false, true => some ⟨high, p⟩
  | false, false => none

end Span

/-- The shortest numeral of `m · 2 ^ e` for positive `m`; seventeen digits always suffice. -/
def shortest (m : Nat) (e : Int) : Decimal :=
  let s := spanOf m e
  let x := s.magnitude
  ((List.range 17).findSome? fun k : Nat => s.at? (x - (k : Int))).getD ⟨s.floorAt (x - 16), x - 16⟩

/-- How a numeral is laid out. -/
structure Layout where
  /-- The least decimal exponent that is written positionally. -/
  lowest : Int
  /-- The greatest decimal exponent that is written positionally. -/
  highest : Int
  /-- What follows a whole number written positionally. -/
  wholeTail : String
  /-- What stands between digits and exponent. -/
  mark : String
  /-- The least number of exponent digits. -/
  exponentWidth : Nat
  infinity : String
  notANumber : String

namespace Layout

/-- `digits` (first digit worth `10 ^ x`) with a point. -/
def positional (l : Layout) (digits : List Char) (x : Int) : List Char :=
  if x < 0 then
    ['0', '.'] ++ List.replicate ((-x).toNat - 1) '0' ++ digits
  else
    let whole := x.toNat + 1
    if digits.length ≤ whole then
      digits ++ List.replicate (whole - digits.length) '0' ++ l.wholeTail.toList
    else digits.take whole ++ ['.'] ++ digits.drop whole

/-- `digits` with one digit before the point and an exponent. -/
def scientific (l : Layout) (digits : List Char) (x : Int) : List Char :=
  let fraction := digits.drop 1
  let exponent := Nat.toDigits 10 x.natAbs
  digits.take 1 ++ (if fraction.isEmpty then [] else '.' :: fraction) ++ l.mark.toList ++
    [if x < 0 then '-' else '+'] ++
    List.replicate (l.exponentWidth - exponent.length) '0' ++ exponent

/-- The digits of a numeral without the zeros at their end. -/
def significant (d : Nat) : List Char :=
  ((Nat.toDigits 10 d).reverse.dropWhile (· == '0')).reverse

/-- The text of a number. -/
def render (l : Layout) : Binary64 → String
  | .nan => l.notANumber
  | .infinite negative => (if negative then "-" else "") ++ l.infinity
  | .finite negative m e =>
    let sign := if negative then "-" else ""
    if m = 0 then sign ++ "0" ++ l.wholeTail
    else
      let d := shortest m e
      let x := d.exponent + ((Nat.toDigits 10 d.digits).length : Int) - 1
      let digits := significant d.digits
      sign ++ String.ofList
        (if l.lowest ≤ x && x ≤ l.highest then l.positional digits x else l.scientific digits x)

end Layout

end Rigging.Number
