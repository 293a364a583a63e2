import Rigging.Number.Binary64
import Rigging.Text.Blank
import Rigging.Text.CharTable

/-!
# Numerals

Reading whole and decimal numbers from text.  Digits may be divided by single underscores.  A whole
number may carry a base (`0x`, `0o`, `0b`); without one it has no leading zeros unless it is zero,
and at most `digitLimit` digits are read.  A decimal number is a run of digits with an optional
fraction and exponent.
-/

namespace Rigging.Number

/-- The most decimal digits that are read as a whole number. -/
def digitLimit : Nat := 4300

/-- The least number with more decimal digits than that. -/
def leastTooLong : Nat := Nat.pow 10 digitLimit

/-- The value of an ASCII digit in bases up to sixteen. -/
def digitValue? (c : Char) : Option Nat :=
  if '0' ≤ c && c ≤ '9' then some (c.toNat - 48)
  else if 'a' ≤ c && c ≤ 'f' then some (c.toNat - 87)
  else if 'A' ≤ c && c ≤ 'F' then some (c.toNat - 55)
  else none

/-- The digits of a run in which single underscores may stand between digits; `afterDigit` says
whether a digit was the last character read. -/
def digitRun? (value? : Char → Option Nat) (afterDigit : Bool) : List Char → Option (List Nat)
  | [] => if afterDigit then some [] else none
  | '_' :: cs => if afterDigit then digitRun? value? false cs else none
  | c :: cs => do
    let d ← value? c
    let ds ← digitRun? value? true cs
    return d :: ds

/-- The number that digits stand for, most significant first. -/
def ofDigits (base : Nat) (ds : List Nat) : Nat :=
  ds.foldl (fun n d => n * base + d) 0

/-- A digit of the given base. -/
def digitBelow? (base : Nat) (c : Char) : Option Nat :=
  (digitValue? c).filter (· < base)

/-- Reads a whole number without sign, its base given by its spelling. -/
def whole? (cs : List Char) : Option Nat :=
  match cs with
  | '0' :: b :: ds =>
    if b = 'x' || b = 'X' then ofDigits 16 <$> digitRun? (digitBelow? 16) false ds
    else if b = 'o' || b = 'O' then ofDigits 8 <$> digitRun? (digitBelow? 8) false ds
    else if b = 'b' || b = 'B' then ofDigits 2 <$> digitRun? (digitBelow? 2) false ds
    else do
      let digits ← digitRun? (digitBelow? 10) false cs
      if digits.all (· == 0) && digits.length ≤ digitLimit then some 0 else none
  | _ => do
    let digits ← digitRun? (digitBelow? 10) false cs
    if digits.length ≤ digitLimit then some (ofDigits 10 digits) else none

/-- A decimal digit of any script. -/
def anyDigit? (c : Char) : Option Nat :=
  (Text.decimalZeros.find? fun z => z ≤ c.toNat && c.toNat < z + 10).map (c.toNat - ·)

/-- Splits a leading sign off: whether it is a minus, and the rest. -/
def signed : List Char → Bool × List Char
  | '-' :: cs => (true, cs)
  | '+' :: cs => (false, cs)
  | cs => (false, cs)

/-- Reads a whole decimal number as an argument gives it: blanks around it, a sign, and the digits
of any script. -/
def integer? (s : String) : Option Int := do
  let (negative, cs) := signed (Text.trimChars s.toList)
  let digits ← digitRun? anyDigit? false cs
  guard (digits.length ≤ digitLimit)
  let n : Int := ofDigits 10 digits
  return if negative then -n else n

/-- The parts of a decimal numeral: the digits before the point, after it, and the exponent, each
as written. -/
def decimalParts (cs : List Char) : List Char × Option (List Char) × Option (List Char) :=
  let isMark := fun c : Char => c == 'e' || c == 'E'
  let (mantissa, tail) := cs.span (!isMark ·)
  let (whole, fraction) := mantissa.span (· != '.')
  (whole, if fraction.isEmpty then none else some (fraction.drop 1),
    if tail.isEmpty then none else some (tail.drop 1))

/-- The digits of a part that may be empty. -/
def digitsOrNone? (cs : List Char) : Option (List Nat) :=
  if cs.isEmpty then some [] else digitRun? (digitBelow? 10) false cs

/-- Reads a decimal number: digits with an optional fraction and exponent, rounded to the nearest
binary number. -/
def decimal? (cs : List Char) : Option Binary64 := do
  let (negative, cs) := signed cs
  let (whole, fraction, exponent) := decimalParts cs
  let ws ← digitsOrNone? whole
  let fs ← digitsOrNone? (fraction.getD [])
  guard (!(ws.isEmpty && fs.isEmpty))
  let e : Int ← match exponent with
    | none => some 0
    | some es => do
      let (below, ds) := signed es
      let n : Int := ofDigits 10 (← digitRun? (digitBelow? 10) false ds)
      some (if below then -n else n)
  let digits := ws ++ fs
  return Binary64.ofDecimal negative (ofDigits 10 digits) digits.length (e - fs.length)

end Rigging.Number
