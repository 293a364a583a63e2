import Rigging.Error
import Rigging.Json.Basic
import Rigging.Number.Numeral

/-!
# Fields of records

Reading the fields of a record from JSON values.  Values are taken generously: a text can stand for a
whole number or a truth value, a truth value for a number, and a number for a truth value.
-/

namespace Rigging

namespace Field

/-- A text. -/
def text : Json → Except FieldFault String
  | .string s => .ok s
  | _ => .error .notString

/-- A text that may be missing. -/
def text? : Json → Except FieldFault (Option String)
  | .null => .ok none
  | v => some <$> text v

/-- The words for true. -/
def trueWords : List String := ["1", "on", "t", "true", "y", "yes"]

/-- The words for false. -/
def falseWords : List String := ["0", "off", "f", "false", "n", "no"]

/-- The text with its ASCII letters in lower case. -/
def lowerAscii (s : String) : String :=
  s.map Char.toLower

/-- The whole number that a number stands for, if it is one. -/
def whole? : Number.Binary64 → Option Int
  | .finite negative m e =>
    let n : Option Nat :=
      if 0 ≤ e then some (m * Nat.pow 2 e.toNat)
      else if m % Nat.pow 2 (-e).toNat = 0 then some (m / Nat.pow 2 (-e).toNat)
      else none
    n.map fun n => if negative then -(n : Int) else n
  | _ => none

/-- A truth value. -/
def bool : Json → Except FieldFault Bool
  | .bool b => .ok b
  | .string s =>
    let w := lowerAscii s
    if trueWords.contains w then .ok true
    else if falseWords.contains w then .ok false
    else .error .unreadableBoolean
  | .int n => ofInt n
  | .float x =>
    match whole? x with
    | some n => ofInt n
    | none => .error .notBoolean
  | _ => .error .notBoolean
where
  /-- The truth value that one and zero stand for. -/
  ofInt (n : Int) : Except FieldFault Bool :=
    if n = 1 then .ok true else if n = 0 then .ok false else .error .unreadableBoolean

/-- A whole number written as text: a sign, digits that single underscores may divide, and perhaps a
fraction of zeros. -/
def intText? (s : String) : Option Int := do
  let (negative, cs) := Number.signed (Text.trimChars s.toList)
  let (digits, fraction) := cs.span (· != '.')
  guard ((fraction.drop 1).all (· == '0') && fraction.length ≠ 1)
  let ds ← Number.digitRun? (Number.digitBelow? 10) false digits
  guard (ds.length ≤ Number.digitLimit)
  let n : Int := Number.ofDigits 10 ds
  return if negative then -n else n

/-- A whole number. -/
def int : Json → Except FieldFault Int
  | .int n => .ok n
  | .bool b => .ok (if b then 1 else 0)
  | .float x =>
    match whole? x with
    | some n => .ok n
    | none => .error .fractionalInteger
  | .string s =>
    match intText? s with
    | some n => .ok n
    | none => .error .unreadableInteger
  | _ => .error .notInteger

/-- A whole number that is at least one. -/
def positive (v : Json) : Except FieldFault Int := do
  let n ← int v
  if n < 1 then .error .tooSmall else .ok n

/-- A field that must be there. -/
def required {α : Type} (fields : List (String × Json)) (name : String)
    (read : Json → Except FieldFault α) : Except FieldFault α :=
  match Assoc.get? name fields with
  | some v => read v
  | none => .error .missing

/-- A field with a value for when it is not there. -/
def orDefault {α : Type} (fields : List (String × Json)) (name : String) (default : α)
    (read : Json → Except FieldFault α) : Except FieldFault α :=
  match Assoc.get? name fields with
  | some v => read v
  | none => .ok default

/-- The fault of a field, if it has one, with the place of the field. -/
def fault? {α : Type} (place : List String) : Except FieldFault α → List (FieldFault × List String)
  | .ok _ => []
  | .error f => [(f, place)]

end Field

end Rigging
