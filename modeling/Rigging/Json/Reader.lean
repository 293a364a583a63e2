import Rigging.Json.Basic
import Rigging.Number.Numeral
import Rigging.Text.Surrogate

/-!
# Reading JSON

A strict reader with three allowances: the words `NaN`, `Infinity` and `-Infinity` are numbers, a
key may come twice (the later value stays, at the first place), and an escape may name half a
character.  A fault carries its cause and the position of the character where reading stopped; its
message adds the line and column of that position.
-/

namespace Rigging.Json

/-- What can be wrong with a JSON text. -/
inductive Cause where
  | byteOrderMark
  | expectedValue
  | expectedKey
  | expectedColon
  | expectedComma
  | extraData
  | unterminatedString
  | controlCharacter
  | badEscape
  | badCodeEscape
deriving DecidableEq, Repr

/-- The words for a cause. -/
def Cause.message : Cause → String
  | .byteOrderMark => "Unexpected UTF-8 BOM (decode using utf-8-sig)"
  | .expectedValue => "Expecting value"
  | .expectedKey => "Expecting property name enclosed in double quotes"
  | .expectedColon => "Expecting ':' delimiter"
  | .expectedComma => "Expecting ',' delimiter"
  | .extraData => "Extra data"
  | .unterminatedString => "Unterminated string starting at"
  | .controlCharacter => "Invalid control character at"
  | .badEscape => "Invalid \\escape"
  | .badCodeEscape => "Invalid \\uXXXX escape"

/-- Why a text is not read: it is malformed at a position, or a whole number has too many
digits. -/
inductive Fault where
  | malformed (cause : Cause) (position : Nat)
  | tooManyDigits (digits : Nat)
deriving DecidableEq, Repr

/-- The message of a fault found in `text`. -/
def Fault.message (text : List Char) : Fault → String
  | .malformed cause position =>
    let before := text.take position
    let line := before.count '\n' + 1
    let column := (before.reverse.takeWhile (· != '\n')).length + 1
    cause.message ++ ": line " ++ toString line ++ " column " ++ toString column ++
      " (char " ++ toString position ++ ")"
  | .tooManyDigits digits =>
    "Exceeds the limit (" ++ toString Number.digitLimit ++
      " digits) for integer string conversion: value has " ++ toString digits ++
      " digits; use sys.set_int_max_str_digits() to increase the limit"

/-- Where a reader stands: the characters to come and the position of the first of them. -/
structure Spot where
  rest : List Char
  position : Nat

namespace Spot

/-- The spot `n` characters further on. -/
def skip (s : Spot) (n : Nat) : Spot :=
  ⟨s.rest.drop n, s.position + n⟩

/-- The spot behind white space: space, tab, line feed and carriage return. -/
def skipSpace (s : Spot) : Spot :=
  s.skip (s.rest.takeWhile fun c => c == ' ' || c == '\t' || c == '\n' || c == '\r').length

/-- A fault at this spot. -/
def fault {α : Type} (s : Spot) (cause : Cause) : Except Fault α :=
  .error (.malformed cause s.position)

end Spot

/-- The value of four hexadecimal digits. -/
def fourHex? : List Char → Option Nat
  | [a, b, c, d] => do
    let digits ← [a, b, c, d].mapM Number.digitValue?
    return Number.ofDigits 16 digits
  | _ => none

/-- What a one-letter escape stands for. -/
def escaped? : Char → Option Char
  | '"' => some '"'
  | '\\' => some '\\'
  | '/' => some '/'
  | 'b' => some '\x08'
  | 'f' => some '\x0c'
  | 'n' => some '\n'
  | 'r' => some '\r'
  | 't' => some '\t'
  | _ => none

/-- The code escape whose `u` is at `cs`'s head has just been passed: its four digits, with at least
one character behind them. -/
def codeAt? (cs : List Char) : Option Nat :=
  if (cs.drop 4).isEmpty then none else fourHex? (cs.take 4)

/-- The second half that directly follows a first half, if a whole pair is written. -/
def lowHalfAt? (cs : List Char) : Option Nat :=
  match cs with
  | '\\' :: 'u' :: more => (codeAt? more).filter Text.isLowHalf
  | _ => none

/-- Reads a string from behind its opening quote at `start`. -/
def readString (start : Nat) (fuel : Nat) (s : Spot) : Except Fault (List Char × Spot) :=
  match fuel with
  | 0 => .error (.malformed .unterminatedString start)
  | fuel + 1 =>
    match s.rest with
    | [] => .error (.malformed .unterminatedString start)
    | '"' :: _ => .ok ([], s.skip 1)
    | '\\' :: more =>
      match more with
      | [] => .error (.malformed .unterminatedString start)
      | 'u' :: digits =>
        match codeAt? digits with
        | none => (s.skip 1).fault .badCodeEscape
        | some n =>
          let pair := if Text.isHighHalf n then lowHalfAt? (digits.drop 4) else none
          match pair with
          | some low => do
            let (cs, s') ← readString start fuel (s.skip 12)
            return (Char.ofNat (Text.joinHalves n low) :: cs, s')
          | none => do
            let (cs, s') ← readString start fuel (s.skip 6)
            return (Text.charOf n :: cs, s')
      | c :: _ =>
        match escaped? c with
        | none => s.fault .badEscape
        | some e => do
          let (cs, s') ← readString start fuel (s.skip 2)
          return (e :: cs, s')
    | c :: _ =>
      if c.toNat < 0x20 then s.fault .controlCharacter
      else do
        let (cs, s') ← readString start fuel (s.skip 1)
        return (c :: cs, s')

/-- How many characters of a number's fraction stand at the head: a point and digits, or none. -/
def fractionLength (cs : List Char) : Nat :=
  match cs with
  | '.' :: more =>
    let n := (more.takeWhile Char.isDigit).length
    if n = 0 then 0 else n + 1
  | _ => 0

/-- How many characters of a number's exponent stand at the head. -/
def exponentLength (cs : List Char) : Nat :=
  match cs with
  | e :: more =>
    if e == 'e' || e == 'E' then
      let signs := (more.take 1).countP fun c => c == '+' || c == '-'
      let n := ((more.drop signs).takeWhile Char.isDigit).length
      if n = 0 then 0 else 1 + signs + n
    else 0
  | [] => 0

/-- How many characters of a number's whole part stand at the head: a sign and either one zero or
digits that start with none. -/
def wholeLength? (cs : List Char) : Option Nat :=
  let signs := (cs.take 1).count '-'
  match cs.drop signs with
  | '0' :: _ => some (signs + 1)
  | c :: more => if c.isDigit then some (signs + 1 + (more.takeWhile Char.isDigit).length) else none
  | [] => none

/-- Reads a number, or finds that none stands here. -/
def readNumber (s : Spot) : Except Fault (Json × Spot) :=
  match wholeLength? s.rest with
  | none => s.fault .expectedValue
  | some w =>
    let f := fractionLength (s.rest.drop w)
    let e := exponentLength (s.rest.drop (w + f))
    let after := s.skip (w + f + e)
    if f = 0 && e = 0 then
      let (negative, digits) := Number.signed (s.rest.take w)
      if digits.length ≤ Number.digitLimit then
        let n : Int := Number.ofDigits 10 (digits.filterMap Number.digitValue?)
        .ok (.int (if negative then -n else n), after)
      else .error (.tooManyDigits digits.length)
    else
      match Number.decimal? (s.rest.take (w + f + e)) with
      | some x => .ok (.float x, after)
      | none => s.fault .expectedValue

/-- The words that stand for values. -/
def words : List (String × Json) :=
  [("null", null), ("true", bool true), ("false", bool false), ("NaN", float .nan),
    ("Infinity", float (.infinite false)), ("-Infinity", float (.infinite true))]

/-- Reads a word, or else a number. -/
def readScalar (s : Spot) : Except Fault (Json × Spot) :=
  match words.find? fun w => w.1.toList.isPrefixOf s.rest with
  | some (w, v) => .ok (v, s.skip w.length)
  | none => readNumber s

mutual

/-- Reads the value at a spot. -/
def readValue (fuel : Nat) (s : Spot) : Except Fault (Json × Spot) :=
  match fuel with
  | 0 => s.fault .expectedValue
  | fuel + 1 =>
    match s.rest with
    | '"' :: more => do
      let (cs, s') ← readString s.position (more.length + 1) (s.skip 1)
      return (string (String.ofList cs), s')
    | '{' :: _ =>
      let inside := (s.skip 1).skipSpace
      match inside.rest with
      | '}' :: _ => .ok (object [], inside.skip 1)
      | _ => do
        let (ms, s') ← readMembers fuel inside
        return (object (Assoc.ofPairs ms), s')
    | '[' :: _ =>
      let inside := (s.skip 1).skipSpace
      match inside.rest with
      | ']' :: _ => .ok (array [], inside.skip 1)
      | _ => do
        let (xs, s') ← readItems fuel inside
        return (array xs, s')
    | _ => readScalar s

/-- Reads the items of an array up to its end. -/
def readItems (fuel : Nat) (s : Spot) : Except Fault (List Json × Spot) :=
  match fuel with
  | 0 => s.fault .expectedValue
  | fuel + 1 => do
    let (v, s') ← readValue fuel s
    let after := s'.skipSpace
    match after.rest with
    | ']' :: _ => return ([v], after.skip 1)
    | ',' :: _ => do
      let (vs, last) ← readItems fuel (after.skip 1).skipSpace
      return (v :: vs, last)
    | _ => after.fault .expectedComma

/-- Reads the members of an object up to its end. -/
def readMembers (fuel : Nat) (s : Spot) : Except Fault (List (String × Json) × Spot) :=
  match fuel with
  | 0 => s.fault .expectedKey
  | fuel + 1 =>
    match s.rest with
    | '"' :: more => do
      let (key, afterKey) ← readString s.position (more.length + 1) (s.skip 1)
      let colon := afterKey.skipSpace
      match colon.rest with
      | ':' :: _ => do
        let (v, s') ← readValue fuel (colon.skip 1).skipSpace
        let after := s'.skipSpace
        match after.rest with
        | '}' :: _ => return ([(String.ofList key, v)], after.skip 1)
        | ',' :: _ => do
          let (ms, last) ← readMembers fuel (after.skip 1).skipSpace
          return ((String.ofList key, v) :: ms, last)
        | _ => after.fault .expectedComma
      | _ => colon.fault .expectedColon
    | _ => s.fault .expectedKey

end

/-- Reads a whole text as one value. -/
def parse (text : String) : Except Fault Json :=
  let cs := text.toList
  match cs with
  | '\ufeff' :: _ => .error (.malformed .byteOrderMark 0)
  | _ => do
    let (v, s) ← readValue (cs.length + 1) (Spot.mk cs 0).skipSpace
    let last := s.skipSpace
    if last.rest.isEmpty then return v else last.fault .extraData

end Rigging.Json
