import Rigging.Json.Basic
import Rigging.Number.Shortest
import Rigging.Text.Quoted
import Rigging.Text.Surrogate

/-!
# Writing JSON

`Style` holds the decisions of a written form: whether other than ASCII characters are escaped,
what stands between items, and by how much a level is indented.  `display` is the form that values
take inside a message, where texts are quoted with single quotes and null is `None`.
-/

namespace Rigging.Json

/-- Numbers are positional from `1e-4` up to `1e16`, whole ones keep `.0`, and an exponent has a
sign and two digits. -/
def numberLayout : Number.Layout where
  lowest := -4
  highest := 15
  wholeTail := ".0"
  mark := "e"
  exponentWidth := 2
  infinity := "inf"
  notANumber := "nan"

/-- The decisions of a written form. -/
structure Style where
  /-- Whether characters outside ASCII are written as escapes. -/
  ascii : Bool
  /-- What a level is indented by; without it everything stands on one line. -/
  indent : Option Nat
  /-- What stands between key and value. -/
  colon : String
  /-- What stands between items on one line. -/
  comma : String

/-- One line, nothing but ASCII. -/
def Style.line : Style := ⟨true, none, ": ", ", "⟩

/-- Two spaces a level, nothing but ASCII. -/
def Style.config : Style := ⟨true, some 2, ": ", ","⟩

/-- Two spaces a level, characters as they are. -/
def Style.report : Style := ⟨false, some 2, ": ", ","⟩

/-- A code unit as an escape. -/
def codeEscape (n : Nat) : List Char :=
  '\\' :: 'u' :: Text.hexWidth 4 n

/-- One character of a string. -/
def writtenChar (ascii : Bool) (c : Char) : List Char :=
  if c = '"' then ['\\', '"']
  else if c = '\\' then ['\\', '\\']
  else if c = '\n' then ['\\', 'n']
  else if c = '\r' then ['\\', 'r']
  else if c = '\t' then ['\\', 't']
  else if c = '\x08' then ['\\', 'b']
  else if c = '\x0c' then ['\\', 'f']
  else
    let n := c.toNat
    if n < 0x20 then codeEscape n
    else
      match Text.half? c with
      | some h => codeEscape h
      | none =>
        if ascii && 0x7F ≤ n then
          if n = 0x7F then [c]
          else if n < 0x10000 then codeEscape n
          else codeEscape (0xD800 + (n - 0x10000) / 0x400) ++ codeEscape (0xDC00 + (n - 0x10000) % 0x400)
        else [c]

/-- A string in its quotes. -/
def writtenString (ascii : Bool) (s : String) : String :=
  String.ofList ('"' :: s.toList.flatMap (writtenChar ascii) ++ ['"'])

/-- Items between brackets, on lines of their own when the style is indented. -/
def Style.enclose (style : Style) (depth : Nat) (opening closing : String) (items : List String) :
    String :=
  if items.isEmpty then opening ++ closing
  else
    match style.indent with
    | none => opening ++ String.intercalate style.comma items ++ closing
    | some n =>
      let inner := "\n" ++ String.ofList (List.replicate (n * (depth + 1)) ' ')
      let outer := "\n" ++ String.ofList (List.replicate (n * depth) ' ')
      opening ++ inner ++ String.intercalate (style.comma ++ inner) items ++ outer ++ closing

mutual

/-- The written form of a value at a depth. -/
def writeAt (style : Style) (depth : Nat) : Json → String
  | null => "null"
  | bool true => "true"
  | bool false => "false"
  | int n => toString n
  | float x => numberLayout.render x
  | string s => writtenString style.ascii s
  | array xs => style.enclose depth "[" "]" (writeItems style (depth + 1) xs)
  | object ms => style.enclose depth "\x7b" "\x7d" (writeMembers style (depth + 1) ms)

/-- The written forms of the items of an array. -/
def writeItems (style : Style) (depth : Nat) : List Json → List String
  | [] => []
  | v :: vs => writeAt style depth v :: writeItems style depth vs

/-- The written forms of the members of an object. -/
def writeMembers (style : Style) (depth : Nat) : List (String × Json) → List String
  | [] => []
  | (k, v) :: ms =>
    (writtenString style.ascii k ++ style.colon ++ writeAt style depth v) ::
      writeMembers style depth ms

end

/-- The written form of a value. -/
def write (style : Style) (v : Json) : String :=
  writeAt style 0 v

mutual

/-- A value inside another one in a message. -/
def displayInner : Json → String
  | null => "None"
  | bool true => "True"
  | bool false => "False"
  | int n => toString n
  | float x => numberLayout.render x
  | string s => Text.quoted s
  | array xs => "[" ++ String.intercalate ", " (displayItems xs) ++ "]"
  | object ms => "\x7b" ++ String.intercalate ", " (displayMembers ms) ++ "\x7d"

/-- The items of an array in a message. -/
def displayItems : List Json → List String
  | [] => []
  | v :: vs => displayInner v :: displayItems vs

/-- The members of an object in a message. -/
def displayMembers : List (String × Json) → List String
  | [] => []
  | (k, v) :: ms => (Text.quoted k ++ ": " ++ displayInner v) :: displayMembers ms

end

/-- A value as a message shows it: a text as it is, anything else as inside another value. -/
def display : Json → String
  | string s => s
  | v => displayInner v

end Rigging.Json
