import Rigging.Text.CharTable
import Rigging.Text.LowerCase

/-!
# Quoted text

How a text is quoted inside a message: between single quotes, or double quotes when it holds a
single quote and no double quote.  The quote and the backslash are escaped, the three common
controls have short escapes, and every other unprintable character is written in hexadecimal with
the least of two, four or eight digits that holds it.
-/

namespace Rigging.Text

/-- `n` in lower-case hexadecimal, at least `width` digits wide. -/
def hexWidth (width n : Nat) : List Char :=
  let digits := Nat.toDigits 16 n
  List.replicate (width - digits.length) '0' ++ digits

/-- One character of a text quoted with `quote`. -/
def quotedChar (quote c : Char) : List Char :=
  if c = quote || c = '\\' then ['\\', c]
  else if c = '\t' then ['\\', 't']
  else if c = '\n' then ['\\', 'n']
  else if c = '\r' then ['\\', 'r']
  else
    let n := c.toNat
    if inRanges unprintable n then
      if n < 0x100 then '\\' :: 'x' :: hexWidth 2 n
      else if n < 0x10000 then '\\' :: 'u' :: hexWidth 4 n
      else '\\' :: 'U' :: hexWidth 8 n
    else [c]

/-- The quote put around a text. -/
def quoteOf (cs : List Char) : Char :=
  if cs.contains '\'' && !cs.contains '"' then '"' else '\''

/-- The quoted form of a text. -/
def quoted (s : String) : String :=
  let cs := s.toList
  let quote := quoteOf cs
  String.ofList (quote :: cs.flatMap (quotedChar quote) ++ [quote])

end Rigging.Text
