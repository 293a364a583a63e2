import Rigging.Number.Numeral
import Rigging.Script.Tree

/-!
# Lexemes of a script

How far white space, comments, words, numbers and punctuation reach at the head of a text.  Every
function looks at the head of a list of characters and answers with the number of characters that
belong to the lexeme.
-/

namespace Rigging.Script

/-- The characters that end a line. -/
def isLineEnd (c : Char) : Bool :=
  c == '\n' || c == '\u2028' || c == '\u2029'

/-- A space separator of Unicode. -/
def isSpaceSeparator (c : Char) : Bool :=
  let n := c.toNat
  n == 0x20 || n == 0xA0 || n == 0x1680 || (0x2000 ≤ n && n ≤ 0x200A) || n == 0x202F ||
    n == 0x205F || n == 0x3000

/-- White space between lexemes: controls from tab to carriage return, the space separators, the
line and paragraph separators, and three characters without width. -/
def isSpace (c : Char) : Bool :=
  let n := c.toNat
  (0x9 ≤ n && n ≤ 0xD) || isSpaceSeparator c || n == 0x2028 || n == 0x2029 || n == 0x200B ||
    n == 0x2060 || n == 0xFEFF

/-- The ASCII characters that belong to no word. -/
def isMark (c : Char) : Bool :=
  ":;`\"'@#.,|^&<=>+-*/\\%?!~()[]\x7b\x7d".toList.contains c

/-- A character that may start a word. -/
def isWordStart (c : Char) : Bool :=
  0x20 ≤ c.toNat && !isSpace c && !c.isDigit && !isMark c

/-- A hexadecimal digit. -/
def isHex (c : Char) : Bool :=
  (Number.digitValue? c).isSome

/-- The length of a code escape behind its backslash: four digits behind a `u`, or digits in
braces. -/
def codeEscapeLength (cs : List Char) : Nat :=
  match cs with
  | 'u' :: '{' :: more =>
    let digits := (more.takeWhile isHex).length
    match more.drop digits with
    | '}' :: _ => if digits = 0 then 0 else digits + 3
    | _ => 0
  | 'u' :: more => if 4 ≤ ((more.take 4).takeWhile isHex).length then 5 else 0
  | _ => 0

/-- The length of the first character of a word, which may be written as a code escape. -/
def wordStartLength (cs : List Char) : Nat :=
  match cs with
  | '\\' :: more =>
    let n := codeEscapeLength more
    if n = 0 then 0 else n + 1
  | c :: _ => if isWordStart c then 1 else 0
  | [] => 0

/-- The length of what continues a word; `skip` characters belong to an escape. -/
def wordTailLength (skip : Nat) : List Char → Nat
  | [] => 0
  | c :: cs =>
    match skip with
    | n + 1 => wordTailLength n cs + 1
    | 0 =>
      if c = '\\' then
        let n := codeEscapeLength cs
        if n = 0 then 0 else wordTailLength n cs + 1
      else if isWordStart c || c.isDigit then wordTailLength 0 cs + 1
      else 0

/-- The length of a word. -/
def wordLength (cs : List Char) : Nat :=
  let n := wordStartLength cs
  if n = 0 then 0 else n + wordTailLength 0 (cs.drop n)

/-- The words that are never names. -/
def reserved : List String :=
  ["break", "case", "catch", "class", "const", "continue", "debugger", "default", "delete", "do",
    "else", "export", "extends", "false", "finally", "for", "function", "if", "import", "in",
    "instanceof", "new", "null", "return", "super", "switch", "this", "throw", "true", "try",
    "typeof", "var", "void", "while", "with"]

/-- The length of a block comment's rest up to and with its end, if it has one. -/
def blockRestLength? : List Char → Option Nat
  | [] => none
  | '*' :: '/' :: _ => some 2
  | _ :: cs => (blockRestLength? cs).map (· + 1)

/-- The length of a comment. -/
def commentLength (cs : List Char) : Nat :=
  match cs with
  | '/' :: '/' :: more => 2 + (more.takeWhile fun c => !(isLineEnd c || c == '\r')).length
  | '/' :: '*' :: more => ((blockRestLength? more).map (· + 2)).getD 0
  | _ => 0

/-- The length of a comment in the style of a markup language, which reaches to the end of its
line. -/
def htmlCommentLength (cs : List Char) : Nat :=
  if "<!--".toList.isPrefixOf cs || "-->".toList.isPrefixOf cs then
    (cs.takeWhile fun c => !isLineEnd c).length
  else 0

/-- What stands between lexemes. -/
inductive Gap where
  | comment (text : String)
  | htmlComment

/-- White space and comments at the head: what they are and how long.  Comments in the style of a
markup language count when `html` is set. -/
def gaps (html : Bool) (fuel : Nat) (cs : List Char) : List Gap × Nat :=
  match fuel with
  | 0 => ([], 0)
  | fuel + 1 =>
    let blank := (cs.takeWhile isSpace).length
    let rest := cs.drop blank
    match commentLength rest with
    | n + 1 =>
      let (more, length) := gaps html fuel (rest.drop (n + 1))
      (.comment (String.ofList (rest.take (n + 1))) :: more, blank + (n + 1) + length)
    | 0 =>
      match if html then htmlCommentLength rest else 0 with
      | n + 1 =>
        let (more, length) := gaps html fuel (rest.drop (n + 1))
        (.htmlComment :: more, blank + (n + 1) + length)
      | 0 => ([], blank)

/-- The length of digits that single underscores may divide; `afterDigit` says that a digit stands
in front. -/
def runLength (isDigit : Char → Bool) (afterDigit : Bool) : List Char → Nat
  | [] => 0
  | '_' :: c :: cs => if afterDigit && isDigit c then runLength isDigit true cs + 2 else 0
  | c :: cs => if isDigit c then runLength isDigit true cs + 1 else 0

/-- The length of an exponent. -/
def exponentLength (cs : List Char) : Nat :=
  match cs with
  | e :: more =>
    if e == 'e' || e == 'E' then
      let sign := (more.take 1).countP fun c => c == '+' || c == '-'
      let digits := runLength Char.isDigit false (more.drop sign)
      if digits = 0 then 0 else 1 + sign + digits
    else 0
  | [] => 0

/-- The length of a number with a base, or zero. -/
def basedLength (cs : List Char) : Nat :=
  match cs with
  | '0' :: b :: more =>
    let digits :=
      if b == 'x' || b == 'X' then runLength isHex false more
      else if b == 'o' || b == 'O' then runLength (fun c => '0' ≤ c && c ≤ '7') false more
      else if b == 'b' || b == 'B' then runLength (fun c => c == '0' || c == '1') false more
      else 0
    if digits = 0 then 0 else digits + 2
  | _ => 0

/-- One more when the big number's suffix follows. -/
def withSuffix (cs : List Char) (n : Nat) : Nat :=
  match cs.drop n with
  | 'n' :: _ => if n = 0 then 0 else n + 1
  | _ => n

/-- The length of the whole part of a number with a fraction or an exponent: zero alone, or digits
with at most one zero in front. -/
def plainLength (cs : List Char) : Nat :=
  match cs with
  | '0' :: c :: _ => if '1' ≤ c && c ≤ '9' then runLength Char.isDigit false cs else 1
  | '0' :: [] => 1
  | _ => runLength Char.isDigit false cs

/-- The length of a number with a fraction or an exponent, or zero. -/
def fractionalLength (cs : List Char) : Nat :=
  let whole := plainLength cs
  match cs.drop whole with
  | '.' :: more =>
    let digits := runLength Char.isDigit false more
    if whole = 0 && digits = 0 then 0
    else whole + 1 + digits + exponentLength (more.drop digits)
  | rest =>
    let e := exponentLength rest
    if whole = 0 || e = 0 then 0 else whole + e

/-- The length of a number: the longest of its spellings. -/
def numberLength (cs : List Char) : Nat :=
  max (withSuffix cs (basedLength cs))
    (max (withSuffix cs (runLength Char.isDigit false cs)) (fractionalLength cs))

/-- Punctuation, longer spellings first. -/
def punctuators : List (List Char) :=
  [">>>=", "...", "===", "!==", "**=", "<<=", ">>=", ">>>", "&&=", "||=", "??=",
    "=>", "==", "!=", "<=", ">=", "&&", "||", "??", "?.", "++", "--", "+=", "-=", "*=", "/=", "%=",
    "&=", "|=", "^=", "<<", ">>", "**",
    "\x7b", "\x7d", "(", ")", "[", "]", ";", ",", ":", ".", "?", "=", "!", "+", "-", "*", "/", "%",
    "<", ">", "&", "|", "^", "~", "@"].map String.toList

/-- The longest punctuation at the head.  A question mark and a point in front of a digit are two
lexemes. -/
def punctuatorAt (cs : List Char) : List Char :=
  match cs with
  | '?' :: '.' :: d :: _ => if d.isDigit then ['?'] else ['?', '.']
  | _ => (punctuators.find? fun p => p.isPrefixOf cs).getD []

/-- The length of the escape behind a backslash in a string: a code, up to three octal digits, a
line end, which may be two characters, or one other character. -/
def escapeLength (cs : List Char) : Nat :=
  match cs with
  | [] => 0
  | 'x' :: more => if 2 ≤ ((more.take 2).takeWhile isHex).length then 3 else 0
  | 'u' :: _ => codeEscapeLength cs
  | c :: more =>
    let octal := ((cs.take 3).takeWhile fun d => '0' ≤ d && d ≤ '7').length
    if octal ≠ 0 then octal
    else if (c == '\r' || c == '?') && (more.take 1).any isLineEnd then 2
    else 1

/-- The pieces of a string up to its closing quote, and the length with the quote.  A line end is
passed over when nothing but white space follows it up to the quote. -/
def stringPieces (quote : Char) (fuel : Nat) (cs : List Char) : Option (List Piece × Nat) :=
  match fuel with
  | 0 => none
  | fuel + 1 =>
    match cs with
    | [] => none
    | '\\' :: more =>
      let n := escapeLength more
      if n = 0 then none
      else do
        let (pieces, length) ← stringPieces quote fuel (more.drop n)
        return (.escape (String.ofList (more.take n)) :: pieces, length + n + 1)
    | c :: _ =>
      let text := cs.takeWhile fun d => d != quote && d != '\\' && d != '\r' && d != '\n'
      if c = quote then some ([], 1)
      else if text.isEmpty then
        let blank := (cs.takeWhile isSpace).length
        if (cs.drop blank).head? = some quote then some ([], blank + 1) else none
      else do
        let (pieces, length) ← stringPieces quote fuel (cs.drop text.length)
        return (.text (String.ofList text) :: pieces, length + text.length)

/-- The length of the text of a template up to the next escape, substitution or end. -/
def templateTextLength : List Char → Nat
  | [] => 0
  | '`' :: _ => 0
  | '\\' :: _ => 0
  | '$' :: '{' :: _ => 0
  | _ :: cs => templateTextLength cs + 1

/-- The length of a class of a regular expression behind its bracket, with the closing one. -/
def classLength? (escaped : Bool) : List Char → Option Nat
  | [] => none
  | c :: cs =>
    if c = '\n' then none
    else if escaped then (classLength? false cs).map (· + 1)
    else if c = ']' then some 1
    else (classLength? (c == '\\') cs).map (· + 1)

/-- The length of a regular expression's pattern with the slash that ends it. -/
def patternLength? (fuel : Nat) (cs : List Char) : Option Nat :=
  match fuel with
  | 0 => none
  | fuel + 1 =>
    match cs with
    | [] => none
    | '/' :: _ => some 1
    | '\n' :: _ => none
    | '\\' :: c :: more => if c = '\n' then none else (patternLength? fuel more).map (· + 2)
    | '\\' :: [] => none
    | '[' :: more => do
      let n ← classLength? false more
      let rest ← patternLength? fuel (more.drop n)
      return rest + n + 1
    | _ :: more => (patternLength? fuel more).map (· + 1)

/-- The length of a regular expression, or zero. -/
def regexLength (cs : List Char) : Nat :=
  match cs with
  | '/' :: more =>
    match patternLength? (more.length + 1) more with
    | some n =>
      if n ≤ 1 then 0
      else 1 + n + ((more.drop n).takeWhile fun c => 'a' ≤ c && c ≤ 'z').length
    | none => 0
  | _ => 0

end Rigging.Script
