import Rigging.Script.Lexeme

/-!
# Semicolons that are not written

A statement may end without a semicolon at the end of the text, in front of a closing brace, or at
a line end.  At a line end the next lexeme decides: a statement goes on when that lexeme can
continue an expression.
-/

namespace Rigging.Script

/-- White space as the search for line ends knows it: without the characters that forbid a break
and those without width. -/
def isBreakingSpace (c : Char) : Bool :=
  isSpace c && !(c.toNat == 0xA0 || c.toNat == 0x2007 || c.toNat == 0x202F || c.toNat == 0x200B ||
    c.toNat == 0x2060 || c.toNat == 0xFEFF)

/-- How a search through white space and comments ended: at a slash that starts no comment, at
something else, or behind a block comment on its line. -/
inductive Passage where
  | slash
  | reached
  | sameLine
deriving DecidableEq, Repr

/-- A block comment's rest behind its end, with whether a line ended inside. -/
def pastBlock (newline : Bool) : List Char → Bool × List Char
  | [] => (newline, [])
  | '*' :: '/' :: cs => (newline, cs)
  | c :: cs => pastBlock (newline || isLineEnd c) cs

/-- Passes white space and comments.  With `through` it passes all of them, without it stops behind
the first block comment. -/
def passComments (through newline : Bool) (fuel : Nat) (cs : List Char) : Passage × List Char :=
  match fuel with
  | 0 => (.reached, cs)
  | fuel + 1 =>
    match cs.dropWhile isBreakingSpace with
    | '/' :: '/' :: more => passComments through newline fuel (more.dropWhile fun c => !isLineEnd c)
    | '/' :: '*' :: more =>
      let (ended, rest) := pastBlock newline more
      if through || rest.head? = some '/' then passComments through ended fuel rest
      else (if ended then .reached else .sameLine, rest)
    | '/' :: more => (.slash, more)
    | rest => (.reached, rest)

/-- A letter for the word that follows a line end. -/
def isLetter (c : Char) : Bool :=
  c.isAlpha || (0x80 ≤ c.toNat && !isSpace c)

/-- Whether the lexeme behind a line end lets the statement end there. -/
def endsBefore (cs : List Char) : Bool :=
  match cs with
  | [] => true
  | '.' :: more => (more.take 1).any Char.isDigit
  | '+' :: more => more.head? = some '+'
  | '-' :: more => more.head? = some '-'
  | '!' :: more => more.head? ≠ some '='
  | 'i' :: 'n' :: more =>
    if !(more.take 1).any isLetter then false
    else if "stanceof".toList.isPrefixOf more then ((more.drop 8).take 1).any isLetter
    else true
  | c :: _ => !"`,:;*%><=[(?^|&/".toList.contains c

/-- The step behind a comment: a brace or a line end decides, other white space is passed and `next`
decides behind it. -/
def afterSpace (next : List Char → Bool) (cs : List Char) : Bool :=
  match cs with
  | [] => true
  | '}' :: _ => true
  | c :: more =>
    if isLineEnd c then
      match passComments true false (more.length + 1) more with
      | (.slash, _) => false
      | (_, rest) => endsBefore rest
    else if isBreakingSpace c then next more
    else false

/-- Whether a statement can end at the head of the text, before its first comment is passed.
`loose` says that no operator can follow, so that a line end inside a comment counts. -/
def endsAt (loose : Bool) (fuel : Nat) (cs : List Char) : Bool :=
  match fuel with
  | 0 => false
  | fuel + 1 =>
    match cs with
    | [] => true
    | '/' :: _ =>
      match passComments false false (cs.length + 1) cs with
      | (.slash, _) => false
      | (passage, rest) =>
        if passage = .reached && loose && rest.head? ≠ some ',' && rest.head? ≠ some '=' then true
        else afterSpace (fun more => endsAt loose fuel more) rest
    | _ => afterSpace (fun more => endsAt loose fuel more) cs

/-- Whether a statement can end here without a semicolon, also behind comments. -/
def canEnd (loose : Bool) (fuel : Nat) (cs : List Char) : Bool :=
  match fuel with
  | 0 => false
  | fuel + 1 =>
    if endsAt loose (cs.length + 1) cs then true
    else
      let rest := cs.dropWhile isSpace
      match commentLength rest with
      | 0 => false
      | n + 1 => canEnd loose fuel (rest.drop (n + 1))

end Rigging.Script
