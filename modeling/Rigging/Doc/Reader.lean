import Rigging.Doc.Basic
import Rigging.Doc.Union

/-!
# Reading doc comments

A block comment is a doc comment when its body starts with a second star.  The body is brought to
one line, line breaks with their leading star becoming one space, and is then divided at its tags: a
tag is an at sign and letters at the start of a word, followed by a blank or by nothing.  Parameters
and results are read further, all other tags are kept.  Of several results the first counts, and a
parameter that cannot be read is left out.
-/

namespace Rigging.Doc

open Rigging.Text

/-- The body of a block comment: the text without blanks around it and without its delimiters. -/
def body (comment : String) : String :=
  let cs := trimChars comment.toList
  let cs := if "/*".toList.isPrefixOf cs then cs.drop 2 else cs
  let cs := if "*/".toList.isSuffixOf cs then cs.take (cs.length - 2) else cs
  String.ofList cs

/-- How many characters at the head are line breaks with the star that continues the comment.
`inBreak` says that a line has ended and its star is still to come, `taken` counts characters, and
`accepted` those up to the last star and the blanks behind it. -/
def breakLength (inBreak : Bool) (taken accepted : Nat) : List Char → Nat
  | [] => accepted
  | c :: cs =>
    if isSpaceOrTab c then
      breakLength inBreak (taken + 1)
        (if accepted = 0 || inBreak then accepted else taken + 1) cs
    else if inBreak then
      if c = '*' then breakLength false (taken + 1) (taken + 1) cs else accepted
    else if c = '\r' || c = '\n' then breakLength true (taken + 1) accepted cs
    else accepted

/-- The text with its continued line breaks folded into single spaces; the next `skip` characters
belong to one that has been folded. -/
def foldBreaks (skip : Nat) : List Char → List Char
  | [] => []
  | c :: cs =>
    match skip with
    | n + 1 => foldBreaks n cs
    | 0 =>
      match breakLength false 0 0 (c :: cs) with
      | 0 => c :: foldBreaks 0 cs
      | n + 1 => ' ' :: foldBreaks n cs

/-- A letter of a tag. -/
def isTagLetter (c : Char) : Bool :=
  ('a' ≤ c && c ≤ 'z') || ('A' ≤ c && c ≤ 'Z')

/-- Divides a text at its tags: the text before the first tag, and each tag with the text up to the
next.  `wordStart` says that a word may start here. -/
def divide (wordStart : Bool) : List Char → List Char × List (List Char × List Char)
  | [] => ([], [])
  | c :: cs =>
    let (text, tagged) := divide (isBlank c) cs
    let (letters, following) := text.span isTagLetter
    if c = '@' && wordStart && !letters.isEmpty then ([], (c :: letters, following) :: tagged)
    else (c :: text, tagged)

/-- A first character of a name. -/
def isNameStart (c : Char) : Bool :=
  isTagLetter c || c == '_' || c == '$'

/-- A character of a name. -/
def isNamePart (c : Char) : Bool :=
  isNameStart c || c.isDigit

/-- A name at the head, and the rest. -/
def name? : List Char → Option (List Char × List Char)
  | [] => none
  | c :: cs => if isNameStart c then
      let (more, rest) := cs.span isNamePart
      some (c :: more, rest)
    else none

/-- A group in braces without braces inside at the head, and the rest. -/
def braced? : List Char → Option (List Char × List Char)
  | '{' :: cs =>
    match cs.span fun c => c != '{' && c != '}' with
    | (inner, '}' :: rest) => some (inner, rest)
    | _ => none
  | _ => none

/-- The types at the head, none when no group in braces stands there, and the rest. -/
def leadingTypes (cs : List Char) : List String × List Char :=
  match braced? cs with
  | some (inner, rest) => ((Union.members inner).map String.ofList, rest)
  | none => ([], cs)

/-- The text without blanks, a dash and blanks at its start. -/
def dropDash (cs : List Char) : List Char :=
  match dropBlanks cs with
  | '-' :: rest => dropBlanks rest
  | rest => rest

/-- Whether a bracketed name closes here, with or without a default in front of the bracket; then
the rest. -/
def closing? : List Char → Option (List Char)
  | ']' :: rest => some rest
  | '=' :: cs =>
    match cs.dropWhile (· != ']') with
    | ']' :: rest => some rest
    | _ => none
  | _ => none

/-- A parameter's name at the head: the name, whether it is optional, and the rest.  An optional
name has an opening bracket; one that is never closed is allowed, and so is a closing bracket
without an opening one, which stays in the name. -/
def paramName? : List Char → Option (List Char × Bool × List Char)
  | '[' :: cs => do
    let (name, rest) ← name? cs
    return (name, true, (closing? rest).getD rest)
  | cs => do
    let (name, rest) ← name? cs
    match rest with
    | ']' :: rest => return (name ++ [']'], false, rest)
    | _ => return (name, false, rest)

/-- Reads the value of a parameter's tag. -/
def Param.read? (value : List Char) : Option Param := do
  let (types, rest) := leadingTypes value
  let (name, optional, rest) ← paramName? (dropBlanks rest)
  return ⟨String.ofList name, types, trimmed? (dropDash rest), optional⟩

/-- Reads the value of a result's tag. -/
def Result.read (value : List Char) : Result :=
  let (types, rest) := leadingTypes value
  ⟨types, trimmed? (dropDash rest)⟩

/-- Adds a tag with the text that follows it. -/
def addTag (doc : Doc) (name : String) (following : List Char) : Doc :=
  if name = paramTag then
    match Param.read? (trimChars following) with
    | some p => { doc with params := doc.params ++ [p] }
    | none => doc
  else if name = resultTag || name = resultAlias then
    match doc.result with
    | some _ => doc
    | none => { doc with result := some (Result.read (trimChars following)) }
  else
    { doc with tags := doc.tags ++ [⟨name, trimmed? following⟩] }

/-- Whether the text behind a tag runs straight into it. -/
def isGlued : List Char → Bool
  | [] => false
  | c :: _ => !isBlank c

/-- Reads the body of a block comment; nothing when it is no doc comment or a tag runs straight
into text. -/
def read? (text : String) : Option Doc :=
  match text.toList with
  | '*' :: cs =>
    let (first, tagged) := divide true (trimChars (foldBreaks 0 cs))
    if tagged.any fun t => isGlued t.2 then none
    else
      let start : Doc := ⟨String.ofList (trimChars first), [], [], none⟩
      some (tagged.foldl (fun doc t => doc.addTag (String.ofList t.1) t.2) start)
  | _ => none

/-- Reads a block comment. -/
def ofComment? (comment : String) : Option Doc :=
  read? (body comment)

end Rigging.Doc
