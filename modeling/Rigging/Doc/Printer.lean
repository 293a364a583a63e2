import Rigging.Doc.Basic
import Rigging.Doc.Union
import Rigging.Text.Blank

/-!
# Writing doc comments

A doc comment is written as stanzas with an empty line between them: the description, the
parameters, the other tags and the result.  One without stanzas is not written at all.
-/

namespace Rigging.Doc

open Rigging.Text

/-- Types in braces with a blank in front, or nothing. -/
def writtenTypes (types : List String) : String :=
  if types.isEmpty then "" else " \x7b" ++ Union.join types ++ "\x7d"

/-- A text behind a mark, or nothing when there is no text. -/
def writtenAfter (mark : String) : Option String → String
  | some s => if s = "" then "" else mark ++ s
  | none => ""

/-- A text without the blanks around it, behind a mark, or nothing when there is no text. -/
def trimmedAfter (mark : String) : Option String → String
  | some s => if s = "" then "" else mark ++ trim s
  | none => ""

/-- The stanza of a parameter. -/
def Param.stanza (p : Param) : String :=
  paramTag ++ writtenTypes p.types ++
    (if p.optional then " [" ++ p.name ++ "]" else " " ++ p.name) ++
    trimmedAfter " - " p.description

/-- The stanza of a tag. -/
def Tag.stanza (t : Tag) : String :=
  t.name ++ writtenAfter " " t.value

/-- The stanza of a result. -/
def Result.stanza (r : Result) : String :=
  resultTag ++ writtenTypes r.types ++ trimmedAfter " " r.description

/-- The stanzas in the order in which they are written. -/
def stanzas (doc : Doc) : List String :=
  (if trim doc.description = "" then [] else [trim doc.description]) ++
    doc.params.map Param.stanza ++ doc.tags.map Tag.stanza ++ (doc.result.map Result.stanza).toList

/-- The block comment of a doc comment, every line behind `indent`; empty when there is nothing to
say. -/
def write (indent : String) (doc : Doc) : String :=
  if doc.stanzas.isEmpty then ""
  else
    let lines := (doc.stanzas.map fun s => indent ++ " * " ++ s).intersperse (indent ++ " *")
    String.intercalate "\n" ((indent ++ "/**") :: lines ++ [indent ++ " */"])

/-- The block comment of a doc comment that may be missing. -/
def write? (indent : String) (doc : Option Doc) : String :=
  (doc.map (Doc.write indent)).getD ""

end Rigging.Doc
