import Rigging.Text.Blank

/-!
# Unions of types

A union is written with bars between its members.  A bar inside angle brackets belongs to a
member, a closing bracket that closes nothing is passed over, and members that are blank are no
members.
-/

namespace Rigging.Union

/-- The depth of angle brackets behind a character. -/
def depthAfter (depth : Nat) (c : Char) : Nat :=
  if c = '<' then depth + 1 else if c = '>' then depth - 1 else depth

/-- The pieces between the bars at depth zero: the first one and the others. -/
def pieces (depth : Nat) : List Char → List Char × List (List Char)
  | [] => ([], [])
  | c :: cs =>
    if c = '|' && depth = 0 then
      let (first, others) := pieces depth cs
      ([], first :: others)
    else
      let (first, others) := pieces (depthAfter depth c) cs
      (c :: first, others)

/-- The members of a union, as characters. -/
def members (cs : List Char) : List (List Char) :=
  let (first, others) := pieces 0 cs
  ((first :: others).map Text.trimChars).filter fun m => !m.isEmpty

/-- The members of a union. -/
def split (text : String) : List String :=
  (members text.toList).map String.ofList

/-- The union of members. -/
def join (types : List String) : String :=
  String.intercalate "|" types

end Rigging.Union
