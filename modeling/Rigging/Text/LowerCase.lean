import Rigging.Text.CaseTable

/-!
# Lower case

The full lower-case form of a text.  Every character has its one-character form from the case
table, with two exceptions: the capital `I` with a dot above becomes two characters, and a capital
sigma becomes the final sigma at the end of a word.  "At the end of a word" is decided by the
nearest neighbours that are not passed over: one with a case before, none with a case after.
-/

namespace Rigging.Text

/-- Whether a code point lies in one of the ranges. -/
def inRanges (ranges : List (Nat × Nat)) (n : Nat) : Bool :=
  ranges.any fun r => r.1 ≤ n && n ≤ r.2

/-- Whether a code point belongs to a run `(first, last, step, lower)`. -/
def inRun (n : Nat) (r : Nat × Nat × Nat × Nat) : Bool :=
  r.1 ≤ n && n ≤ r.2.1 && (n - r.1) % r.2.2.1 == 0

/-- The lower-case form of one character, apart from the two exceptions. -/
def lowerChar (c : Char) : Char :=
  let n := c.toNat
  match lowerRuns.find? (inRun n) with
  | some r => Char.ofNat (r.2.2.2 + (n - r.1))
  | none => c

/-- Whether the nearest character of `cs` that is not passed over has a case. -/
def nextIsCased (cs : List Char) : Bool :=
  match cs.dropWhile fun c => inRanges caseIgnorable c.toNat with
  | c :: _ => inRanges cased c.toNat
  | [] => false

/-- Lower case of `cs`, where `before` is the text in front of it in reverse order. -/
def lowerFrom (before : List Char) : List Char → List Char
  | [] => []
  | c :: cs =>
    let rest := lowerFrom (c :: before) cs
    if c = 'Σ' then
      (if nextIsCased before && !nextIsCased cs then 'ς' else 'σ') :: rest
    else if c = 'İ' then
      'i' :: Char.ofNat 0x307 :: rest
    else
      lowerChar c :: rest

/-- The lower-case form of a text. -/
def lower (s : String) : String :=
  String.ofList (lowerFrom [] s.toList)

end Rigging.Text
