import Rigging.Script.Semicolon

/-!
# Reading with a cursor

A reader takes a cursor and answers with a result, or none, and the cursor behind it.  The cursor
remembers the furthest lexeme that any reader refused: when a text cannot be read, that lexeme is
the one that does not belong there.  An alternative starts again where the first one started but
keeps what it learned about refused lexemes.
-/

namespace Rigging.Script

/-- Where reading stands: the characters to come, how many have been read, how many the text has in
all, and where the furthest refused lexeme starts. -/
structure Cursor where
  rest : List Char
  position : Nat
  size : Nat
  reach : Nat

namespace Cursor

/-- The cursor at the start of a text. -/
def start (cs : List Char) : Cursor := ⟨cs, 0, cs.length, 0⟩

/-- A bound for steps over the characters to come. -/
def bound (c : Cursor) : Nat :=
  c.size - c.position + 1

/-- The cursor `n` characters further on. -/
def skip (c : Cursor) (n : Nat) : Cursor :=
  { c with rest := c.rest.drop n, position := c.position + n }

/-- The white space and comments in front of the next lexeme, and the cursor behind them. -/
def passGaps (html : Bool) (c : Cursor) : List Gap × Cursor :=
  let (found, length) := gaps html c.bound c.rest
  (found, c.skip length)

/-- The cursor at the next lexeme. -/
def toLexeme (c : Cursor) : Cursor :=
  (c.passGaps false).2

/-- The cursor with a lexeme refused at a position. -/
def refuseAt (c : Cursor) (position : Nat) : Cursor :=
  { c with reach := max c.reach position }

end Cursor

/-- A reader of some part of a script. -/
def Reader (α : Type) := Cursor → Option α × Cursor

namespace Reader

variable {α β : Type}

instance : Monad Reader where
  pure a := fun c => (some a, c)
  bind p f := fun c =>
    match p c with
    | (some a, c') => f a c'
    | (none, c') => (none, c')

/-- Reads nothing, and refuses the next lexeme. -/
def refuse : Reader α := fun c =>
  (none, c.refuseAt c.toLexeme.position)

instance : Inhabited (Reader α) := ⟨refuse⟩

/-- Reads by the first reader, or where that fails by the second one from the same start. -/
def orElse (p q : Reader α) : Reader α := fun c =>
  match p c with
  | (some a, c') => (some a, c')
  | (none, c') => q { c with reach := c'.reach }

instance : OrElse (Reader α) := ⟨fun p q => orElse p (q ())⟩

/-- The first of several readers that succeeds. -/
def choice : List (Reader α) → Reader α
  | [] => refuse
  | p :: ps => orElse p (choice ps)

/-- Reads by `p` if it can. -/
def optional (p : Reader α) : Reader (Option α) :=
  orElse (do return some (← p)) (pure none)

/-- Whether `p` could read here; what it read is read. -/
def taken (p : Reader Unit) : Reader Bool :=
  orElse (do p; return true) (pure false)

/-- Reads by `p` while it can and moves on, at most `n` times. -/
def manyUpTo (p : Reader α) : Nat → Reader (List α)
  | 0 => pure []
  | n + 1 => fun c =>
    match p c with
    | (none, c') => (some [], { c with reach := c'.reach })
    | (some a, c') =>
      if c'.position ≤ c.position then (some [a], c')
      else
        match manyUpTo p n c' with
        | (some as, last) => (some (a :: as), last)
        | (none, last) => (none, last)

/-- Reads by `p` as often as it can. -/
def many (p : Reader α) : Reader (List α) := fun c =>
  manyUpTo p c.bound c

/-- The characters from the next lexeme on; nothing is read. -/
def peek : Reader (List Char) := fun c =>
  (some c.toLexeme.rest, c)

/-- The characters from here on; nothing is read. -/
def peekRaw : Reader (List Char) := fun c =>
  (some c.rest, c)

/-- Reads on only if a condition holds. -/
def ensure (b : Bool) : Reader Unit :=
  if b then pure () else refuse

/-- Passes white space and comments, those in the style of a markup language included. -/
def passGaps : Reader (List Gap) := fun c =>
  let (found, c') := c.passGaps true
  (some found, c')

/-- Passes white space and ordinary comments. -/
def passPlainGaps : Reader (List Gap) := fun c =>
  let (found, c') := c.passGaps false
  (some found, c')

/-- Reads the next lexeme when `length` finds one. -/
def lexeme (length : List Char → Nat) : Reader String := fun c =>
  let t := c.toLexeme
  match length t.rest with
  | 0 => (none, c.refuseAt t.position)
  | n + 1 => (some (String.ofList (t.rest.take (n + 1))), t.skip (n + 1))

/-- Reads characters that follow without white space. -/
def adjacent (length : List Char → Nat) : Reader String := fun c =>
  match length c.rest with
  | 0 => (none, c.refuseAt c.position)
  | n + 1 => (some (String.ofList (c.rest.take (n + 1))), c.skip (n + 1))

/-- Reads exactly this punctuation. -/
def mark (p : String) : Reader Unit := do
  let cs := p.toList
  let _ ← lexeme fun rest => if punctuatorAt rest = cs then cs.length else 0

/-- Reads any word. -/
def word : Reader String :=
  lexeme wordLength

/-- Reads a word that satisfies a condition. -/
def wordWith (ok : String → Bool) : Reader String :=
  lexeme fun rest =>
    let n := wordLength rest
    if ok (String.ofList (rest.take n)) then n else 0

/-- Reads exactly this word. -/
def keyword (w : String) : Reader Unit := do
  let _ ← wordWith (· == w)

/-- Reads a name: a word that is not reserved. -/
def name : Reader String :=
  wordWith fun w => !reserved.contains w

/-- Reads a private name. -/
def privateName : Reader String :=
  lexeme fun rest =>
    match rest with
    | '#' :: more =>
      let n := wordLength more
      if n = 0 then 0 else n + 1
    | _ => 0

/-- Whether a statement can end here without a semicolon. -/
def atEnd (loose : Bool) : Reader Bool := fun c =>
  (some (canEnd loose c.bound c.rest), c)

/-- The end of a statement: a semicolon, or a place where none is needed. -/
def semicolon (loose : Bool) : Reader Unit := do
  if ← atEnd loose then pure () else mark ";"

end Reader

end Rigging.Script
