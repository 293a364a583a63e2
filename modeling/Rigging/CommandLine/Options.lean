import Rigging.Json.Basic
import Rigging.Number.Numeral
import Rigging.Text.Quoted

/-!
# Reading command lines

A command line is read against a list of options and at most one place for other arguments.  Long
options may be shortened as long as one option is meant, a value may follow behind an equals sign,
short options without value may be written together, and everything behind two dashes is no option.
Options that are not known are collected, since another reader may know them.
-/

namespace Rigging.CommandLine

/-- What an option does. -/
inductive Effect where
  | help
  | flag
  | text
  | number
deriving DecidableEq, Repr

/-- An option with its spellings. -/
structure OptionSpec where
  names : List String
  effect : Effect
deriving DecidableEq, Repr

namespace OptionSpec

/-- The option in messages. -/
def label (o : OptionSpec) : String :=
  String.intercalate "/" o.names

/-- The name under which its value is kept: the longest spelling. -/
def key (o : OptionSpec) : String :=
  o.names.getLast?.getD ""

/-- Whether a value belongs to the option. -/
def takesValue (o : OptionSpec) : Bool :=
  o.effect == .text || o.effect == .number

end OptionSpec

/-- What can stand besides options: nothing, one argument that may be missing, or a command with
everything behind it. -/
inductive Place where
  | none
  | argument
  | command (label : String) (names : List String)
deriving DecidableEq, Repr

/-- What a command line is read against. -/
structure Grammar where
  program : String
  options : List OptionSpec
  place : Place

/-- How reading can end early: by a request for help, or by an error with its message. -/
inductive Stop where
  | help
  | error (program message : String)
deriving DecidableEq, Repr

/-- What an argument looks like: two dashes, no option, an option with the value written in the same
argument, or a short option without value and the letters behind it.  An option that is not known has
no meaning here. -/
inductive Shape where
  | dashes
  | plain
  | option (meant : Option OptionSpec) (value : Option String)
  | letters (first : OptionSpec) (rest : List Char)

/-- An argument with its shape. -/
abbrev Argument := String × Shape

namespace Grammar

/-- All spellings with their options, in order. -/
def spellings (g : Grammar) : List (String × OptionSpec) :=
  g.options.flatMap fun o => o.names.map fun n => (n, o)

/-- The option with exactly this spelling. -/
def spelled? (g : Grammar) (name : String) : Option OptionSpec :=
  g.spellings.lookup name

/-- Ends with an error. -/
def stop {α : Type} (g : Grammar) (message : String) : Except Stop α :=
  .error (.error g.program message)

/-- Ends with an error about an option. -/
def stopAt {α : Type} (g : Grammar) (label message : String) : Except Stop α :=
  g.stop ("argument " ++ label ++ ": " ++ message)

/-- A text up to its first equals sign, and what is behind it. -/
def splitEquals (s : String) : String × Option String :=
  match s.toList.span (· != '=') with
  | (front, _ :: back) => (String.ofList front, some (String.ofList back))
  | (_, []) => (s, none)

/-- The shape of a short option with letters behind it, which are its value if it takes one. -/
def joined (o : OptionSpec) (rest : List Char) : Shape :=
  if o.takesValue then .option (some o) (some (String.ofList rest)) else .letters o rest

/-- The spellings that a text could mean, with the shapes it has then. -/
def candidates (g : Grammar) (s : String) : List (String × Shape) :=
  let cs := s.toList
  if "--".toList.isPrefixOf cs then
    let (front, value) := splitEquals s
    (g.spellings.filter fun n => front.toList.isPrefixOf n.1.toList).map fun n =>
      (n.1, .option (some n.2) value)
  else
    g.spellings.filterMap fun n =>
      if n.1.toList == cs.take 2 then some (n.1, joined n.2 (cs.drop 2))
      else if cs.isPrefixOf n.1.toList then some (n.1, .option (some n.2) none)
      else none

/-- Whether a text is a negative number. -/
def isNegativeNumber (cs : List Char) : Bool :=
  let isDigit := fun c => (Number.anyDigit? c).isSome
  match cs with
  | '-' :: rest =>
    match rest.dropWhile isDigit with
    | [] => !rest.isEmpty
    | '.' :: fraction => !fraction.isEmpty && fraction.all isDigit
    | _ => false
  | _ => false

/-- The shape of an argument. -/
def shape (g : Grammar) (s : String) : Except Stop Shape :=
  match s.toList with
  | '-' :: rest =>
    match g.spelled? s with
    | some o => .ok (.option (some o) none)
    | none =>
      if rest.isEmpty then .ok .plain
      else
        let (front, value) := splitEquals s
        match value.bind fun _ => g.spelled? front with
        | some o => .ok (.option (some o) value)
        | none =>
          match g.candidates s with
          | [(_, found)] => .ok found
          | [] =>
            if isNegativeNumber s.toList || s.toList.contains ' ' then .ok .plain
            else .ok (.option none none)
          | several =>
            g.stop ("ambiguous option: " ++ s ++ " could match " ++
              String.intercalate ", " (several.map Prod.fst))
  | _ => .ok .plain

/-- The shapes of all arguments.  Behind two dashes everything is plain. -/
def shapes (g : Grammar) : List String → Except Stop (List Argument)
  | [] => .ok []
  | s :: rest =>
    if s = "--" then .ok ((s, .dashes) :: rest.map fun r => (r, .plain))
    else do
      let here ← g.shape s
      let more ← shapes g rest
      return (s, here) :: more

end Grammar

/-- What has been read: the values of options, the arguments in their place, and what was not
known. -/
structure Reading where
  values : List (String × Json)
  placed : Option (List String)
  extras : List String

namespace Reading

/-- Nothing has been read. -/
def empty : Reading := ⟨[], none, []⟩

end Reading

namespace Grammar

/-- Whether an argument is plain. -/
def isPlain : Argument → Bool
  | (_, .plain) => true
  | _ => false

/-- Whether an argument is an option. -/
def isOption : Argument → Bool
  | (_, .option ..) => true
  | (_, .letters ..) => true
  | _ => false

/-- Whether an argument is two dashes. -/
def isDashes : Argument → Bool
  | (_, .dashes) => true
  | _ => false

/-- The value of an option that takes one; two dashes alone are dropped and leave an empty list. -/
def convert (g : Grammar) (o : OptionSpec) (s : String) : Except Stop Json :=
  if s = "--" then .ok (.array [])
  else if o.effect = .number then
    match Number.integer? s with
    | some n => .ok (.int n)
    | none => g.stopAt o.label ("invalid int value: " ++ Text.quoted s)
  else .ok (.string s)

/-- Carries out an option without value. -/
def raise (r : Reading) (o : OptionSpec) : Except Stop Reading :=
  if o.effect = .help then .error .help
  else .ok { r with values := Assoc.put o.key (.bool true) r.values }

/-- Ends with an error about a value that an option does not take. -/
def stopIgnored {α : Type} (g : Grammar) (o : OptionSpec) (value : String) : Except Stop α :=
  g.stopAt o.label ("ignored explicit argument " ++ Text.quoted value)

/-- Short options written together: the options from the first one on, and the text that is left over
at a letter that is none.  They are checked before any of them is carried out. -/
def together (g : Grammar) (o : OptionSpec) :
    List Char → Except Stop (List OptionSpec × List String)
  | [] => .ok ([o], [])
  | c :: rest =>
    if c = '-' then g.stopIgnored o (String.ofList (c :: rest))
    else if c = '=' then g.stopIgnored o (String.ofList rest)
    else
      match g.spelled? (String.ofList ['-', c]) with
      | some next => do
        let (more, left) ← together g next rest
        return (o :: more, left)
      | none => .ok ([o], [String.ofList ('-' :: c :: rest)])

/-- Carries out short options written together. -/
def letters (g : Grammar) (r : Reading) (first : OptionSpec) (rest : List Char) :
    Except Stop Reading := do
  let (os, left) ← g.together first rest
  os.foldlM raise { r with extras := r.extras ++ left }

/-- Carries out an option with the arguments behind it; gives what was read and how many arguments
were taken. -/
def option (g : Grammar) (r : Reading) (text : String) (meant : Option OptionSpec)
    (value : Option String) (rest : List Argument) : Except Stop (Reading × Nat) :=
  match meant, value with
  | none, _ => .ok ({ r with extras := r.extras ++ [text] }, 0)
  | some o, some v =>
    if o.takesValue then do
      let value ← g.convert o v
      return ({ r with values := Assoc.put o.key value r.values }, 0)
    else g.stopIgnored o v
  | some o, none =>
    if o.takesValue then
      match rest with
      | (v, .plain) :: _ => do
        let value ← g.convert o v
        return ({ r with values := Assoc.put o.key value r.values }, 1)
      | _ => g.stopAt o.label "expected one argument"
    else do
      let r ← raise r o
      return (r, 0)

/-- How many arguments belong into the place, if it is still free and they fit. -/
def placeLength (g : Grammar) (r : Reading) (args : List Argument) : Option Nat :=
  if r.placed.isSome then none
  else
    let front := (args.takeWhile isDashes).length
    let rest := args.drop front
    match g.place with
    | .none => none
    | .argument =>
      let taken := if (rest.take 1).any isPlain then 1 else 0
      some (front + taken + ((rest.drop taken).takeWhile isDashes).length)
    | .command _ _ => if (rest.take 1).any isPlain then some args.length else none

/-- Puts arguments into the place. -/
def fillPlace (g : Grammar) (r : Reading) (args : List String) : Except Stop Reading :=
  match g.place with
  | .command label names =>
    let first := args.head?.getD ""
    if names.contains first then .ok { r with placed := some args }
    else
      g.stopAt label ("invalid choice: " ++ Text.quoted first ++ " (choose from " ++
        String.intercalate ", " (names.map Text.quoted) ++ ")")
  | _ => .ok { r with placed := some (args.erase "--") }

/-- Reads arguments while an option is among them. -/
def readFrom (g : Grammar) (r : Reading) (fuel : Nat) (args : List Argument) :
    Except Stop Reading :=
  match fuel with
  | 0 => .ok r
  | fuel + 1 =>
    match args with
    | (text, .option meant value) :: rest => do
      let (r, n) ← g.option r text meant value rest
      readFrom g r fuel (rest.drop n)
    | (_, .letters first letters) :: rest => do
      let r ← g.letters r first letters
      readFrom g r fuel rest
    | _ =>
      match g.placeLength r args with
      | some n =>
        if n = 0 && args.any isOption then skip g r fuel args
        else do
          let r ← g.fillPlace r ((args.take n).map Prod.fst)
          if (args.drop n).isEmpty then return r else readFrom g r fuel (args.drop n)
      | none => skip g r fuel args
where
  /-- Passes over arguments that have no place, up to the next option. -/
  skip (g : Grammar) (r : Reading) (fuel : Nat) (args : List Argument) : Except Stop Reading :=
    let lost := args.takeWhile fun a => !isOption a
    let r := { r with extras := r.extras ++ lost.map Prod.fst }
    if (args.drop lost.length).isEmpty then .ok r else readFrom g r fuel (args.drop lost.length)

/-- Reads a command line. -/
def read (g : Grammar) (args : List String) : Except Stop Reading := do
  let shaped ← g.shapes args
  let r ← g.readFrom .empty (2 * args.length + 2) shaped
  match g.place, r.placed with
  | .command label _, none => g.stop ("the following arguments are required: " ++ label)
  | _, _ => return r

end Grammar

end Rigging.CommandLine
