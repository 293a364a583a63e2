import Rigging.Declaration.Member
import Rigging.Proofs.Doc.Enclosed
import Rigging.Proofs.Script.Lexical

/-!
# Imports of a written text

`importedPaths` gives the modules that a text of declarations imports, as they are spelled there.  It is
a machine that goes through the text character by character and tells code from comments and strings; a
string behind one of the words that name a module is the path of one.

How a text is read is put together from how its parts are read: `Reads P text found Q` says that a
machine in a state of the kind `P` finds these paths in the text and is left in a state of the kind `Q`.
Where names have no quotes, nothing is found in a class (`reads_classText`), whatever its comments say.
-/

namespace Rigging.Declaration

open Script (Unquoted isQuote)

/-! ### The machine -/

/-- What the machine is in. -/
inductive Mode where
  | code
  /-- Behind a slash, which opens a comment if the next character is right. -/
  | slash
  /-- A comment that ends with its line. -/
  | line
  /-- A comment that has an end of its own; `starred` behind a star. -/
  | block (starred : Bool)
  /-- A string, with what it holds so far; `escaped` behind a backslash. -/
  | literal (quote : Char) (held : List Char) (escaped : Bool)
deriving DecidableEq

/-- The machine, with the code that it has read, the last character first, and the paths that it has
found. -/
structure Scan where
  mode : Mode
  code : List Char
  paths : List String

/-- The characters that end a line, and with it a comment or a string. -/
def isLineBreak (c : Char) : Bool :=
  Script.isLineEnd c || c == '\r'

/-- Whether a string behind some code is the path of a module: it follows one of three words, or the
parenthesis behind it. -/
def namesModule (code : List Char) : Bool :=
  let word := (code.dropWhile fun c => Script.isSpace c || c == '(').takeWhile fun c =>
    Script.isWordStart c || c.isDigit
  ["import", "from", "require"].any fun keyword => keyword.toList.reverse == word

namespace Scan

def start : Scan := ⟨.code, [], []⟩

/-- A character of code. -/
def stepCode (s : Scan) (c : Char) : Scan :=
  if c = '/' then { s with mode := .slash }
  else if isQuote c then { s with mode := .literal c [] false }
  else { s with mode := .code, code := c :: s.code }

/-- The end of a string. -/
def close (s : Scan) (quote : Char) (held : List Char) : Scan :=
  { mode := .code
    code := quote :: s.code
    paths := if namesModule s.code then s.paths ++ [String.ofList held] else s.paths }

/-- One character.  A string ends with its quote, and one that may not go over several lines with its
line. -/
def step (s : Scan) (c : Char) : Scan :=
  match s.mode with
  | .code => s.stepCode c
  | .slash =>
    if c = '/' then { s with mode := .line }
    else if c = '*' then { s with mode := .block false }
    else { s with code := '/' :: s.code }.stepCode c
  | .line => if isLineBreak c then { s with mode := .code, code := c :: s.code } else s
  | .block starred =>
    if starred && c == '/' then { s with mode := .code, code := ' ' :: s.code }
    else { s with mode := .block (c == '*') }
  | .literal quote held escaped =>
    if escaped then { s with mode := .literal quote (held ++ [c]) false }
    else if c = '\\' then { s with mode := .literal quote (held ++ [c]) true }
    else if c = quote || (isLineBreak c && quote != '`') then s.close quote held
    else { s with mode := .literal quote (held ++ [c]) false }

/-- Some characters. -/
def run (s : Scan) (cs : List Char) : Scan := cs.foldl step s

theorem run_cons (s : Scan) (c : Char) (cs : List Char) : s.run (c :: cs) = (s.step c).run cs := rfl

theorem run_append (s : Scan) (cs ds : List Char) : s.run (cs ++ ds) = (s.run cs).run ds :=
  List.foldl_append

end Scan

/-- The paths of the modules that a text imports, as they are spelled. -/
def importedPaths (text : String) : List String :=
  (Scan.start.run text.toList).paths

example : importedPaths ("import \x7b a \x7d from './a'; // import './b'\n" ++
    "/* import './c' */ import \"./d\"\nconst x: import(`./e`).X;\nconst y = './f';") =
      ["./a", "./d", "./e"] := by
  decide +kernel

/-! ### Kinds of states -/

namespace Scan

/-- The machine is in code. -/
def InCode (s : Scan) : Prop := s.mode = .code

/-- The machine is in code or in a comment that has an end of its own: where a line begins it is in no
other comment. -/
def AtStart (s : Scan) : Prop := s.mode = .code ∨ s.mode = .block false

/-- The machine is in no string. -/
def Calm (s : Scan) : Prop := ∀ quote held escaped, s.mode ≠ .literal quote held escaped

theorem start_inCode : start.InCode := rfl

theorem InCode.atStart {s : Scan} (h : s.InCode) : s.AtStart := .inl h

theorem calm_of_mode {s : Scan} {m : Mode} (hm : ∀ quote held escaped, m ≠ .literal quote held escaped)
    (h : s.mode = m) : s.Calm := fun quote held escaped heq =>
  hm quote held escaped (h.symm.trans heq)

theorem AtStart.calm {s : Scan} (h : s.AtStart) : s.Calm := by
  rcases h with h | h
  · exact calm_of_mode (by simp) h
  · exact calm_of_mode (by simp) h

theorem InCode.calm {s : Scan} (h : s.InCode) : s.Calm := h.atStart.calm

section Step

variable {s : Scan} {c : Char} (hc : isQuote c = false)

include hc

theorem stepCode_of_unquoted : (s.stepCode c).Calm ∧ (s.stepCode c).paths = s.paths := by
  unfold stepCode
  rw [hc]
  split
  · exact ⟨calm_of_mode (by simp) rfl, rfl⟩
  · exact ⟨calm_of_mode (by simp) rfl, rfl⟩

/-- **A character that is no quote** opens no string. -/
theorem step_of_unquoted (hs : s.Calm) : (s.step c).Calm ∧ (s.step c).paths = s.paths := by
  obtain ⟨mode, code, paths⟩ := s
  unfold step
  cases mode with
  | code => exact stepCode_of_unquoted hc
  | slash =>
    dsimp only
    split
    · exact ⟨calm_of_mode (by simp) rfl, rfl⟩
    · split
      · exact ⟨calm_of_mode (by simp) rfl, rfl⟩
      · exact stepCode_of_unquoted hc
  | line =>
    dsimp only
    split
    · exact ⟨calm_of_mode (by simp) rfl, rfl⟩
    · exact ⟨hs, rfl⟩
  | block starred =>
    dsimp only
    split
    · exact ⟨calm_of_mode (by simp) rfl, rfl⟩
    · exact ⟨calm_of_mode (by simp) rfl, rfl⟩
  | literal quote held escaped => exact absurd rfl (hs quote held escaped)

end Step

/-- The end of a line ends every comment that it can end. -/
theorem step_newline {s : Scan} (hs : s.Calm) :
    (s.step '\n').AtStart ∧ (s.step '\n').paths = s.paths := by
  obtain ⟨mode, code, paths⟩ := s
  cases mode with
  | code => exact ⟨.inl rfl, rfl⟩
  | slash => exact ⟨.inl rfl, rfl⟩
  | line => exact ⟨.inl rfl, rfl⟩
  | block starred => cases starred <;> exact ⟨.inr rfl, rfl⟩
  | literal quote held escaped => exact absurd rfl (hs quote held escaped)

end Scan

/-! ### Reading -/

open Scan (AtStart Calm InCode)

/-- A machine in a state of one kind finds some paths in a text, and is left in a state of another
kind. -/
def Reads (P : Scan → Prop) (text : String) (found : List String) (Q : Scan → Prop) : Prop :=
  ∀ s, P s → Q (s.run text.toList) ∧ (s.run text.toList).paths = s.paths ++ found

namespace Reads

variable {P P' Q Q' R : Scan → Prop} {a b : String} {fs gs : List String}

theorem append (ha : Reads P a fs Q) (hb : Reads Q b gs R) : Reads P (a ++ b) (fs ++ gs) R := by
  intro s hs
  obtain ⟨hq, hfirst⟩ := ha s hs
  obtain ⟨hr, hsecond⟩ := hb _ hq
  rw [String.toList_append, Scan.run_append]
  exact ⟨hr, by rw [hsecond, hfirst, List.append_assoc]⟩

/-- A text in which nothing is found may stand in front of another. -/
theorem after (hb : Reads Q b gs R) (ha : Reads P a [] Q) : Reads P (a ++ b) gs R :=
  ha.append hb

theorem of_imp (h : Reads P a fs Q) (hP : ∀ s, P' s → P s) (hQ : ∀ s, Q s → Q' s) :
    Reads P' a fs Q' := by
  intro s hs
  obtain ⟨hq, hfound⟩ := h s (hP s hs)
  exact ⟨hQ _ hq, hfound⟩

theorem nil : Reads P "" [] P := fun s hs => ⟨hs, (List.append_nil s.paths).symm⟩

theorem importedPaths_eq (h : Reads InCode a fs Q) : importedPaths a = fs :=
  (h .start Scan.start_inCode).2

end Reads

/-- **A text without quotes** has no strings. -/
theorem reads_unquoted {text : String} (h : Unquoted text) : Reads Calm text [] Calm := by
  intro s hs
  rw [Unquoted] at h
  rw [List.append_nil]
  generalize text.toList = cs at h ⊢
  induction cs generalizing s with
  | nil => exact ⟨hs, rfl⟩
  | cons c cs ih =>
    obtain ⟨hc, hcs⟩ := List.forall_mem_cons.mp h
    obtain ⟨hcalm, hpaths⟩ := Scan.step_of_unquoted hc hs
    obtain ⟨hlast, hrest⟩ := ih _ hcalm hcs
    rw [Scan.run_cons]
    exact ⟨hlast, hrest.trans hpaths⟩

theorem reads_newline : Reads Calm "\n" [] AtStart := fun _ hs =>
  ⟨(Scan.step_newline hs).1, (Scan.step_newline hs).2.trans (List.append_nil _).symm⟩

/-- Lines without quotes. -/
theorem reads_line {text : String} (h : Unquoted text) (hlast : text.toList.getLast? = some '\n') :
    Reads Calm text [] AtStart := by
  obtain ⟨front, hfront⟩ := List.getLast?_eq_some_iff.mp hlast
  have htext : text = String.ofList front ++ "\n" := by
    rw [← String.toList_inj, hfront, String.toList_append, String.toList_ofList]
    rfl
  rw [Unquoted, hfront] at h
  have hunquoted : Unquoted (String.ofList front) := by
    rw [Unquoted, String.toList_ofList]
    exact fun c hc => h c (List.mem_append_left _ hc)
  rw [htext]
  exact reads_newline.after (reads_unquoted hunquoted)

/-! ### Comments -/

open Doc (Enclosed EndsOnce NoEnd endsOnce_append noEnd_cons)

namespace Scan

/-- The state in a comment behind a character, or at its beginning. -/
def commentMode (previous : Option Char) : Mode :=
  .block (previous == some '*')

/-- As long as it does not end, a comment goes on. -/
theorem run_noEnd {s : Scan} {cs : List Char} {previous : Option Char}
    (hs : s.mode = commentMode previous) (h : NoEnd (previous.toList ++ cs)) :
    s.run cs = { s with mode := commentMode (cs.getLast?.or previous) } := by
  induction cs generalizing s previous with
  | nil => exact congrArg (fun m => { s with mode := m }) hs
  | cons c cs ih =>
    have hends : ¬(previous = some '*' ∧ c = '/') := by
      rintro ⟨rfl, rfl⟩
      exact (noEnd_cons.mp h).1 ⟨rfl, rfl⟩
    have hstep : s.step c = { s with mode := commentMode (some c) } := by
      rw [step, hs, commentMode]
      dsimp only
      rw [if_neg (by simpa using hends)]
      rfl
    have hrest : NoEnd ((some c).toList ++ cs) := by
      cases previous with
      | none => exact h
      | some d => exact (noEnd_cons.mp h).2
    rw [run_cons, hstep, ih rfl hrest, List.getLast?_cons]
    cases cs.getLast? <;> rfl

/-- A comment that is read to its end is left there. -/
theorem run_endsOnce {s : Scan} (hs : s.mode = .block false) {cs : List Char} (h : EndsOnce cs) :
    (s.run cs).InCode ∧ (s.run cs).paths = s.paths := by
  obtain ⟨front, rfl⟩ := h.ends
  have hno : NoEnd (none.toList ++ (front ++ ['*'])) := endsOnce_append.mp h
  rw [List.append_cons, run_append, run_noEnd hs hno, List.getLast?_concat]
  exact ⟨rfl, rfl⟩

end Scan

/-- **A comment that is written between lines** is read as one.  If the machine is in a comment already,
that is where it ends. -/
theorem reads_comment {text : String} (h : Enclosed indent text) (hne : text ≠ "") :
    Reads AtStart text [] InCode := by
  obtain ⟨⟨rest, htext⟩, hends⟩ := h.resolve_left hne
  intro s hs
  rw [List.append_nil]
  rcases hs with hcode | hblock
  · have hrest : EndsOnce ('*' :: rest) := by
      rw [← htext] at hends
      refine ⟨?_, fun front back hsplit => hends.once ("  /*".toList ++ front) back ?_⟩
      · refine List.suffix_of_suffix_length_le hends.ends (List.suffix_append "  /*".toList _) ?_
        cases rest with
        | nil => exact absurd hends.ends (by decide)
        | cons c rest => exact Nat.le_add_left 2 rest.length
      · rw [List.append_assoc, ← hsplit]
        rfl
    obtain ⟨mode, code, paths⟩ := s
    cases hcode
    have hopen : Scan.run ⟨.code, code, paths⟩ text.toList =
        Scan.run ⟨.block false, ' ' :: ' ' :: code, paths⟩ ('*' :: rest) := by
      rw [← htext]
      rfl
    rw [hopen]
    exact Scan.run_endsOnce rfl hrest
  · exact Scan.run_endsOnce hblock hends

/-- **A member** with a comment that is closed and a declaration without quotes. -/
theorem reads_member {doc declaration : String} (hdoc : Enclosed indent doc)
    (hdeclaration : Unquoted declaration) : Reads AtStart (member doc declaration) [] Calm := by
  have hline : Unquoted (indent ++ declaration) := by
    rw [Unquoted, String.toList_append]
    exact List.forall_mem_append.mpr ⟨by decide, hdeclaration⟩
  unfold member
  split
  · exact (reads_unquoted hline).of_imp (fun _ => AtStart.calm) fun _ => id
  · rename_i hne
    rw [String.append_assoc, String.append_assoc]
    refine Reads.after ?_ (reads_comment hdoc hne)
    refine (reads_unquoted hline).of_imp (fun _ => AtStart.calm) (fun _ => id) |>.after ?_
    exact reads_newline.of_imp (fun _ => InCode.calm) fun _ => id

theorem reads_gap : Reads Calm "\n\n" [] AtStart := reads_line (by decide) (by decide)

/-- Texts with empty lines between them. -/
theorem reads_intercalate {parts : List String} (h : ∀ part ∈ parts, Reads AtStart part [] Calm) :
    Reads AtStart (String.intercalate "\n\n" parts) [] Calm := by
  induction parts with
  | nil => exact Reads.nil.of_imp (fun _ => id) fun _ => AtStart.calm
  | cons part parts ih =>
    obtain ⟨hpart, hparts⟩ := List.forall_mem_cons.mp h
    cases parts with
    | nil => rwa [String.intercalate_singleton]
    | cons next parts =>
      rw [String.intercalate_cons_cons]
      exact (ih hparts).after (reads_gap.after hpart)

/-- **A class** whose members are read. -/
theorem reads_classText {header : String} (hheader : Unquoted header) {members : List String}
    (hmembers : ∀ m ∈ members, Reads AtStart m [] Calm) :
    Reads AtStart (classText header members) [] Calm := by
  have hopening : Reads AtStart header [] Calm :=
    (reads_unquoted hheader).of_imp (fun _ => AtStart.calm) fun _ => id
  have hclosing : Reads Calm "\n\n\x7d" [] Calm := reads_unquoted (by decide)
  unfold classText
  split
  · exact (reads_unquoted (by decide)).after hopening
  · have hbrace : Reads Calm " \x7b\n\n" [] AtStart := reads_line (by decide) (by decide)
    exact hclosing.after ((reads_intercalate hmembers).after (hbrace.after hopening))

/-! ### Import lines -/

/-- A text without strings and comments. -/
def IsCode (text : String) : Prop :=
  ∀ c ∈ text.toList, isQuote c = false ∧ c ≠ '/'

instance (text : String) : Decidable (IsCode text) :=
  inferInstanceAs (Decidable (∀ _ ∈ _, _))

theorem isCode_append {s r : String} : IsCode (s ++ r) ↔ IsCode s ∧ IsCode r := by
  rw [IsCode, String.toList_append, List.forall_mem_append]
  rfl

/-- A text that stands for itself in a string. -/
def Verbatim (text : String) : Prop :=
  ∀ c ∈ text.toList, isQuote c = false ∧ c ≠ '\\' ∧ isLineBreak c = false

instance (text : String) : Decidable (Verbatim text) :=
  inferInstanceAs (Decidable (∀ _ ∈ _, _))

theorem verbatim_append {s r : String} : Verbatim (s ++ r) ↔ Verbatim s ∧ Verbatim r := by
  rw [Verbatim, String.toList_append, List.forall_mem_append]
  rfl

namespace Scan

/-- Code without quotes and slashes stays code. -/
theorem run_code {cs : List Char} (h : ∀ c ∈ cs, isQuote c = false ∧ c ≠ '/') (code : List Char)
    (paths : List String) : run ⟨.code, code, paths⟩ cs = ⟨.code, cs.reverse ++ code, paths⟩ := by
  induction cs generalizing code with
  | nil => rfl
  | cons c cs ih =>
    obtain ⟨⟨hquote, hslash⟩, hcs⟩ := List.forall_mem_cons.mp h
    have hstep : step ⟨.code, code, paths⟩ c = ⟨.code, c :: code, paths⟩ := by
      show stepCode ⟨.code, code, paths⟩ c = _
      rw [stepCode, if_neg hslash, hquote, if_neg Bool.false_ne_true]
    rw [run_cons, hstep, ih hcs, List.reverse_cons, List.append_assoc]
    rfl

/-- A string holds what stands in it. -/
theorem run_held {text : String} (h : Verbatim text) {quote : Char} (hquote : isQuote quote = true)
    (held code : List Char) (paths : List String) :
    run ⟨.literal quote held false, code, paths⟩ text.toList =
      ⟨.literal quote (held ++ text.toList) false, code, paths⟩ := by
  rw [Verbatim] at h
  generalize text.toList = cs at h ⊢
  induction cs generalizing held with
  | nil =>
    rw [List.append_nil]
    rfl
  | cons c cs ih =>
    obtain ⟨⟨hc, hbackslash, hbreak⟩, hcs⟩ := List.forall_mem_cons.mp h
    have hne : c ≠ quote := by
      rintro rfl
      rw [hc] at hquote
      cases hquote
    have hstep : step ⟨.literal quote held false, code, paths⟩ c =
        ⟨.literal quote (held ++ [c]) false, code, paths⟩ := by
      simp [step, hbackslash, hne, hbreak]
    rw [run_cons, hstep, ih _ hcs, List.append_assoc]
    rfl

end Scan

theorem reads_code {text : String} (h : IsCode text) :
    Reads InCode text [] InCode := by
  rintro ⟨_, code, paths⟩ rfl
  rw [Scan.run_code h, List.append_nil]
  exact ⟨rfl, rfl⟩

/-- The line that imports names from a module. -/
def importText (names path : String) : String :=
  "import \x7b " ++ names ++ " \x7d from '" ++ path ++ "';"

/-- **An import** is found. -/
theorem reads_import {names path : String} (hnames : IsCode names) (hpath : Verbatim path) :
    Reads InCode (importText names path) [path] InCode := by
  rintro ⟨_, code, paths⟩ rfl
  have htext : (importText names path).toList =
      ("import \x7b ".toList ++ names.toList ++ " \x7d from ".toList) ++
        '\'' :: (path.toList ++ ['\'', ';']) := by
    simp only [importText, String.toList_append, List.append_assoc]
    rfl
  have hfront : ∀ c ∈ "import \x7b ".toList ++ names.toList ++ " \x7d from ".toList,
      isQuote c = false ∧ c ≠ '/' :=
    List.forall_mem_append.mpr ⟨List.forall_mem_append.mpr ⟨by decide, hnames⟩, by decide⟩
  have hopen : ∀ code, Scan.step ⟨.code, code, paths⟩ '\'' = ⟨.literal '\'' [] false, code, paths⟩ :=
    fun _ => rfl
  have hclose : ∀ held code, Scan.run ⟨.literal '\'' held false, code, paths⟩ ['\'', ';'] =
      ⟨.code, ';' :: '\'' :: code,
        if namesModule code then paths ++ [String.ofList held] else paths⟩ :=
    fun _ _ => rfl
  rw [htext, Scan.run_append, Scan.run_code hfront, Scan.run_cons, hopen, Scan.run_append,
    Scan.run_held hpath (by decide), hclose, List.reverse_append, List.append_assoc, List.nil_append,
    String.ofList_toList]
  exact ⟨rfl, rfl⟩

end Rigging.Declaration
