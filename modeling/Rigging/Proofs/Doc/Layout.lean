import Rigging.Proofs.Doc.Assemble
import Rigging.Proofs.Doc.Continuation

/-!
# The layout of comments

The lines of a comment can be laid out in many ways.  Each of them stands on a row of its own, behind a
star and between any spaces and tabs, and there may be rows with nothing but a star wherever one likes
(`Row`).  A break between two lines is as long as such rows go on (`Pending`), and folding leaves one
space of it, so that the layout does not matter to the reader: a comment reads like its lines behind a
single star, with single spaces between them (`ofComment?_comment`).
-/

namespace Rigging.Doc

open Rigging.Text

/-- A line of text: something without line ends inside and without blanks around it. -/
structure Line where
  text : String
  ne_empty : text ≠ ""
  trimmed : Trimmed text.toList
  oneLine : ∀ c ∈ text.toList, isLineEnd c = false

/-- Spaces and tabs. -/
def Spaces := { cs : List Char // OnlySpaces cs }

/-- A row of a comment: a star alone, or a star and a line of text. -/
inductive Row where
  | star (indent trail : Spaces)
  | text (indent gap : Spaces) (line : Line) (trail : Spaces)

namespace Row

/-- The characters of a row, with the line end in front of it. -/
def chars : Row → List Char
  | star indent trail => '\n' :: (indent.val ++ '*' :: trail.val)
  | text indent gap line trail =>
    '\n' :: (indent.val ++ '*' :: (gap.val ++ (line.text.toList ++ trail.val)))

/-- The line of text on a row. -/
def line? : Row → Option Line
  | star _ _ => none
  | text _ _ line _ => some line

end Row

/-- The lines of text on rows. -/
def linesOf (rows : List Row) : List Line := rows.filterMap Row.line?

/-- The block comment with the given rows, and with spaces and tabs in front of its end. -/
def comment (rows : List Row) (closing : Spaces) : String :=
  String.ofList ("/**".toList ++ (rows.flatMap Row.chars ++ '\n' :: (closing.val ++ "*/".toList)))

/-- Two lines, the first of which starts with a star itself, and two rows with nothing but a star. -/
def walkRows : List Row :=
  [.star ⟨[' '], by decide⟩ ⟨[], by decide⟩,
    .text ⟨[' '], by decide⟩ ⟨['\t'], by decide⟩ ⟨"* Walks", by decide, by decide, by decide⟩
      ⟨[], by decide⟩,
    .star ⟨[], by decide⟩ ⟨[' '], by decide⟩,
    .text ⟨[' '], by decide⟩ ⟨[' '], by decide⟩ ⟨"@param pet", by decide, by decide, by decide⟩
      ⟨[' '], by decide⟩]

example : comment walkRows ⟨[' '], by decide⟩ = "/**\n *\n *\t* Walks\n* \n * @param pet \n */" := by
  decide

/-! ### Breaks over several rows -/

/-- What stands between two lines so far, and how much of it a break takes: spaces and tabs, and
behind them rows with a star. -/
inductive Pending : List Char → Nat → Prop
  | spaces {ws : List Char} : OnlySpaces ws → Pending ws 0
  | row {before indent ws : List Char} {n : Nat} : Pending before n → OnlySpaces indent →
      OnlySpaces ws → Pending (before ++ '\n' :: (indent ++ '*' :: ws))
        (before ++ '\n' :: (indent ++ '*' :: ws)).length

namespace Pending

variable {before : List Char} {n : Nat}

/-- The counters go over all of it. -/
theorem breakLength_append (h : Pending before n) (cs : List Char) :
    breakLength false 0 0 (before ++ cs) = breakLength false before.length n cs := by
  induction h generalizing cs with
  | @spaces ws hws =>
    have hskip : ∀ {ws : List Char} {t : Nat}, OnlySpaces ws →
        breakLength false t 0 (ws ++ cs) = breakLength false (t + ws.length) 0 cs := by
      intro ws
      induction ws with
      | nil => exact fun _ => rfl
      | cons w ws ih =>
        intro t h
        obtain ⟨hw, hrest⟩ := onlySpaces_cons.mp h
        rw [List.cons_append, breakLength, if_pos hw, if_pos (by simp), ih hrest, List.length_cons,
          Nat.add_assoc, Nat.add_comm 1]
    rw [hskip hws, Nat.zero_add]
  | @row before indent ws n _ hindent hws ih =>
    have hsplit : before ++ '\n' :: (indent ++ '*' :: ws) ++ cs =
        before ++ '\n' :: (indent ++ '*' :: (ws ++ cs)) := by
      simp
    rw [hsplit, ih, breakLength_starLine hindent hws, List.length_append]

/-- Behind a row with a star, all of it is a break up to the text that follows. -/
theorem foldBreaks_row {indent ws cs : List Char} (h : Pending before n) (hindent : OnlySpaces indent)
    (hws : OnlySpaces ws) (hcs : ∀ c, cs.head? = some c → isBlank c = false) :
    foldBreaks 0 (before ++ '\n' :: (indent ++ '*' :: ws) ++ cs) = ' ' :: foldBreaks 0 cs := by
  refine foldBreaks_break (by simp) ?_
  rw [(h.row hindent hws).breakLength_append]
  cases cs with
  | nil => rfl
  | cons c cs =>
    have hsolid := hcs c rfl
    exact breakLength_other (isSpaceOrTab_of_solid hsolid) (isLineEnd_of_solid hsolid)

/-- Only blanks are left of what no line follows. -/
theorem allBlank_foldBreaks (h : Pending before n) : AllBlank (foldBreaks 0 before) := by
  cases h with
  | spaces hws =>
    rw [foldBreaks_of_oneLine fun c hc => isLineEnd_of_isSpaceOrTab (hws c hc)]
    exact fun c hc => isBlank_of_isSpaceOrTab (hws c hc)
  | row hbefore hindent hws =>
    rw [← List.append_nil (_ ++ _), hbefore.foldBreaks_row hindent hws (by simp), foldBreaks]
    decide

end Pending

/-! ### Folding rows -/

theorem Line.ne_nil (line : Line) : line.text.toList ≠ [] := by
  intro h
  exact line.ne_empty (String.toList_eq_nil_iff.mp h)

theorem noStarLine_of_oneLine {cs : List Char} (h : ∀ c ∈ cs, isLineEnd c = false) :
    NoStarLine cs := by
  induction cs with
  | nil => trivial
  | cons c cs ih =>
    rw [List.forall_mem_cons] at h
    exact ⟨fun hc => Bool.false_ne_true (h.1.symm.trans hc.1), ih h.2⟩

/-- A line stays, whatever follows. -/
theorem Line.foldBreaks_append (line : Line) (cs : List Char) :
    foldBreaks 0 (line.text.toList ++ cs) = line.text.toList ++ foldBreaks 0 cs :=
  Doc.foldBreaks_append (noStarLine_of_oneLine line.oneLine) line.trimmed.2 cs

/-- **Folding rows** leaves a space and the text of each line, and blanks behind the last. -/
theorem foldBreaks_rows (closing : Spaces) (rows : List Row) : ∀ {before : List Char} {n : Nat},
    Pending before n → ∃ blanks, AllBlank blanks ∧
      foldBreaks 0 (before ++ (rows.flatMap Row.chars ++ '\n' :: closing.val)) =
        (linesOf rows).flatMap (fun line => ' ' :: line.text.toList) ++ blanks := by
  induction rows with
  | nil =>
    intro before n h
    refine ⟨foldBreaks 0 before ++ '\n' :: closing.val, fun c hc => ?_, ?_⟩
    · rcases List.mem_append.mp hc with hc | hc
      · exact h.allBlank_foldBreaks c hc
      · exact allBlank_lastLine closing.property c hc
    · exact foldBreaks_lastLine closing.property before (Nat.zero_le _)
  | cons row rows ih =>
    intro before n h
    cases row with
    | star indent trail =>
      -- the break goes on over the row
      obtain ⟨blanks, hblanks, hfold⟩ := ih (h.row indent.property trail.property)
      refine ⟨blanks, hblanks, Eq.trans ?_ hfold⟩
      simp [Row.chars]
    | text indent gap line trail =>
      -- the break ends at the line, and behind the line the next one starts
      obtain ⟨blanks, hblanks, hfold⟩ := ih (.spaces trail.property)
      have hhead : ∀ rest c, (line.text.toList ++ rest).head? = some c → isBlank c = false := by
        intro rest c hc
        rw [head?_append_of_ne_nil line.ne_nil] at hc
        exact line.trimmed.1 c hc
      have hrow := h.foldBreaks_row indent.property gap.property
        (hhead (trail.val ++ (rows.flatMap Row.chars ++ '\n' :: closing.val)))
      rw [line.foldBreaks_append, hfold] at hrow
      refine ⟨blanks, hblanks, Eq.trans ?_ (hrow.trans ?_)⟩
      · simp [Row.chars]
      · simp [linesOf, Row.line?]

/-! ### Reading -/

/-- The characters of lines with single spaces between them. -/
def spacedOut (lines : List Line) : List Char :=
  [' '].intercalate (lines.map fun line => line.text.toList)

theorem trimmed_spacedOut (lines : List Line) : Trimmed (spacedOut lines) := by
  refine trimmed_intercalate _ fun s hs => ?_
  obtain ⟨line, _, rfl⟩ := List.mem_map.mp hs
  exact ⟨line.ne_nil, line.trimmed⟩

theorem oneLine_spacedOut {lines : List Line} {c : Char} (h : c ∈ spacedOut lines) :
    isLineEnd c = false := by
  rcases mem_intercalate h with hc | ⟨s, hs, hc⟩
  · rw [List.mem_singleton.mp hc]
    decide
  · obtain ⟨line, _, rfl⟩ := List.mem_map.mp hs
    exact line.oneLine c hc

/-- Lines with a space in front of each and blanks behind the last are trimmed to lines with single
spaces between them. -/
theorem trimChars_lines (lines : List Line) {blanks : List Char} (hblanks : AllBlank blanks) :
    trimChars (lines.flatMap (fun line => ' ' :: line.text.toList) ++ blanks) = spacedOut lines := by
  cases lines with
  | nil => exact trimChars_of_allBlank hblanks
  | cons line lines =>
    have hspaced : (line :: lines).flatMap (fun line => ' ' :: line.text.toList) =
        [' '] ++ spacedOut (line :: lines) := by
      rw [spacedOut, List.map_cons, intercalate_cons, List.flatMap_map]
      rfl
    rw [hspaced, List.append_assoc]
    exact trimChars_append (l := [' ']) (by decide) hblanks (trimmed_spacedOut _)

/-- **The layout of a comment does not matter.**  However its rows are laid out, a comment is read like
its lines behind one star, with single spaces between them. -/
theorem ofComment?_comment (rows : List Row) (closing : Spaces) :
    ofComment? (comment rows closing) =
      read? ("* " ++ String.intercalate " " ((linesOf rows).map Line.text)) := by
  have hbody : (body (comment rows closing)).toList =
      '*' :: (rows.flatMap Row.chars ++ '\n' :: closing.val) := by
    refine toList_body [] (List.forall_mem_nil _) ?_
    rw [comment, String.toList_ofList]
    simp only [List.cons_append, List.nil_append, List.append_assoc]
    rfl
  have hlines : ("* " ++ String.intercalate " " ((linesOf rows).map Line.text)).toList =
      '*' :: ' ' :: spacedOut (linesOf rows) := by
    rw [String.toList_append, String.toList_intercalate, List.map_map]
    rfl
  have hrows : trimChars (foldBreaks 0 (rows.flatMap Row.chars ++ '\n' :: closing.val)) =
      spacedOut (linesOf rows) := by
    obtain ⟨blanks, hblanks, hfold⟩ := foldBreaks_rows closing rows (.spaces (List.forall_mem_nil _))
    rw [List.nil_append] at hfold
    rw [hfold, trimChars_lines _ hblanks]
  have hone : trimChars (foldBreaks 0 (' ' :: spacedOut (linesOf rows))) =
      spacedOut (linesOf rows) := by
    have honeLine : ∀ c ∈ ' ' :: spacedOut (linesOf rows), isLineEnd c = false :=
      List.forall_mem_cons.mpr ⟨rfl, fun _ => oneLine_spacedOut⟩
    rw [foldBreaks_of_oneLine honeLine, ← List.singleton_append, trimChars_append_left (by decide),
      trimChars_of_trimmed (trimmed_spacedOut _)]
  rw [ofComment?, read?_star hbody, read?_star hlines, hrows, hone]

end Rigging.Doc
