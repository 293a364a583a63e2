import Mathlib.Algebra.Ring.Nat
import Rigging.Doc.Reader
import Rigging.Proofs.Text.Blank

/-!
# Folding continued lines

A line end that a star follows, with only spaces and tabs in between, continues the comment and is
folded away; any other line end stays.  A text in which none is continued (`NoStarLine`) is left alone
wherever it stands (`foldBreaks_append`), and the layout of a written comment is folded to its
stanzas with one space between them (`fold_layout`).  In general folding keeps only bare line ends
(`countP_foldBreaks_le`), so a text with a continued line never comes back whole.
-/

namespace Rigging.Doc

open Rigging.Text

/-- A character that ends a line. -/
def isLineEnd (c : Char) : Bool :=
  c == '\r' || c == '\n'

/-- A star stands behind spaces and tabs. -/
def starAhead (cs : List Char) : Bool :=
  (cs.dropWhile isSpaceOrTab).head? == some '*'

/-- No line end is followed by spaces and tabs and a star. -/
def NoStarLine : List Char → Prop
  | [] => True
  | c :: cs => ¬(isLineEnd c = true ∧ starAhead cs = true) ∧ NoStarLine cs

instance : (cs : List Char) → Decidable (NoStarLine cs)
  | [] => isTrue trivial
  | c :: cs =>
    have := instDecidableNoStarLine cs
    inferInstanceAs (Decidable (¬(isLineEnd c = true ∧ starAhead cs = true) ∧ NoStarLine cs))

/-- The text does not end in a blank. -/
def SolidEnd (cs : List Char) : Prop :=
  ∀ c, cs.getLast? = some c → isBlank c = false

theorem isBlank_of_isLineEnd {c : Char} (h : isLineEnd c = true) : isBlank c = true := by
  simp only [isLineEnd, Bool.or_eq_true, beq_iff_eq] at h
  rcases h with rfl | rfl <;> decide

theorem isSpaceOrTab_of_solid {c : Char} (h : isBlank c = false) : isSpaceOrTab c = false := by
  cases hc : isSpaceOrTab c with
  | false => rfl
  | true => rw [isBlank_of_isSpaceOrTab hc] at h; cases h

theorem isLineEnd_of_solid {c : Char} (h : isBlank c = false) : isLineEnd c = false := by
  cases hc : isLineEnd c with
  | false => rfl
  | true => rw [isBlank_of_isLineEnd hc] at h; cases h

theorem isLineEnd_of_isSpaceOrTab {c : Char} (h : isSpaceOrTab c = true) : isLineEnd c = false := by
  simp only [isSpaceOrTab, Bool.or_eq_true, beq_iff_eq] at h
  rcases h with rfl | rfl <;> decide

theorem solidEnd_tail {c : Char} {cs : List Char} (h : SolidEnd (c :: cs)) (hne : cs ≠ []) :
    SolidEnd cs := by
  intro d hd
  refine h d ?_
  rw [List.getLast?_cons_of_ne_nil hne, hd]

theorem starAhead_cons_space {c : Char} (h : isSpaceOrTab c = true) (cs : List Char) :
    starAhead (c :: cs) = starAhead cs := by
  rw [starAhead, List.dropWhile_cons_of_pos h, starAhead]

theorem starAhead_cons_other {c : Char} (h : isSpaceOrTab c = false) (cs : List Char) :
    starAhead (c :: cs) = (c == '*') := by
  rw [starAhead, List.dropWhile_cons_of_neg (by rw [h]; exact Bool.false_ne_true)]
  rfl

theorem starAhead_spaces_append {ws : List Char} (h : ∀ c ∈ ws, isSpaceOrTab c = true)
    (cs : List Char) : starAhead (ws ++ cs) = starAhead cs := by
  rw [starAhead, List.dropWhile_append_of_pos h, starAhead]

/-- What is ahead of a text with a solid end is decided inside the text. -/
theorem starAhead_append {s : List Char} (hsolid : SolidEnd s) (hne : s ≠ []) (r : List Char) :
    starAhead (s ++ r) = starAhead s := by
  induction s with
  | nil => exact absurd rfl hne
  | cons c s ih =>
    by_cases hc : isSpaceOrTab c = true
    · have hs : s ≠ [] := by
        rintro rfl
        have := hsolid c rfl
        rw [isBlank_of_isSpaceOrTab hc] at this
        cases this
      rw [List.cons_append, starAhead_cons_space hc, starAhead_cons_space hc]
      exact ih (solidEnd_tail hsolid hs) hs
    · rw [Bool.not_eq_true] at hc
      rw [List.cons_append, starAhead_cons_other hc, starAhead_cons_other hc]

theorem starAhead_left {s : List Char} (h : starAhead s = true) (r : List Char) :
    starAhead (s ++ r) = true := by
  induction s with
  | nil => cases h
  | cons c s ih =>
    by_cases hc : isSpaceOrTab c = true
    · rw [starAhead_cons_space hc] at h
      rw [List.cons_append, starAhead_cons_space hc]
      exact ih h
    · rw [Bool.not_eq_true] at hc
      rw [starAhead_cons_other hc] at h
      rw [List.cons_append, starAhead_cons_other hc, h]

/-- A part of a text has no star lines that the text has not. -/
theorem noStarLine_infix {m cs : List Char} (h : NoStarLine cs) (hm : m <:+: cs) : NoStarLine m := by
  have hleft : ∀ {s r : List Char}, NoStarLine (s ++ r) → NoStarLine s := by
    intro s r
    induction s with
    | nil => exact fun _ => trivial
    | cons c s ih => exact fun h => ⟨fun hc => h.1 ⟨hc.1, starAhead_left hc.2 r⟩, ih h.2⟩
  have hright : ∀ {s r : List Char}, NoStarLine (s ++ r) → NoStarLine r := by
    intro s r
    induction s with
    | nil => exact fun h => h
    | cons c s ih => exact fun h => ih h.2
  obtain ⟨l, r, rfl⟩ := hm
  exact hright (hleft h)

/-! ### The length of a break -/

section BreakLength

variable {t a : Nat} {c : Char} {ws cs : List Char}

theorem breakLength_star : breakLength true t a ('*' :: cs) = breakLength false (t + 1) (t + 1) cs :=
  rfl

theorem breakLength_lineEnd (h : isLineEnd c = true) :
    breakLength false t a (c :: cs) = breakLength true (t + 1) a cs := by
  simp only [isLineEnd, Bool.or_eq_true, beq_iff_eq] at h
  rcases h with rfl | rfl <;> rfl

theorem breakLength_other (hspace : isSpaceOrTab c = false) (hend : isLineEnd c = false) :
    breakLength false t a (c :: cs) = a := by
  simp only [isLineEnd, Bool.or_eq_false_iff, beq_eq_false_iff_ne, ne_eq] at hend
  simp [breakLength, hspace, hend.1, hend.2]

theorem breakLength_stop (hspace : isSpaceOrTab c = false) (hstar : c ≠ '*') :
    breakLength true t a (c :: cs) = a := by
  simp [breakLength, hspace, hstar]

theorem breakLength_spaces_inBreak (h : ∀ c ∈ ws, isSpaceOrTab c = true) :
    breakLength true t a (ws ++ cs) = breakLength true (t + ws.length) a cs := by
  induction ws generalizing t with
  | nil => rfl
  | cons w ws ih =>
    have hw := h w List.mem_cons_self
    have hrest := ih (t := t + 1) fun d hd => h d (List.mem_cons_of_mem _ hd)
    rw [List.cons_append, breakLength, if_pos hw, Bool.or_true, if_pos rfl, hrest, List.length_cons,
      Nat.add_assoc, Nat.add_comm 1]

/-- Behind a star all spaces and tabs belong to the break. -/
theorem breakLength_spaces_accepted (h : ∀ c ∈ ws, isSpaceOrTab c = true) :
    breakLength false (t + 1) (t + 1) (ws ++ cs) =
      breakLength false (t + ws.length + 1) (t + ws.length + 1) cs := by
  induction ws generalizing t with
  | nil => rfl
  | cons w ws ih =>
    have hw := h w List.mem_cons_self
    have hrest := ih (t := t + 1) fun d hd => h d (List.mem_cons_of_mem _ hd)
    rw [List.cons_append, breakLength, if_pos hw, if_neg (by simp), hrest, List.length_cons,
      Nat.add_assoc t 1, Nat.add_comm 1]

/-- A line end and a star, with the spaces and tabs behind them, are taken together. -/
theorem breakLength_starLine {indent : List Char} (hindent : ∀ c ∈ indent, isSpaceOrTab c = true)
    (h : ∀ c ∈ ws, isSpaceOrTab c = true) :
    breakLength false t a ('\n' :: (indent ++ '*' :: (ws ++ cs))) =
      breakLength false (t + ('\n' :: (indent ++ '*' :: ws)).length)
        (t + ('\n' :: (indent ++ '*' :: ws)).length) cs := by
  have hlength : ('\n' :: (indent ++ '*' :: ws)).length = 1 + indent.length + ws.length + 1 := by
    simp only [List.length_cons, List.length_append]
    omega
  rw [breakLength_lineEnd rfl, breakLength_spaces_inBreak hindent, breakLength_star,
    breakLength_spaces_accepted h, hlength]
  congr 1 <;> omega

theorem le_breakLength (cs : List Char) : ∀ {b : Bool} {t a : Nat}, a ≤ t →
    a ≤ breakLength b t a cs ∧ breakLength b t a cs ≤ t + cs.length := by
  induction cs with
  | nil =>
    intro b t a h
    exact ⟨Nat.le_refl _, h⟩
  | cons c cs ih =>
    intro b t a h
    rw [breakLength, List.length_cons]
    split
    · split
      · have := ih (b := b) (show a ≤ t + 1 by omega)
        omega
      · have := ih (b := b) (Nat.le_refl (t + 1))
        omega
    · split
      · split
        · have := ih (b := false) (Nat.le_refl (t + 1))
          omega
        · omega
      · split
        · have := ih (b := true) (show a ≤ t + 1 by omega)
          omega
        · omega

end BreakLength

/-! ### Texts that folding leaves alone -/

theorem breakLength_true_eq_zero {t : Nat} {cs : List Char} (h : starAhead cs = false) :
    breakLength true t 0 cs = 0 := by
  induction cs generalizing t with
  | nil => rfl
  | cons c cs ih =>
    by_cases hc : isSpaceOrTab c = true
    · rw [starAhead_cons_space hc] at h
      rw [breakLength, if_pos hc, if_pos (by simp)]
      exact ih h
    · rw [Bool.not_eq_true] at hc
      rw [starAhead_cons_other hc] at h
      exact breakLength_stop hc (by simpa using h)

/-- No break starts at the head of a text without star lines that has a solid end, or that nothing
follows. -/
theorem breakLength_eq_zero {t : Nat} {s : List Char} (hs : NoStarLine s) (hsolid : SolidEnd s)
    (hne : s ≠ []) (r : List Char) : breakLength false t 0 (s ++ r) = 0 := by
  induction s generalizing t with
  | nil => exact absurd rfl hne
  | cons c s ih =>
    by_cases hc : isSpaceOrTab c = true
    · have hs' : s ≠ [] := by
        rintro rfl
        have := hsolid c rfl
        rw [isBlank_of_isSpaceOrTab hc] at this
        cases this
      rw [List.cons_append, breakLength, if_pos hc, if_pos (by simp)]
      exact ih hs.2 (solidEnd_tail hsolid hs') hs'
    · rw [Bool.not_eq_true] at hc
      by_cases hend : isLineEnd c = true
      · have hs' : s ≠ [] := by
          rintro rfl
          have := hsolid c rfl
          rw [isBlank_of_isLineEnd hend] at this
          cases this
        rw [List.cons_append, breakLength_lineEnd hend]
        refine breakLength_true_eq_zero ?_
        rw [starAhead_append (solidEnd_tail hsolid hs') hs', ← Bool.not_eq_true]
        exact fun hstar => hs.1 ⟨hend, hstar⟩
      · exact breakLength_other hc (by simpa using hend)

theorem foldBreaks_skip (n : Nat) (cs : List Char) : foldBreaks n cs = foldBreaks 0 (cs.drop n) := by
  induction cs generalizing n with
  | nil => rw [List.drop_nil, foldBreaks, foldBreaks]
  | cons c cs ih =>
    cases n with
    | zero => rfl
    | succ n => rw [foldBreaks, List.drop_succ_cons, ih]

theorem foldBreaks_of_zero {c : Char} {cs : List Char} (h : breakLength false 0 0 (c :: cs) = 0) :
    foldBreaks 0 (c :: cs) = c :: foldBreaks 0 cs := by
  rw [foldBreaks, h]

theorem foldBreaks_of_succ {c : Char} {cs : List Char} {n : Nat}
    (h : breakLength false 0 0 (c :: cs) = n + 1) :
    foldBreaks 0 (c :: cs) = ' ' :: foldBreaks 0 (cs.drop n) := by
  rw [foldBreaks, h]
  exact congrArg (' ' :: ·) (foldBreaks_skip n cs)

/-- A break is folded into one space. -/
theorem foldBreaks_break {pre cs : List Char} (hne : pre ≠ [])
    (h : breakLength false 0 0 (pre ++ cs) = pre.length) :
    foldBreaks 0 (pre ++ cs) = ' ' :: foldBreaks 0 cs := by
  obtain ⟨c, pre, rfl⟩ := List.exists_cons_of_ne_nil hne
  rw [List.cons_append, List.length_cons] at h
  rw [List.cons_append, foldBreaks_of_succ h, List.drop_left]

/-- **Folding leaves a text without star lines alone**, whatever follows its solid end. -/
theorem foldBreaks_append {s : List Char} (hs : NoStarLine s) (hsolid : SolidEnd s) (r : List Char) :
    foldBreaks 0 (s ++ r) = s ++ foldBreaks 0 r := by
  induction s with
  | nil => rfl
  | cons c s ih =>
    have hzero : breakLength false 0 0 (c :: (s ++ r)) = 0 :=
      breakLength_eq_zero hs hsolid (List.cons_ne_nil _ _) r
    rw [List.cons_append, foldBreaks_of_zero hzero, List.cons_append]
    by_cases hs' : s = []
    · subst hs'
      rfl
    · rw [ih hs.2 (solidEnd_tail hsolid hs')]

/-- A text on one line stays as it is. -/
theorem foldBreaks_of_oneLine {cs : List Char} (h : ∀ c ∈ cs, isLineEnd c = false) :
    foldBreaks 0 cs = cs := by
  have hzero : ∀ {cs : List Char} {t : Nat}, (∀ c ∈ cs, isLineEnd c = false) →
      breakLength false t 0 cs = 0 := by
    intro cs
    induction cs with
    | nil => exact fun _ => rfl
    | cons c cs ih =>
      intro t hcs
      by_cases hc : isSpaceOrTab c = true
      · rw [breakLength, if_pos hc, if_pos (by simp)]
        exact ih fun d hd => hcs d (List.mem_cons_of_mem _ hd)
      · rw [Bool.not_eq_true] at hc
        exact breakLength_other hc (hcs c List.mem_cons_self)
  induction cs with
  | nil => rfl
  | cons c cs ih =>
    rw [foldBreaks_of_zero (hzero h), ih fun d hd => h d (List.mem_cons_of_mem _ hd)]

section LastLine

variable {ws : List Char} (hws : ∀ c ∈ ws, isSpaceOrTab c = true)

include hws

/-- A last line without a star never takes part in a break. -/
theorem breakLength_lastLine (x : List Char) :
    ∀ {b : Bool} {t a : Nat}, breakLength b t a (x ++ '\n' :: ws) = breakLength b t a x := by
  induction x with
  | nil =>
    intro b t a
    cases b with
    | true => exact breakLength_stop (by decide) (by decide)
    | false =>
      rw [List.nil_append, breakLength_lineEnd rfl, ← List.append_nil ws,
        breakLength_spaces_inBreak hws]
      rfl
  | cons c x ih =>
    intro b t a
    rw [List.cons_append, breakLength, breakLength]
    simp only [ih]

theorem foldBreaks_lastLine (x : List Char) :
    ∀ {n : Nat}, n ≤ x.length → foldBreaks n (x ++ '\n' :: ws) = foldBreaks n x ++ '\n' :: ws := by
  induction x with
  | nil =>
    intro n hn
    have hn0 : n = 0 := Nat.le_zero.mp hn
    subst hn0
    have hzero : breakLength false 0 0 ('\n' :: ws) = 0 := breakLength_lastLine hws []
    rw [List.nil_append, foldBreaks_of_zero hzero,
      foldBreaks_of_oneLine fun c hc => isLineEnd_of_isSpaceOrTab (hws c hc)]
    rfl
  | cons c x ih =>
    intro n hn
    cases n with
    | succ n => exact ih (Nat.le_of_succ_le_succ hn)
    | zero =>
      have hlast := breakLength_lastLine hws (c :: x) (b := false) (t := 0) (a := 0)
      have hle := (le_breakLength (c :: x) (b := false) (Nat.le_refl 0)).2
      cases hlen : breakLength false 0 0 (c :: x) with
      | zero =>
        rw [hlen, List.cons_append] at hlast
        rw [List.cons_append, foldBreaks_of_zero hlast, foldBreaks_of_zero hlen,
          ih (Nat.zero_le _), List.cons_append]
      | succ m =>
        rw [hlen, List.cons_append] at hlast
        rw [hlen, List.length_cons] at hle
        rw [List.cons_append, foldBreaks, hlast, foldBreaks, hlen]
        exact congrArg (' ' :: ·) (ih (by omega))

theorem allBlank_lastLine : AllBlank ('\n' :: ws) := by
  intro c hc
  rcases List.mem_cons.mp hc with rfl | hc
  · decide
  · exact isBlank_of_isSpaceOrTab (hws c hc)

end LastLine

/-! ### The layout of a comment -/

/-- The line end, the indentation and the star between lines. -/
def gap (indent : List Char) : List Char :=
  '\n' :: (indent ++ [' ', '*'])

/-- The line end and the indentation in front of the closing delimiter. -/
def closing (indent : List Char) : List Char :=
  '\n' :: (indent ++ [' '])

/-- What stands between two stanzas: an empty line, and the star and space of the next. -/
def stanzaGap (indent : List Char) : List Char :=
  gap indent ++ (gap indent ++ [' '])

section Layout

variable {indent : List Char} (hindent : ∀ c ∈ indent, isSpaceOrTab c = true)

include hindent

theorem isSpaceOrTab_indent_space : ∀ c ∈ indent ++ [' '], isSpaceOrTab c = true := by
  intro c hc
  rcases List.mem_append.mp hc with hc | hc
  · exact hindent c hc
  · rw [List.mem_singleton.mp hc]
    decide

theorem breakLength_gap {t a : Nat} (cs : List Char) :
    breakLength false t a (gap indent ++ cs) =
      breakLength false (t + (gap indent).length) (t + (gap indent).length) cs := by
  have hline : breakLength false t a ('\n' :: ((indent ++ [' ']) ++ '*' :: ([] ++ cs))) = _ :=
    breakLength_starLine (isSpaceOrTab_indent_space hindent) (List.forall_mem_nil _)
  have hgap : '\n' :: ((indent ++ [' ']) ++ '*' :: []) = gap indent := by
    simp [gap]
  rw [hgap] at hline
  rw [← hline, ← hgap]
  simp

theorem breakLength_gap_space {t a : Nat} {x : List Char}
    (hx : ∀ c, x.head? = some c → isBlank c = false) :
    breakLength false t a (gap indent ++ ' ' :: x) = t + (gap indent).length + 1 := by
  have hlength : t + (gap indent).length = t + (indent.length + 2) + 1 := by
    simp [gap]
    omega
  rw [breakLength_gap hindent, hlength, ← List.singleton_append,
    breakLength_spaces_accepted (by decide)]
  cases x with
  | nil => rfl
  | cons c cs =>
    have hc := hx c rfl
    exact breakLength_other (isSpaceOrTab_of_solid hc) (isLineEnd_of_solid hc)

/-- The gap in front of the first stanza is folded into one space. -/
theorem foldBreaks_gap {x : List Char} (hx : ∀ c, x.head? = some c → isBlank c = false) :
    foldBreaks 0 (gap indent ++ ' ' :: x) = ' ' :: foldBreaks 0 x := by
  have hlength := breakLength_gap_space (t := 0) (a := 0) hindent hx
  rw [List.append_cons] at hlength ⊢
  refine foldBreaks_break (by simp [gap]) ?_
  rw [hlength, List.length_append, Nat.zero_add]
  rfl

/-- So are the two gaps between stanzas. -/
theorem foldBreaks_gaps {x : List Char} (hx : ∀ c, x.head? = some c → isBlank c = false) :
    foldBreaks 0 (gap indent ++ (gap indent ++ ' ' :: x)) = ' ' :: foldBreaks 0 x := by
  have hlength : breakLength false 0 0 (gap indent ++ (gap indent ++ ' ' :: x)) =
      (gap indent).length + (gap indent).length + 1 := by
    rw [breakLength_gap hindent, breakLength_gap_space hindent hx, Nat.zero_add]
  rw [List.append_cons, ← List.append_assoc] at hlength ⊢
  refine foldBreaks_break (by simp [gap]) ?_
  rw [hlength]
  simp only [List.length_append, List.length_singleton]
  omega

theorem foldBreaks_stanzas {ss : List (List Char)}
    (hss : ∀ s ∈ ss, (s ≠ [] ∧ Trimmed s) ∧ NoStarLine s) :
    foldBreaks 0 ((stanzaGap indent).intercalate ss) = [' '].intercalate ss := by
  induction ss with
  | nil => rfl
  | cons s ss ih =>
    obtain ⟨⟨_, htrim⟩, hstar⟩ := hss s List.mem_cons_self
    have hrest : ∀ x ∈ ss, (x ≠ [] ∧ Trimmed x) ∧ NoStarLine x :=
      fun x hx => hss x (List.mem_cons_of_mem _ hx)
    cases ss with
    | nil =>
      have hfold := foldBreaks_append hstar htrim.2 []
      rw [List.append_nil] at hfold
      rw [List.intercalate_singleton, List.intercalate_singleton, hfold]
      exact List.append_nil s
    | cons t ss =>
      have hfront := (trimmed_intercalate (stanzaGap indent)
        fun x hx => (hrest x hx).1).1
      have hgaps := foldBreaks_gaps hindent hfront
      rw [List.intercalate_cons_cons, List.intercalate_cons_cons, List.append_assoc,
        List.append_assoc, foldBreaks_append hstar htrim.2, stanzaGap, List.append_assoc,
        List.append_assoc]
      rw [ih hrest] at hgaps
      exact congrArg (s ++ ·) hgaps

/-- **Folding a written comment** gives its stanzas with one space between them. -/
theorem fold_layout {ss : List (List Char)}
    (hss : ∀ s ∈ ss, (s ≠ [] ∧ Trimmed s) ∧ NoStarLine s) :
    trimChars (foldBreaks 0 (gap indent ++ ' ' ::
      ((stanzaGap indent).intercalate ss ++ closing indent))) =
      [' '].intercalate ss := by
  have htrim := trimmed_intercalate (stanzaGap indent)
    fun s hs => (hss s hs).1
  have hsplit : gap indent ++ ' ' ::
      ((stanzaGap indent).intercalate ss ++ closing indent) =
      (gap indent ++ ' ' :: (stanzaGap indent).intercalate ss) ++
        closing indent := by
    simp
  have hspaces := isSpaceOrTab_indent_space hindent
  rw [hsplit, closing, foldBreaks_lastLine hspaces _ (Nat.zero_le _), foldBreaks_gap hindent htrim.1,
    foldBreaks_stanzas hindent hss]
  exact trimChars_append (l := [' ']) (by decide) (allBlank_lastLine hspaces)
    (trimmed_intercalate _ fun s hs => (hss s hs).1)

end Layout

/-! ### Counting line ends -/

/-- The line ends that no star follows. -/
def bareEnds : List Char → Nat
  | [] => 0
  | c :: cs => (if isLineEnd c && !starAhead cs then 1 else 0) + bareEnds cs

theorem bareEnds_cons_other {c : Char} (h : isLineEnd c = false) (cs : List Char) :
    bareEnds (c :: cs) = bareEnds cs := by
  rw [bareEnds, h, Bool.false_and, if_neg Bool.false_ne_true, Nat.zero_add]

theorem bareEnds_cons_star {c : Char} {cs : List Char} (h : starAhead cs = true) :
    bareEnds (c :: cs) = bareEnds cs := by
  rw [bareEnds, h, Bool.not_true, Bool.and_false, if_neg Bool.false_ne_true, Nat.zero_add]

theorem bareEnds_append {s : List Char} (hsolid : SolidEnd s) (r : List Char) :
    bareEnds (s ++ r) = bareEnds s + bareEnds r := by
  induction s with
  | nil => exact (Nat.zero_add _).symm
  | cons c s ih =>
    by_cases hs : s = []
    · subst hs
      have hc := isLineEnd_of_solid (hsolid c rfl)
      rw [List.cons_append, bareEnds_cons_other hc, bareEnds_cons_other hc]
      exact (Nat.zero_add _).symm
    · have htail := solidEnd_tail hsolid hs
      rw [List.cons_append, bareEnds, bareEnds, starAhead_append htail hs, ih htail, Nat.add_assoc]

theorem bareEnds_le (cs : List Char) : bareEnds cs ≤ cs.countP isLineEnd := by
  induction cs with
  | nil => exact Nat.le_refl 0
  | cons c cs ih =>
    rw [bareEnds, List.countP_cons]
    cases isLineEnd c <;> cases starAhead cs <;> simp <;> omega

/-- A text that keeps all its line ends has no star lines. -/
theorem noStarLine_of_countP_le {cs : List Char} (h : cs.countP isLineEnd ≤ bareEnds cs) :
    NoStarLine cs := by
  induction cs with
  | nil => trivial
  | cons c cs ih =>
    have hle := bareEnds_le cs
    rw [bareEnds, List.countP_cons] at h
    refine ⟨?_, ih ?_⟩
    · rintro ⟨hend, hstar⟩
      simp only [hend, hstar, Bool.not_true, Bool.and_false, Bool.false_eq_true, if_false,
        if_true] at h
      omega
    · cases hend : isLineEnd c <;> cases hstar : starAhead cs <;> simp [hend, hstar] at h <;> omega

theorem bareEnds_of_noStarLine {cs : List Char} (h : NoStarLine cs) :
    bareEnds cs = cs.countP isLineEnd := by
  induction cs with
  | nil => rfl
  | cons c cs ih =>
    have hbare : (isLineEnd c && !starAhead cs) = isLineEnd c := by
      cases hend : isLineEnd c with
      | false => rfl
      | true =>
        cases hstar : starAhead cs with
        | false => rfl
        | true => exact absurd ⟨hend, hstar⟩ h.1
    rw [bareEnds, hbare, ih h.2, List.countP_cons, Nat.add_comm]

/-- What is dropped without a bare line end, with one character more in front that is none. -/
theorem bareEnds_drop_cons {c : Char} {cs : List Char} {n t : Nat} (hn : t + 1 ≤ n)
    (hc : bareEnds (c :: cs) = bareEnds cs) (hdrop : bareEnds (cs.drop (n - (t + 1))) = bareEnds cs) :
    bareEnds ((c :: cs).drop (n - t)) = bareEnds (c :: cs) := by
  have hsub : n - t = n - (t + 1) + 1 := by omega
  rw [hsub, List.drop_succ_cons, hdrop, hc]

/-- A break holds no bare line end: `t` characters lie behind, of which `a` are accepted. -/
theorem breakLength_spec (cs : List Char) : ∀ (b : Bool) (t a : Nat),
    breakLength b t a cs = a ∨
      (t < breakLength b t a cs ∧ (b = true → starAhead cs = true) ∧
        bareEnds (cs.drop (breakLength b t a cs - t)) = bareEnds cs) := by
  induction cs with
  | nil => exact fun _ _ _ => Or.inl rfl
  | cons c cs ih =>
    -- a character that is accepted itself, with nothing behind it
    have hone : ∀ t : Nat, bareEnds (c :: cs) = bareEnds cs →
        bareEnds ((c :: cs).drop (t + 1 - t)) = bareEnds (c :: cs) := by
      intro t hc
      exact bareEnds_drop_cons (Nat.le_refl _) hc (by rw [Nat.sub_self, List.drop_zero])
    intro b t a
    by_cases hspace : isSpaceOrTab c = true
    · have hbare : bareEnds (c :: cs) = bareEnds cs :=
        bareEnds_cons_other (isLineEnd_of_isSpaceOrTab hspace) cs
      rw [breakLength, if_pos hspace]
      split
      · rcases ih b (t + 1) a with h | ⟨hlt, hstar, hdrop⟩
        · exact Or.inl h
        · exact Or.inr ⟨by omega, fun hb => (starAhead_cons_space hspace cs).trans (hstar hb),
            bareEnds_drop_cons (by omega) hbare hdrop⟩
      · rename_i hb
        have hfalse : b = false := by
          cases b with
          | false => rfl
          | true => exact absurd (Bool.or_true _) hb
        subst hfalse
        rcases ih false (t + 1) (t + 1) with h | ⟨hlt, hstar, hdrop⟩
        · rw [h]
          exact Or.inr ⟨by omega, fun hb => (nomatch hb), hone t hbare⟩
        · exact Or.inr ⟨by omega, fun hb => (nomatch hb), bareEnds_drop_cons (by omega) hbare hdrop⟩
    · rw [Bool.not_eq_true] at hspace
      cases b with
      | true =>
        by_cases hc : c = '*'
        · subst hc
          have hbare : bareEnds ('*' :: cs) = bareEnds cs := bareEnds_cons_other (by decide) cs
          rw [breakLength_star]
          rcases ih false (t + 1) (t + 1) with h | ⟨hlt, _, hdrop⟩
          · rw [h]
            exact Or.inr ⟨by omega, fun _ => rfl, hone t hbare⟩
          · exact Or.inr ⟨by omega, fun _ => rfl, bareEnds_drop_cons (by omega) hbare hdrop⟩
        · exact Or.inl (breakLength_stop hspace hc)
      | false =>
        by_cases hend : isLineEnd c = true
        · rw [breakLength_lineEnd hend]
          rcases ih true (t + 1) a with h | ⟨hlt, hstar, hdrop⟩
          · exact Or.inl h
          · exact Or.inr ⟨by omega, fun hb => (nomatch hb),
              bareEnds_drop_cons (by omega) (bareEnds_cons_star (hstar rfl)) hdrop⟩
        · exact Or.inl (breakLength_other hspace (by simpa using hend))

/-- A line end with a star ahead starts a break. -/
theorem breakLength_pos {c : Char} {cs : List Char} (hend : isLineEnd c = true)
    (hstar : starAhead cs = true) : breakLength false 0 0 (c :: cs) ≠ 0 := by
  have hpos : ∀ {cs : List Char} {t : Nat}, starAhead cs = true → 0 < breakLength true t 0 cs := by
    intro cs
    induction cs with
    | nil => exact fun h => nomatch h
    | cons d cs ih =>
      intro t h
      by_cases hd : isSpaceOrTab d = true
      · rw [starAhead_cons_space hd] at h
        rw [breakLength, if_pos hd, if_pos (by simp)]
        exact ih h
      · rw [Bool.not_eq_true] at hd
        rw [starAhead_cons_other hd, beq_iff_eq] at h
        subst h
        rw [breakLength_star]
        have := (le_breakLength cs (b := false) (Nat.le_refl (t + 1))).1
        omega
  rw [breakLength_lineEnd hend]
  exact Nat.ne_of_gt (hpos hstar)

/-- **Folding keeps bare line ends only.** -/
theorem countP_foldBreaks_le (cs : List Char) : ∀ n : Nat,
    (foldBreaks n cs).countP isLineEnd ≤ bareEnds (cs.drop n) := by
  induction cs with
  | nil =>
    intro n
    rw [foldBreaks]
    exact Nat.zero_le _
  | cons c cs ih =>
    intro n
    cases n with
    | succ n => exact ih n
    | zero =>
      rw [List.drop_zero]
      cases hlen : breakLength false 0 0 (c :: cs) with
      | zero =>
        have hrest := ih 0
        rw [List.drop_zero] at hrest
        rw [foldBreaks_of_zero hlen, List.countP_cons, bareEnds]
        by_cases hend : isLineEnd c = true
        · have hstar : starAhead cs = false := by
            cases hstar : starAhead cs with
            | false => rfl
            | true => exact absurd hlen (breakLength_pos hend hstar)
          simp only [hend, hstar, if_true, Bool.not_false, Bool.and_true]
          omega
        · rw [if_neg hend]
          omega
      | succ m =>
        rcases breakLength_spec (c :: cs) false 0 0 with h | ⟨_, _, hdrop⟩
        · rw [hlen] at h
          cases h
        · rw [hlen, Nat.sub_zero, List.drop_succ_cons] at hdrop
          rw [foldBreaks_of_succ hlen, List.countP_cons, if_neg (by decide), ← hdrop,
            ← foldBreaks_skip]
          exact ih m

section LayoutEnds

variable {indent : List Char} (hindent : ∀ c ∈ indent, isSpaceOrTab c = true)

include hindent

theorem bareEnds_gap (x : List Char) : bareEnds (gap indent ++ x) = bareEnds x := by
  have hspaces : ∀ {ws : List Char}, (∀ c ∈ ws, isSpaceOrTab c = true) →
      bareEnds (ws ++ '*' :: x) = bareEnds ('*' :: x) := by
    intro ws
    induction ws with
    | nil => exact fun _ => rfl
    | cons w ws ih =>
      intro hws
      rw [List.cons_append,
        bareEnds_cons_other (isLineEnd_of_isSpaceOrTab (hws w List.mem_cons_self))]
      exact ih fun d hd => hws d (List.mem_cons_of_mem _ hd)
  have hspace := isSpaceOrTab_indent_space hindent
  have hsplit : gap indent ++ x = '\n' :: ((indent ++ [' ']) ++ '*' :: x) := by
    simp [gap]
  have hstar : starAhead ((indent ++ [' ']) ++ '*' :: x) = true := by
    rw [starAhead_spaces_append hspace]
    rfl
  rw [hsplit, bareEnds_cons_star hstar, hspaces hspace]
  exact bareEnds_cons_other (by decide) x

/-- A written comment has no other bare line ends than its stanzas, but for the closing line. -/
theorem countP_fold_layout_le {ss : List (List Char)} (hss : ∀ s ∈ ss, s ≠ [] ∧ Trimmed s) :
    (trimChars (foldBreaks 0 (gap indent ++ ' ' ::
      ((stanzaGap indent).intercalate ss ++ closing indent)))).countP isLineEnd ≤
      (ss.map bareEnds).sum := by
  have hstanzas : bareEnds ((stanzaGap indent).intercalate ss) = (ss.map bareEnds).sum := by
    induction ss with
    | nil => rfl
    | cons s ss ih =>
      have hrest := ih fun x hx => hss x (List.mem_cons_of_mem _ hx)
      cases ss with
      | nil => rw [List.intercalate_singleton, List.map_singleton, List.sum_singleton]
      | cons t ss =>
        rw [List.intercalate_cons_cons, List.append_assoc,
          bareEnds_append (hss s List.mem_cons_self).2.2, stanzaGap, List.append_assoc,
          bareEnds_gap hindent, List.append_assoc, bareEnds_gap hindent, List.map_cons,
          List.sum_cons, ← hrest]
        exact congrArg (bareEnds s + ·) (bareEnds_cons_other (by decide) _)
  have hsplit : gap indent ++ ' ' :: ((stanzaGap indent).intercalate ss ++ closing indent) =
      (gap indent ++ ' ' :: (stanzaGap indent).intercalate ss) ++ closing indent := by
    simp
  have hspaces := isSpaceOrTab_indent_space hindent
  rw [hsplit, closing, foldBreaks_lastLine hspaces _ (Nat.zero_le _),
    trimChars_append_right (allBlank_lastLine hspaces)]
  calc (trimChars (foldBreaks 0 (gap indent ++ ' ' :: (stanzaGap indent).intercalate ss))).countP
        isLineEnd
      ≤ (foldBreaks 0 (gap indent ++ ' ' :: (stanzaGap indent).intercalate ss)).countP isLineEnd :=
        (sublist_trimChars _).countP_le
    _ ≤ bareEnds (gap indent ++ ' ' :: (stanzaGap indent).intercalate ss) :=
        countP_foldBreaks_le _ 0
    _ = bareEnds ((stanzaGap indent).intercalate ss) := by
        rw [bareEnds_gap hindent, bareEnds_cons_other (by decide)]
    _ = (ss.map bareEnds).sum := hstanzas

end LayoutEnds

end Rigging.Doc
