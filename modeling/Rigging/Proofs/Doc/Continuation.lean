import Rigging.Proofs.Doc.Fold

/-!
# What folding folds

A break is one or more line ends, each with a star behind it and with spaces and tabs in between, and
the spaces and tabs around them (`IsBreak`).  Folding goes through a text from the left: where a break
starts, the longest one becomes a space, and any other character stays (`Folds`).  `folds_iff` says
that this is what `foldBreaks` does: its counters find the longest break at the head of a text
(`longest_breakLength`).
-/

namespace Rigging.Doc

open Rigging.Text

/-- Only spaces and tabs. -/
def OnlySpaces (cs : List Char) : Prop := ∀ c ∈ cs, isSpaceOrTab c = true

instance (cs : List Char) : Decidable (OnlySpaces cs) :=
  inferInstanceAs (Decidable (∀ c ∈ cs, isSpaceOrTab c = true))

/-- Line ends with a star behind each, and the spaces and tabs around them. -/
inductive IsBreak : List Char → Prop
  | last {l m s : List Char} {e : Char} : OnlySpaces l → isLineEnd e = true → OnlySpaces m →
      OnlySpaces s → IsBreak (l ++ e :: (m ++ '*' :: s))
  | more {l m rest : List Char} {e : Char} : OnlySpaces l → isLineEnd e = true → OnlySpaces m →
      IsBreak rest → IsBreak (l ++ e :: (m ++ '*' :: rest))

/-- Each break, from the left and as long as possible, becomes one space; all else stays. -/
inductive Folds : List Char → List Char → Prop
  | nil : Folds [] []
  | keep {c : Char} {cs out : List Char} : (∀ pre, pre <+: c :: cs → ¬IsBreak pre) →
      Folds cs out → Folds (c :: cs) (c :: out)
  | fold {pre cs out : List Char} : IsBreak pre →
      (∀ longer, longer <+: pre ++ cs → IsBreak longer → longer.length ≤ pre.length) →
      Folds cs out → Folds (pre ++ cs) (' ' :: out)

/-! ### The parts of a break -/

/-- What may stand behind a star of a break. -/
def BehindStar (cs : List Char) : Prop := OnlySpaces cs ∨ IsBreak cs

/-- What may stand behind a line end of a break. -/
def BehindLineEnd (cs : List Char) : Prop :=
  ∃ m tail, OnlySpaces m ∧ BehindStar tail ∧ cs = m ++ '*' :: tail

theorem isBreak_iff {cs : List Char} :
    IsBreak cs ↔ ∃ l e rest, OnlySpaces l ∧ isLineEnd e = true ∧ BehindLineEnd rest ∧
      cs = l ++ e :: rest := by
  constructor
  · intro h
    cases h with
    | @last l m s e hl he hm hs => exact ⟨l, e, _, hl, he, ⟨m, s, hm, Or.inl hs, rfl⟩, rfl⟩
    | @more l m rest e hl he hm hrest => exact ⟨l, e, _, hl, he, ⟨m, rest, hm, Or.inr hrest, rfl⟩, rfl⟩
  · rintro ⟨l, e, _, hl, he, ⟨m, tail, hm, htail, rfl⟩, rfl⟩
    rcases htail with hs | hbreak
    · exact .last hl he hm hs
    · exact .more hl he hm hbreak

theorem onlySpaces_cons {c : Char} {cs : List Char} :
    OnlySpaces (c :: cs) ↔ isSpaceOrTab c = true ∧ OnlySpaces cs :=
  List.forall_mem_cons

/-- Spaces in front of another character, seen from the head of the text. -/
theorem spaces_append_eq_cons {l rest cs : List Char} {x c : Char} (hl : OnlySpaces l)
    (hx : isSpaceOrTab x = false) (h : c :: cs = l ++ x :: rest) :
    (isSpaceOrTab c = true ∧ ∃ l', OnlySpaces l' ∧ cs = l' ++ x :: rest) ∨ (c = x ∧ cs = rest) := by
  cases l with
  | nil =>
    obtain ⟨rfl, rfl⟩ := List.cons.inj h
    exact Or.inr ⟨rfl, rfl⟩
  | cons d l =>
    obtain ⟨rfl, rfl⟩ := List.cons.inj h
    obtain ⟨hc, hl⟩ := onlySpaces_cons.mp hl
    exact Or.inl ⟨hc, l, hl, rfl⟩

theorem isSpaceOrTab_of_isLineEnd {c : Char} (h : isLineEnd c = true) : isSpaceOrTab c = false := by
  cases hc : isSpaceOrTab c with
  | false => rfl
  | true => rw [isLineEnd_of_isSpaceOrTab hc] at h; cases h

theorem not_isBreak_nil : ¬IsBreak [] := by
  intro h
  obtain ⟨l, e, rest, _, _, _, heq⟩ := isBreak_iff.mp h
  simp at heq

theorem isBreak_cons {c : Char} {cs : List Char} :
    IsBreak (c :: cs) ↔
      (isSpaceOrTab c = true ∧ IsBreak cs) ∨ (isLineEnd c = true ∧ BehindLineEnd cs) := by
  rw [isBreak_iff]
  constructor
  · rintro ⟨l, e, rest, hl, he, hrest, heq⟩
    rcases spaces_append_eq_cons hl (isSpaceOrTab_of_isLineEnd he) heq with
      ⟨hc, l', hl', rfl⟩ | ⟨rfl, rfl⟩
    · exact Or.inl ⟨hc, isBreak_iff.mpr ⟨l', e, rest, hl', he, hrest, rfl⟩⟩
    · exact Or.inr ⟨he, hrest⟩
  · rintro (⟨hc, hbreak⟩ | ⟨hc, hrest⟩)
    · obtain ⟨l, e, rest, hl, he, hrest, rfl⟩ := isBreak_iff.mp hbreak
      exact ⟨c :: l, e, rest, onlySpaces_cons.mpr ⟨hc, hl⟩, he, hrest, rfl⟩
    · exact ⟨[], c, cs, List.forall_mem_nil _, hc, hrest, rfl⟩

theorem behindStar_nil : BehindStar [] := Or.inl (List.forall_mem_nil _)

theorem behindStar_cons {c : Char} {cs : List Char} :
    BehindStar (c :: cs) ↔
      (isSpaceOrTab c = true ∧ BehindStar cs) ∨ (isLineEnd c = true ∧ BehindLineEnd cs) := by
  rw [BehindStar, BehindStar, onlySpaces_cons, isBreak_cons, and_or_left, or_assoc]

theorem not_behindLineEnd_nil : ¬BehindLineEnd [] := by
  rintro ⟨m, tail, _, _, heq⟩
  simp at heq

theorem behindLineEnd_cons {c : Char} {cs : List Char} :
    BehindLineEnd (c :: cs) ↔
      (isSpaceOrTab c = true ∧ BehindLineEnd cs) ∨ (c = '*' ∧ BehindStar cs) := by
  constructor
  · rintro ⟨m, tail, hm, htail, heq⟩
    rcases spaces_append_eq_cons hm (by decide) heq with ⟨hc, m', hm', rfl⟩ | ⟨rfl, rfl⟩
    · exact Or.inl ⟨hc, m', tail, hm', htail, rfl⟩
    · exact Or.inr ⟨rfl, htail⟩
  · rintro (⟨hc, m, tail, hm, htail, rfl⟩ | ⟨rfl, htail⟩)
    · exact ⟨c :: m, tail, onlySpaces_cons.mpr ⟨hc, hm⟩, htail, rfl⟩
    · exact ⟨[], cs, List.forall_mem_nil _, htail, rfl⟩

/-! ### The longest break -/

/-- With `t` characters behind it, a text has `n` characters up to the end of its longest prefix of a
kind; or it has no such prefix and `n` is `a`. -/
def Longest (P : List Char → Prop) (t a : Nat) (cs : List Char) (n : Nat) : Prop :=
  (∃ pre, pre <+: cs ∧ P pre ∧ n = t + pre.length ∧
      ∀ longer, longer <+: cs → P longer → longer.length ≤ pre.length) ∨
    (n = a ∧ ∀ pre, pre <+: cs → ¬P pre)

section Longest

variable {P Q : List Char → Prop} {t a a' n : Nat} {c : Char} {cs : List Char}

/-- Nothing but the empty prefix is left to try. -/
theorem longest_of_nil (hnil : P [] → a = t) (hstop : ∀ pre, pre <+: cs → pre ≠ [] → ¬P pre) :
    Longest P t a cs a := by
  by_cases hP : P []
  · refine Or.inl ⟨[], List.nil_prefix, hP, hnil hP, fun longer hprefix hlonger => ?_⟩
    by_contra hlength
    exact hstop longer hprefix (List.ne_nil_of_length_pos (Nat.lt_of_not_le hlength)) hlonger
  · refine Or.inr ⟨rfl, fun pre hprefix hpre => ?_⟩
    by_cases hne : pre = []
    · exact hP (hne ▸ hpre)
    · exact hstop pre hprefix hne hpre

theorem longest_end (hnil : P [] → a = t) : Longest P t a [] a :=
  longest_of_nil hnil fun _ hprefix hne => absurd (List.prefix_nil.mp hprefix) hne

theorem longest_stop (hnil : P [] → a = t) (hstop : ∀ pre, ¬P (c :: pre)) :
    Longest P t a (c :: cs) a := by
  refine longest_of_nil hnil fun pre hprefix hne => ?_
  obtain ⟨d, pre, rfl⟩ := List.exists_cons_of_ne_nil hne
  obtain ⟨rfl, _⟩ := List.cons_prefix_cons.mp hprefix
  exact hstop pre

/-- One character more: what is found behind it, with the character in front. -/
theorem longest_cons (hnil : P [] → a = t) (hstep : ∀ pre, P (c :: pre) ↔ Q pre)
    (haccept : Q [] ∨ a' = a) (h : Longest Q (t + 1) a' cs n) : Longest P t a (c :: cs) n := by
  rcases h with ⟨pre, hprefix, hpre, rfl, hlongest⟩ | ⟨rfl, hnone⟩
  · refine Or.inl ⟨c :: pre, List.cons_prefix_cons.mpr ⟨rfl, hprefix⟩, (hstep pre).mpr hpre, ?_, ?_⟩
    · rw [List.length_cons]
      omega
    · intro longer hlonger hP
      cases longer with
      | nil => exact Nat.zero_le _
      | cons d longer =>
        obtain ⟨rfl, hrest⟩ := List.cons_prefix_cons.mp hlonger
        exact Nat.succ_le_succ (hlongest longer hrest ((hstep longer).mp hP))
  · obtain rfl : n = a := haccept.resolve_left (hnone [] List.nil_prefix)
    refine longest_of_nil hnil fun pre hprefix hne hP => ?_
    obtain ⟨d, pre, rfl⟩ := List.exists_cons_of_ne_nil hne
    obtain ⟨rfl, hrest⟩ := List.cons_prefix_cons.mp hprefix
    exact hnone pre hrest ((hstep pre).mp hP)

end Longest

/-- What is looked for, by the state of the counters: behind a line end, at the start, behind a
star. -/
def Awaited (inBreak : Bool) (accepted : Nat) : List Char → Prop :=
  if inBreak then BehindLineEnd else if accepted = 0 then IsBreak else BehindStar

theorem awaited_nil {inBreak : Bool} {t a : Nat} (hstate : inBreak = false → a = 0 ∨ a = t)
    (h : Awaited inBreak a []) : a = t := by
  cases inBreak with
  | true => exact absurd h not_behindLineEnd_nil
  | false =>
    rcases hstate rfl with rfl | heq
    · exact absurd h not_isBreak_nil
    · exact heq

/-- A space or tab in front changes nothing. -/
theorem awaited_cons_space {c : Char} (h : isSpaceOrTab c = true) (inBreak : Bool) (a : Nat)
    (cs : List Char) : Awaited inBreak a (c :: cs) ↔ Awaited inBreak a cs := by
  have hend : isLineEnd c = false := isLineEnd_of_isSpaceOrTab h
  have hstar : c ≠ '*' := by
    rintro rfl
    cases h
  unfold Awaited
  split
  · simp [behindLineEnd_cons, h, hstar]
  · split
    · simp [isBreak_cons, h, hend]
    · simp [behindStar_cons, h, hend]

theorem awaited_cons_lineEnd {c : Char} (h : isLineEnd c = true) (a : Nat) (cs : List Char) :
    Awaited false a (c :: cs) ↔ BehindLineEnd cs := by
  have hspace := isSpaceOrTab_of_isLineEnd h
  rw [Awaited, if_neg Bool.false_ne_true]
  split
  · simp [isBreak_cons, h, hspace]
  · simp [behindStar_cons, h, hspace]

theorem not_awaited_cons {c : Char} (hspace : isSpaceOrTab c = false) (hend : isLineEnd c = false)
    (a : Nat) (cs : List Char) : ¬Awaited false a (c :: cs) := by
  rw [Awaited, if_neg Bool.false_ne_true]
  split
  · simp [isBreak_cons, hspace, hend]
  · simp [behindStar_cons, hspace, hend]

/-- **The counters find the longest break.**  When no line end is pending, either nothing has been
accepted or everything has. -/
theorem longest_breakLength (cs : List Char) : ∀ (inBreak : Bool) (t a : Nat),
    (inBreak = false → a = 0 ∨ a = t) →
    Longest (Awaited inBreak a) t a cs (breakLength inBreak t a cs) := by
  induction cs with
  | nil => exact fun inBreak t a hstate => longest_end (awaited_nil hstate)
  | cons c cs ih =>
    intro inBreak t a hstate
    by_cases hspace : isSpaceOrTab c = true
    · rw [breakLength, if_pos hspace]
      split
      · rename_i hkeep
        refine longest_cons (awaited_nil hstate) (awaited_cons_space hspace inBreak a) (Or.inr rfl)
          (ih inBreak (t + 1) a fun hb => Or.inl ?_)
        simpa [hb] using hkeep
      · -- behind a star the character is accepted at once
        rename_i haccept
        rw [Bool.or_eq_true, decide_eq_true_eq, not_or, Bool.not_eq_true] at haccept
        obtain ⟨ha, rfl⟩ := haccept
        have hstar : Awaited false a = Awaited false (t + 1) := by
          rw [Awaited, Awaited, if_neg ha, if_neg (Nat.succ_ne_zero t)]
        refine longest_cons (awaited_nil hstate) (awaited_cons_space hspace false a) ?_
          (hstar ▸ ih false (t + 1) (t + 1) fun _ => Or.inr rfl)
        exact Or.inl (hstar ▸ behindStar_nil)
    · rw [Bool.not_eq_true] at hspace
      cases inBreak with
      | true =>
        by_cases hc : c = '*'
        · subst hc
          refine longest_cons (awaited_nil hstate) (fun pre => ?_) (Or.inl behindStar_nil)
            (ih false (t + 1) (t + 1) fun _ => Or.inr rfl)
          exact behindLineEnd_cons.trans (by simp [hspace])
        · rw [breakLength_stop hspace hc]
          refine longest_stop (awaited_nil hstate) fun pre hpre => ?_
          simpa [hspace, hc] using behindLineEnd_cons.mp hpre
      | false =>
        by_cases hend : isLineEnd c = true
        · rw [breakLength_lineEnd hend]
          exact longest_cons (awaited_nil hstate) (awaited_cons_lineEnd hend a) (Or.inr rfl)
            (ih true (t + 1) a fun hb => by cases hb)
        · rw [Bool.not_eq_true] at hend
          rw [breakLength_other hspace hend]
          exact longest_stop (awaited_nil hstate) (not_awaited_cons hspace hend a)

/-! ### Folding -/

/-- No break starts where the counters find none. -/
theorem breakLength_eq_zero_iff {cs : List Char} :
    breakLength false 0 0 cs = 0 ↔ ∀ pre, pre <+: cs → ¬IsBreak pre := by
  have hlongest : Longest IsBreak 0 0 cs (breakLength false 0 0 cs) :=
    longest_breakLength cs false 0 0 fun _ => Or.inl rfl
  rcases hlongest with ⟨pre, hprefix, hbreak, hlength, _⟩ | ⟨hzero, hnone⟩
  · refine ⟨fun hzero => absurd hbreak ?_, fun hnone => absurd hbreak (hnone pre hprefix)⟩
    obtain rfl : pre = [] := List.eq_nil_of_length_eq_zero (by omega)
    exact not_isBreak_nil
  · exact ⟨fun _ => hnone, fun _ => hzero⟩

theorem breakLength_eq_iff {pre cs : List Char} (hne : pre ≠ []) :
    breakLength false 0 0 (pre ++ cs) = pre.length ↔ IsBreak pre ∧
      ∀ longer, longer <+: pre ++ cs → IsBreak longer → longer.length ≤ pre.length := by
  have hpos : 0 < pre.length := List.length_pos_iff.mpr hne
  have hlongest : Longest IsBreak 0 0 (pre ++ cs) (breakLength false 0 0 (pre ++ cs)) :=
    longest_breakLength (pre ++ cs) false 0 0 fun _ => Or.inl rfl
  rcases hlongest with ⟨found, hprefix, hbreak, hlength, hmax⟩ | ⟨hzero, hnone⟩
  · rw [Nat.zero_add] at hlength
    rw [hlength]
    constructor
    · intro heq
      have hwithin : found <+: pre :=
        List.prefix_of_prefix_length_le hprefix (List.prefix_append pre cs) (Nat.le_of_eq heq)
      obtain rfl : found = pre := hwithin.eq_of_length heq
      exact ⟨hbreak, hmax⟩
    · rintro ⟨hpre, hmax'⟩
      exact Nat.le_antisymm (hmax' found hprefix hbreak) (hmax pre (List.prefix_append pre cs) hpre)
  · refine ⟨fun heq => by omega, fun h => absurd h.1 (hnone pre (List.prefix_append pre cs))⟩

theorem folds_foldBreaks (cs : List Char) : ∀ n, Folds (cs.drop n) (foldBreaks n cs) := by
  induction cs with
  | nil =>
    intro n
    rw [List.drop_nil, foldBreaks]
    exact .nil
  | cons c cs ih =>
    intro n
    cases n with
    | succ n => exact ih n
    | zero =>
      rw [List.drop_zero]
      cases hlen : breakLength false 0 0 (c :: cs) with
      | zero =>
        rw [foldBreaks_of_zero hlen]
        exact .keep (breakLength_eq_zero_iff.mp hlen) (ih 0)
      | succ m =>
        have hle := (le_breakLength (c :: cs) (b := false) (Nat.le_refl 0)).2
        rw [hlen, List.length_cons] at hle
        have hsplit : c :: cs = (c :: cs.take m) ++ cs.drop m := by
          rw [List.cons_append, List.take_append_drop]
        have hlength : (c :: cs.take m).length = m + 1 := by
          rw [List.length_cons, List.length_take]
          omega
        rw [foldBreaks_of_succ hlen, ← foldBreaks_skip]
        rw [hsplit, ← hlength] at hlen
        obtain ⟨hbreak, hmax⟩ := (breakLength_eq_iff (List.cons_ne_nil _ _)).mp hlen
        rw [hsplit]
        exact .fold hbreak hmax (ih m)

/-- **Folding replaces the longest breaks from the left.** -/
theorem folds_iff {cs out : List Char} : Folds cs out ↔ out = foldBreaks 0 cs := by
  constructor
  · intro h
    induction h with
    | nil => rfl
    | keep hnone _ ih => rw [foldBreaks_of_zero (breakLength_eq_zero_iff.mpr hnone), ih]
    | @fold pre cs out hbreak hmax _ ih =>
      have hne : pre ≠ [] := fun hnil => not_isBreak_nil (hnil ▸ hbreak)
      rw [foldBreaks_break hne ((breakLength_eq_iff hne).mpr ⟨hbreak, hmax⟩), ih]
  · rintro rfl
    exact folds_foldBreaks cs 0

end Rigging.Doc
