import Mathlib.Algebra.Ring.Nat
import Rigging.Doc.Union
import Rigging.Proofs.Text.Blank

/-!
# Splitting and joining unions

`IsUnion` says which lists are lists of members: each is a trimmed text without a bar of its own, and
all but the last close every bracket they open.  Splitting gives such lists (`isUnion_members`), and
splitting undoes joining for exactly this reason, whatever blanks stand around the bars
(`members_intercalate`).  For texts, these are the lists that joining and splitting leaves as they are
(`split_join_iff_isUnion`).
-/

namespace Rigging.Union

open Rigging.Text

/-- The depth of angle brackets behind a text. -/
def depthBehind (depth : Nat) (cs : List Char) : Nat :=
  cs.foldl depthAfter depth

/-- No bar at depth zero. -/
def NoBar : Nat → List Char → Prop
  | _, [] => True
  | depth, c :: cs => ¬(c = '|' ∧ depth = 0) ∧ NoBar (depthAfter depth c) cs

instance : (depth : Nat) → (cs : List Char) → Decidable (NoBar depth cs)
  | _, [] => isTrue trivial
  | depth, c :: cs =>
    have := instDecidableNoBar (depthAfter depth c) cs
    inferInstanceAs (Decidable (¬(c = '|' ∧ depth = 0) ∧ NoBar (depthAfter depth c) cs))

/-- A member of a union. -/
structure IsMember (m : List Char) : Prop where
  ne_nil : m ≠ []
  trimmed : Trimmed m
  noBar : NoBar 0 m

/-- The members of a union: every one but the last is back at depth zero. -/
structure IsUnion (ms : List (List Char)) : Prop where
  member : ∀ m ∈ ms, IsMember m
  closed : ∀ m ∈ ms.dropLast, depthBehind 0 m = 0

theorem depthBehind_append (depth : Nat) (cs ds : List Char) :
    depthBehind depth (cs ++ ds) = depthBehind (depthBehind depth cs) ds :=
  List.foldl_append

theorem noBar_append {depth : Nat} {cs ds : List Char} :
    NoBar depth (cs ++ ds) ↔ NoBar depth cs ∧ NoBar (depthBehind depth cs) ds := by
  induction cs generalizing depth with
  | nil => simp [NoBar, depthBehind]
  | cons c cs ih =>
    show _ ∧ NoBar _ (cs ++ ds) ↔ (_ ∧ NoBar _ cs) ∧ NoBar (depthBehind _ cs) ds
    rw [ih, and_assoc]

theorem depthAfter_blank {c : Char} (h : isBlank c = true) (depth : Nat) :
    depthAfter depth c = depth := by
  have hlt : c ≠ '<' := fun he => by rw [he] at h; exact absurd h (by decide)
  have hgt : c ≠ '>' := fun he => by rw [he] at h; exact absurd h (by decide)
  rw [depthAfter, if_neg hlt, if_neg hgt]

theorem depthBehind_blank {cs : List Char} (h : AllBlank cs) (depth : Nat) :
    depthBehind depth cs = depth := by
  induction cs with
  | nil => rfl
  | cons c cs ih =>
    show depthBehind (depthAfter depth c) cs = depth
    rw [depthAfter_blank (h c List.mem_cons_self)]
    exact ih fun d hd => h d (List.mem_cons_of_mem _ hd)

theorem noBar_of_not_mem {cs : List Char} (h : '|' ∉ cs) (depth : Nat) : NoBar depth cs := by
  induction cs generalizing depth with
  | nil => trivial
  | cons c cs ih =>
    rw [List.mem_cons, not_or] at h
    exact ⟨fun hc => h.1 hc.1.symm, ih h.2 _⟩

theorem noBar_blank {cs : List Char} (h : AllBlank cs) (depth : Nat) : NoBar depth cs :=
  noBar_of_not_mem (fun hmem => absurd (h '|' hmem) (by decide)) depth

/-! ### Joining, then splitting -/

theorem pieces_cons_bar {depth : Nat} {c : Char} (h : c = '|' ∧ depth = 0) (cs : List Char) :
    pieces depth (c :: cs) = ([], (pieces 0 cs).1 :: (pieces 0 cs).2) := by
  obtain ⟨rfl, rfl⟩ := h
  rfl

theorem pieces_cons_other {depth : Nat} {c : Char} (h : ¬(c = '|' ∧ depth = 0)) (cs : List Char) :
    pieces depth (c :: cs) =
      (c :: (pieces (depthAfter depth c) cs).1, (pieces (depthAfter depth c) cs).2) := by
  have hc : (c = '|' && depth = 0 : Bool) = false := by simpa using h
  rw [pieces, hc]
  rfl

theorem pieces_of_noBar {depth : Nat} {cs : List Char} (h : NoBar depth cs) :
    pieces depth cs = (cs, []) := by
  induction cs generalizing depth with
  | nil => rfl
  | cons c cs ih => rw [pieces_cons_other h.1, ih h.2]

theorem pieces_append_bar {depth : Nat} {cs : List Char} (h : NoBar depth cs)
    (hdepth : depthBehind depth cs = 0) (rest : List Char) :
    pieces depth (cs ++ '|' :: rest) = (cs, (pieces 0 rest).1 :: (pieces 0 rest).2) := by
  induction cs generalizing depth with
  | nil =>
    have h0 : depth = 0 := hdepth
    subst h0
    rfl
  | cons c cs ih => rw [List.cons_append, pieces_cons_other h.1, ih h.2 hdepth]

/-- All pieces between the bars. -/
def parts (cs : List Char) : List (List Char) :=
  (pieces 0 cs).1 :: (pieces 0 cs).2

theorem members_eq (cs : List Char) :
    members cs = ((parts cs).map trimChars).filter fun m => !m.isEmpty := rfl

/-- Pieces that are joined by bars are found again. -/
theorem parts_intercalate {ps : List (List Char)} (hne : ps ≠ [])
    (hpieces : ∀ p ∈ ps, NoBar 0 p ∧ depthBehind 0 p = 0) : parts (['|'].intercalate ps) = ps := by
  induction ps with
  | nil => exact absurd rfl hne
  | cons p ps ih =>
    obtain ⟨hno, hclosed⟩ := hpieces p List.mem_cons_self
    cases ps with
    | nil => rw [List.intercalate_singleton, parts, pieces_of_noBar hno]
    | cons q ps =>
      have hrest := ih (List.cons_ne_nil _ _) fun x hx => hpieces x (List.mem_cons_of_mem _ hx)
      have hsplit : ['|'].intercalate (p :: q :: ps) = p ++ '|' :: ['|'].intercalate (q :: ps) := by
        simp [List.intercalate_cons_cons]
      rw [hsplit, parts, pieces_append_bar hno hclosed]
      exact congrArg (p :: ·) hrest

/-- The trimmed pieces of members that are joined by a bar with blanks around it.  The induction puts
the blanks behind a bar in front of the next member. -/
theorem trimmed_parts_intercalate {l r : List Char} (hl : AllBlank l) (hr : AllBlank r)
    {ms : List (List Char)} (hms : IsUnion ms) (hne : ms ≠ []) :
    ∀ {before : List Char}, AllBlank before →
    (parts (before ++ (l ++ '|' :: r).intercalate ms)).map trimChars = ms := by
  induction ms with
  | nil => exact absurd rfl hne
  | cons m ms ih =>
    intro before hbefore
    have hm := hms.member m List.mem_cons_self
    cases ms with
    | nil =>
      have hno : NoBar 0 (before ++ m) :=
        noBar_append.mpr ⟨noBar_blank hbefore 0, by rw [depthBehind_blank hbefore]; exact hm.noBar⟩
      rw [List.intercalate_singleton, parts, pieces_of_noBar hno, List.map_singleton,
        trimChars_append_left hbefore, trimChars_of_trimmed hm.trimmed]
    | cons m' ms =>
      have hclosed : depthBehind 0 m = 0 := hms.closed m List.mem_cons_self
      have hdepth : depthBehind 0 (before ++ m ++ l) = 0 := by
        rw [depthBehind_append, depthBehind_append, depthBehind_blank hbefore, hclosed,
          depthBehind_blank hl]
      have hno : NoBar 0 (before ++ m ++ l) := by
        refine noBar_append.mpr ⟨noBar_append.mpr ⟨noBar_blank hbefore 0, ?_⟩, noBar_blank hl _⟩
        rw [depthBehind_blank hbefore]
        exact hm.noBar
      have hrest : IsUnion (m' :: ms) :=
        ⟨fun x hx => hms.member x (List.mem_cons_of_mem _ hx),
          fun x hx => hms.closed x (List.mem_cons_of_mem _ hx)⟩
      have hsplit : before ++ (l ++ '|' :: r).intercalate (m :: m' :: ms) =
          (before ++ m ++ l) ++ '|' :: (r ++ (l ++ '|' :: r).intercalate (m' :: ms)) := by
        simp [List.intercalate_cons_cons]
      rw [hsplit, parts, pieces_append_bar hno hdepth, List.map_cons,
        trimChars_append hbefore hl hm.trimmed]
      exact congrArg (m :: ·) (ih hrest (List.cons_ne_nil _ _) hr)

/-- **Splitting undoes joining**, with or without blanks around the bars. -/
theorem members_intercalate {l r : List Char} (hl : AllBlank l) (hr : AllBlank r)
    {ms : List (List Char)} (hms : IsUnion ms) :
    members ((l ++ '|' :: r).intercalate ms) = ms := by
  by_cases hne : ms = []
  · subst hne
    rfl
  · have hparts := trimmed_parts_intercalate hl hr hms hne (fun c (hc : c ∈ []) => nomatch hc)
    rw [List.nil_append] at hparts
    rw [members_eq, hparts, List.filter_eq_self]
    intro m hm
    rw [Bool.not_eq_true', List.isEmpty_eq_false_iff]
    exact (hms.member m hm).ne_nil

theorem members_joined {ms : List (List Char)} (hms : IsUnion ms) :
    members (['|'].intercalate ms) = ms := by
  have hnone : AllBlank [] := fun _ hc => nomatch hc
  exact members_intercalate hnone hnone hms

/-! ### Splitting gives members -/

/-- What splitting guarantees of the pieces, from any depth on. -/
theorem pieces_spec (cs : List Char) : ∀ depth,
    NoBar depth (pieces depth cs).1 ∧
      ((pieces depth cs).2 ≠ [] → depthBehind depth (pieces depth cs).1 = 0) ∧
      (∀ p ∈ (pieces depth cs).2, NoBar 0 p) ∧
      ∀ p ∈ (pieces depth cs).2.dropLast, depthBehind 0 p = 0 := by
  induction cs with
  | nil => exact fun _ => ⟨trivial, fun h => absurd rfl h, fun _ h => (nomatch h), fun _ h => (nomatch h)⟩
  | cons c cs ih =>
    intro depth
    by_cases hc : c = '|' ∧ depth = 0
    · obtain ⟨hno, hdepth, hothers, hclosed⟩ := ih 0
      rw [pieces_cons_bar hc]
      refine ⟨trivial, fun _ => hc.2, ?_, ?_⟩
      · intro p hp
        rcases List.mem_cons.mp hp with rfl | hp
        · exact hno
        · exact hothers p hp
      · intro p hp
        by_cases hnil : (pieces 0 cs).2 = []
        · rw [hnil] at hp
          cases hp
        · rw [List.dropLast_cons_of_ne_nil hnil] at hp
          rcases List.mem_cons.mp hp with rfl | hp
          · exact hdepth hnil
          · exact hclosed p hp
    · obtain ⟨hno, hdepth, hothers, hclosed⟩ := ih (depthAfter depth c)
      rw [pieces_cons_other hc]
      exact ⟨⟨hc, hno⟩, hdepth, hothers, hclosed⟩

theorem noBar_trimChars {cs : List Char} (h : NoBar 0 cs) : NoBar 0 (trimChars cs) := by
  obtain ⟨l, r, hcs, hl, _⟩ := trimChars_split cs
  rw [hcs, noBar_append, noBar_append, depthBehind_blank hl] at h
  exact h.1.2

theorem depthBehind_trimChars (cs : List Char) : depthBehind 0 (trimChars cs) = depthBehind 0 cs := by
  obtain ⟨l, r, hcs, hl, hr⟩ := trimChars_split cs
  calc depthBehind 0 (trimChars cs) = depthBehind 0 (l ++ trimChars cs ++ r) := by
        rw [depthBehind_append, depthBehind_append, depthBehind_blank hl, depthBehind_blank hr]
    _ = depthBehind 0 cs := by rw [← hcs]

theorem mem_dropLast_filter {α : Type} {p : α → Bool} {xs : List α} {x : α}
    (h : x ∈ (xs.filter p).dropLast) : x ∈ xs.dropLast := by
  induction xs with
  | nil => exact h
  | cons y ys ih =>
    by_cases hy : p y = true
    · rw [List.filter_cons_of_pos hy] at h
      by_cases hnil : ys.filter p = []
      · rw [hnil] at h
        cases h
      · have hys : ys ≠ [] := fun he => hnil (by rw [he]; rfl)
        rw [List.dropLast_cons_of_ne_nil hnil] at h
        rw [List.dropLast_cons_of_ne_nil hys]
        rcases List.mem_cons.mp h with rfl | h
        · exact List.mem_cons_self
        · exact List.mem_cons_of_mem _ (ih h)
    · rw [List.filter_cons_of_neg hy] at h
      have hmem := ih h
      have hys : ys ≠ [] := fun he => by rw [he] at hmem; cases hmem
      rw [List.dropLast_cons_of_ne_nil hys]
      exact List.mem_cons_of_mem _ hmem

/-- **Splitting gives the members of a union.** -/
theorem isUnion_members (cs : List Char) : IsUnion (members cs) := by
  obtain ⟨hno, hdepth, hothers, hclosed⟩ := pieces_spec cs 0
  have hparts : ∀ p ∈ parts cs, NoBar 0 p := by
    intro p hp
    rcases List.mem_cons.mp hp with rfl | hp
    · exact hno
    · exact hothers p hp
  have hpartsClosed : ∀ p ∈ (parts cs).dropLast, depthBehind 0 p = 0 := by
    intro p hp
    by_cases hnil : (pieces 0 cs).2 = []
    · rw [parts, hnil] at hp
      cases hp
    · rw [parts, List.dropLast_cons_of_ne_nil hnil] at hp
      rcases List.mem_cons.mp hp with rfl | hp
      · exact hdepth hnil
      · exact hclosed p hp
  rw [members_eq]
  refine ⟨?_, ?_⟩
  · intro m hm
    obtain ⟨hm, hne⟩ := List.mem_filter.mp hm
    obtain ⟨p, hp, rfl⟩ := List.mem_map.mp hm
    refine ⟨?_, trimmed_trimChars p, noBar_trimChars (hparts p hp)⟩
    rw [Bool.not_eq_true', List.isEmpty_eq_false_iff] at hne
    exact hne
  · intro m hm
    have hm := mem_dropLast_filter hm
    rw [← List.map_dropLast] at hm
    obtain ⟨p, hp, rfl⟩ := List.mem_map.mp hm
    rw [depthBehind_trimChars]
    exact hpartsClosed p hp

/-! ### Members are parts of the text -/

theorem pieces_infix (cs : List Char) : ∀ depth,
    (pieces depth cs).1 <+: cs ∧ ∀ p ∈ (pieces depth cs).2, p <:+: cs := by
  induction cs with
  | nil => exact fun _ => ⟨List.prefix_rfl, fun _ hp => (nomatch hp)⟩
  | cons c cs ih =>
    intro depth
    by_cases hc : c = '|' ∧ depth = 0
    · obtain ⟨hfirst, hothers⟩ := ih 0
      rw [pieces_cons_bar hc]
      refine ⟨List.nil_prefix, fun p hp => ?_⟩
      rcases List.mem_cons.mp hp with rfl | hp
      · exact hfirst.isInfix.trans (List.suffix_cons c cs).isInfix
      · exact (hothers p hp).trans (List.suffix_cons c cs).isInfix
    · obtain ⟨hfirst, hothers⟩ := ih (depthAfter depth c)
      rw [pieces_cons_other hc]
      refine ⟨List.cons_prefix_cons.mpr ⟨rfl, hfirst⟩, fun p hp => ?_⟩
      exact (hothers p hp).trans (List.suffix_cons c cs).isInfix

theorem infix_of_mem_members {cs m : List Char} (h : m ∈ members cs) : m <:+: cs := by
  obtain ⟨hfirst, hothers⟩ := pieces_infix cs 0
  rw [members_eq] at h
  obtain ⟨p, hp, rfl⟩ := List.mem_map.mp (List.mem_filter.mp h).1
  have hpart : p <:+: cs := by
    rcases List.mem_cons.mp hp with rfl | hp
    · exact hfirst.isInfix
    · exact hothers p hp
  obtain ⟨l, r, hsplit, _, _⟩ := trimChars_split p
  have htrim : trimChars p <:+: p := ⟨l, r, hsplit.symm⟩
  exact htrim.trans hpart

theorem sum_countP_pieces_le (p : Char → Bool) (cs : List Char) : ∀ depth,
    (pieces depth cs).1.countP p + ((pieces depth cs).2.map (List.countP p)).sum ≤ cs.countP p := by
  induction cs with
  | nil => exact fun _ => Nat.le_refl 0
  | cons c cs ih =>
    intro depth
    by_cases hc : c = '|' ∧ depth = 0
    · have hrest := ih 0
      rw [pieces_cons_bar hc, List.map_cons, List.sum_cons, List.countP_nil, Nat.zero_add, List.countP_cons]
      omega
    · have hrest := ih (depthAfter depth c)
      rw [pieces_cons_other hc, List.countP_cons, List.countP_cons]
      dsimp only
      omega

/-- Members hold no more of any character than the text. -/
theorem sum_countP_members_le (p : Char → Bool) (cs : List Char) :
    ((members cs).map (List.countP p)).sum ≤ cs.countP p := by
  have htrim : ∀ ps : List (List Char),
      (((ps.map trimChars).filter fun m => !m.isEmpty).map (List.countP p)).sum ≤
        (ps.map (List.countP p)).sum := by
    intro ps
    induction ps with
    | nil => exact Nat.le_refl 0
    | cons x ps ih =>
      have hx : (trimChars x).countP p ≤ x.countP p := (sublist_trimChars x).countP_le
      rw [List.map_cons, List.filter_cons, List.map_cons, List.sum_cons]
      split
      · rw [List.map_cons, List.sum_cons]
        omega
      · omega
  rw [members_eq]
  exact Nat.le_trans (htrim _) (sum_countP_pieces_le p cs 0)

/-! ### The same for strings -/

theorem map_ofList_toList (types : List String) :
    (types.map String.toList).map String.ofList = types := by
  rw [List.map_map]
  exact (List.map_congr_left fun _ _ => String.ofList_toList).trans (List.map_id _)

theorem map_toList_ofList (ms : List (List Char)) : (ms.map String.ofList).map String.toList = ms := by
  rw [List.map_map]
  exact (List.map_congr_left fun _ _ => String.toList_ofList).trans (List.map_id _)

theorem toList_join (types : List String) :
    (join types).toList = ['|'].intercalate (types.map String.toList) :=
  String.toList_intercalate

/-- Splitting undoes joining of strings. -/
theorem split_join {types : List String} (h : IsUnion (types.map String.toList)) :
    split (join types) = types := by
  rw [split, toList_join, members_joined h, map_ofList_toList]

/-- So it does with a space on either side of each bar. -/
theorem split_spaced {types : List String} (h : IsUnion (types.map String.toList)) :
    split (String.intercalate " | " types) = types := by
  have hblank : AllBlank [' '] := by decide
  have hmembers := members_intercalate hblank hblank h
  rw [split, String.toList_intercalate]
  exact (congrArg (List.map String.ofList) hmembers).trans (map_ofList_toList types)

theorem isUnion_split (text : String) : IsUnion ((split text).map String.toList) := by
  rw [split, map_toList_ofList]
  exact isUnion_members text.toList

/-- **Splitting inverts joining**, for the members of a union and for no other list.  Splitting gives
members of a union whatever the text, with brackets that are not closed or close nothing too, so that a
text that is joined again from what was found in it has the same members. -/
theorem split_join_iff_isUnion :
    (∀ types : List String, split (join types) = types ↔ IsUnion (types.map String.toList)) ∧
      (∀ text : String, IsUnion ((split text).map String.toList)) ∧
      ∀ text : String, split (join (split text)) = split text := by
  refine ⟨fun types => ⟨fun hsame => ?_, split_join⟩, isUnion_split, fun text => ?_⟩
  · rw [← hsame]
    exact isUnion_split _
  · exact split_join (isUnion_split text)

example : split " A<B|C>|>D| |E<F|G" = ["A<B|C>", ">D", "E<F|G"] := by decide

theorem split_of_isMember {s : String} (h : IsMember s.toList) : split s = [s] := by
  have hunion : IsUnion ([s].map String.toList) :=
    ⟨fun m hm => List.mem_singleton.mp hm ▸ h, fun m hm => (nomatch hm)⟩
  rw [← split_join hunion]
  exact congrArg split String.intercalate_singleton.symm

end Rigging.Union
