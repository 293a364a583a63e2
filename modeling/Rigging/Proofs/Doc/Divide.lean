import Mathlib.Algebra.Ring.Nat
import Rigging.Proofs.Doc.Name
import Rigging.Proofs.Text.Blank

/-!
# Dividing a text at its tags

`NoTag` says that no tag starts inside a text.  Such a text stays in one piece (`divide_append_space`), a
tag with such a value behind it is divided from what follows (`divide_follow`), and the pieces that
dividing gives are all of this kind (`divide_spec`).
-/

namespace Rigging.Doc

open Rigging.Text

/-- An at sign with a letter behind it. -/
def startsTag : List Char → Bool
  | '@' :: c :: _ => isTagLetter c
  | _ => false

/-- No tag starts in the text; `wordStart` says that a word may start at its head. -/
def NoTag (wordStart : Bool) : List Char → Prop
  | [] => True
  | c :: cs => ¬(wordStart = true ∧ startsTag (c :: cs) = true) ∧ NoTag (isBlank c) cs

instance : (wordStart : Bool) → (cs : List Char) → Decidable (NoTag wordStart cs)
  | _, [] => isTrue trivial
  | wordStart, c :: cs =>
    have := instDecidableNoTag (isBlank c) cs
    inferInstanceAs (Decidable (¬(wordStart = true ∧ startsTag (c :: cs) = true) ∧
      NoTag (isBlank c) cs))

/-- Whether a word may start behind a text. -/
def wordStartBehind (wordStart : Bool) : List Char → Bool
  | [] => wordStart
  | c :: cs => wordStartBehind (isBlank c) cs

theorem startsTag_cons {c : Char} {cs : List Char} :
    startsTag (c :: cs) = true ↔ c = '@' ∧ ∃ d ds, cs = d :: ds ∧ isTagLetter d = true := by
  constructor
  · intro h
    unfold startsTag at h
    split at h
    · rename_i heq
      obtain ⟨rfl, rfl⟩ := List.cons.inj heq
      exact ⟨rfl, _, _, rfl, h⟩
    · cases h
  · rintro ⟨rfl, d, ds, rfl, hd⟩
    exact hd

theorem noTag_false_of_noTag {w : Bool} {cs : List Char} (h : NoTag w cs) : NoTag false cs := by
  cases cs with
  | nil => trivial
  | cons c cs => exact ⟨fun hc => absurd hc.1 Bool.false_ne_true, h.2⟩

/-- At the start of a word the head matters too. -/
theorem noTag_true_iff {cs : List Char} :
    NoTag true cs ↔ NoTag false cs ∧ startsTag cs = false := by
  cases cs with
  | nil => exact ⟨fun _ => ⟨trivial, rfl⟩, fun _ => trivial⟩
  | cons c cs =>
    refine ⟨fun h => ⟨noTag_false_of_noTag h, ?_⟩, fun h => ⟨?_, h.1.2⟩⟩
    · rw [← Bool.not_eq_true]
      exact fun hs => h.1 ⟨rfl, hs⟩
    · rintro ⟨_, hs⟩
      rw [h.2] at hs
      cases hs

theorem noTag_of_not_mem {cs : List Char} (h : '@' ∉ cs) (w : Bool) : NoTag w cs := by
  induction cs generalizing w with
  | nil => trivial
  | cons c cs ih =>
    rw [List.mem_cons, not_or] at h
    exact ⟨fun hc => h.1 (startsTag_cons.mp hc.2).1.symm, ih h.2 _⟩

theorem noTag_left {s r : List Char} : ∀ {w : Bool}, NoTag w (s ++ r) → NoTag w s := by
  induction s with
  | nil => exact fun _ => trivial
  | cons c s ih =>
    intro w h
    refine ⟨?_, ih h.2⟩
    rintro ⟨hw, hs⟩
    obtain ⟨hc, d, ds, rfl, hd⟩ := startsTag_cons.mp hs
    exact h.1 ⟨hw, startsTag_cons.mpr ⟨hc, d, ds ++ r, rfl, hd⟩⟩

theorem noTag_right {s r : List Char} : ∀ {w : Bool}, NoTag w (s ++ r) →
    NoTag (wordStartBehind w s) r := by
  induction s with
  | nil => exact fun h => h
  | cons c s ih => exact fun h => ih h.2

/-- Texts without tags in a row have none, unless an at sign and a letter meet. -/
theorem noTag_append {s r : List Char} : ∀ {w : Bool}, NoTag w s → NoTag (wordStartBehind w s) r →
    (s.getLast? = some '@' → ∀ c, r.head? = some c → isTagLetter c = false) → NoTag w (s ++ r) := by
  induction s with
  | nil => exact fun _ hr _ => hr
  | cons c s ih =>
    intro w hs hr hmeet
    refine ⟨?_, ih hs.2 hr ?_⟩
    · rintro ⟨hw, hstarts⟩
      obtain ⟨rfl, d, ds, hds, hd⟩ := startsTag_cons.mp hstarts
      cases s with
      | nil =>
        have hletter := hmeet rfl d (congrArg List.head? hds)
        rw [hd] at hletter
        cases hletter
      | cons e s =>
        obtain ⟨rfl, rfl⟩ := List.cons.inj hds
        exact hs.1 ⟨hw, startsTag_cons.mpr ⟨rfl, e, s, rfl, hd⟩⟩
    · intro hlast
      cases s with
      | nil => cases hlast
      | cons e s =>
        refine hmeet ?_
        rw [List.getLast?_cons_cons]
        exact hlast

/-- A character that is no part of a tag may stand between texts. -/
theorem noTag_glue {w : Bool} {s r : List Char} {c : Char} (hs : NoTag w s) (hat : c ≠ '@')
    (hletter : isTagLetter c = false) (hr : NoTag (isBlank c) r) : NoTag w (s ++ c :: r) := by
  refine noTag_append hs ⟨fun hc => hat (startsTag_cons.mp hc.2).1, hr⟩ fun _ d hd => ?_
  rw [← Option.some.inj hd]
  exact hletter

/-! ### Dividing texts without tags -/

/-- Whether a tag is found is decided by the head of the text behind the at sign. -/
theorem divide_cons {w : Bool} {c : Char} {cs text : List Char} {tagged : List (List Char × List Char)}
    (hrest : divide (isBlank c) cs = (text, tagged))
    (hno : ¬(w = true ∧ startsTag (c :: text) = true)) :
    divide w (c :: cs) = (c :: text, tagged) := by
  have hcond : (c = '@' && w && !(text.span isTagLetter).1.isEmpty : Bool) = false := by
    rw [← Bool.not_eq_true]
    intro h
    simp only [Bool.and_eq_true, decide_eq_true_eq, Bool.not_eq_true', List.span_eq_takeWhile_dropWhile,
      List.isEmpty_eq_false_iff] at h
    obtain ⟨⟨rfl, hw⟩, hletters⟩ := h
    refine hno ⟨hw, ?_⟩
    cases text with
    | nil => exact absurd rfl hletters
    | cons d ds =>
      refine startsTag_cons.mpr ⟨rfl, d, ds, rfl, ?_⟩
      by_contra hd
      exact hletters (List.takeWhile_cons_of_neg hd)
  simp only [divide, hrest, hcond, Bool.false_eq_true, if_false]

theorem divide_of_noTag {s : List Char} : ∀ {w : Bool}, NoTag w s → divide w s = (s, []) := by
  induction s with
  | nil => exact fun _ => rfl
  | cons c s ih => exact fun h => divide_cons (ih h.2) h.1

/-- **A text without tags stays in one piece** with the space behind it. -/
theorem divide_append_space {s : List Char} (r : List Char) : ∀ {w : Bool}, NoTag w s →
    divide w (s ++ ' ' :: r) = (s ++ ' ' :: (divide true r).1, (divide true r).2) := by
  induction s with
  | nil =>
    intro w _
    refine divide_cons rfl ?_
    rintro ⟨_, hs⟩
    exact absurd (startsTag_cons.mp hs).1 (by decide)
  | cons c s ih =>
    intro w h
    refine divide_cons (ih h.2) ?_
    rintro ⟨hw, hs⟩
    obtain ⟨hc, d, ds, hds, hd⟩ := startsTag_cons.mp hs
    cases s with
    | nil =>
      obtain ⟨rfl, _⟩ := List.cons.inj hds
      exact absurd hd (by decide)
    | cons e s =>
      obtain ⟨rfl, _⟩ := List.cons.inj hds
      exact h.1 ⟨hw, startsTag_cons.mpr ⟨hc, e, s, rfl, hd⟩⟩

/-! ### Dividing stanzas -/

/-- A tag's letters with the text behind them: letters, at least one, and a text without tags that
stands apart from them. -/
structure IsEntry (letters value : List Char) : Prop where
  ne_nil : letters ≠ []
  all_letters : ∀ c ∈ letters, isTagLetter c = true
  noTag : NoTag false value
  apart : ∀ c, value.head? = some c → isBlank c = true

theorem wordStartBehind_letters {letters : List Char} (h : ∀ c ∈ letters, isTagLetter c = true) :
    wordStartBehind false letters = false := by
  induction letters with
  | nil => rfl
  | cons c cs ih =>
    rw [wordStartBehind, isBlank_of_isTagLetter (h c List.mem_cons_self)]
    exact ih fun d hd => h d (List.mem_cons_of_mem _ hd)

theorem IsEntry.noTag_text {letters value : List Char} (h : IsEntry letters value) :
    NoTag false (letters ++ value) := by
  have hat : '@' ∉ letters := fun hmem => absurd (h.all_letters _ hmem) (by decide)
  refine noTag_append (noTag_of_not_mem hat false) ?_ fun hlast => ?_
  · rw [wordStartBehind_letters h.all_letters]
    exact h.noTag
  · exact absurd (List.mem_of_getLast? hlast) hat

/-- An at sign in front of letters starts a tag. -/
theorem divide_tag {letters rest cs : List Char} {tagged : List (List Char × List Char)}
    (hne : letters ≠ []) (hall : ∀ c ∈ letters, isTagLetter c = true)
    (hrest : ∀ c, rest.head? = some c → isTagLetter c = false)
    (h : divide false cs = (letters ++ rest, tagged)) :
    divide true ('@' :: cs) = ([], ('@' :: letters, rest) :: tagged) := by
  have hspan := span_append hall hrest
  have hblank : isBlank '@' = false := by decide
  have hempty : letters.isEmpty = false := List.isEmpty_eq_false_iff.mpr hne
  simp only [divide, hblank, h, hspan, hempty, decide_true, Bool.and_true, Bool.not_false, if_true]

/-- The text of a tag with what stands behind it. -/
def tagText (e : List Char × List Char) : List Char :=
  '@' :: (e.1 ++ e.2)

/-- Texts of tags, a space behind each, in front of a rest. -/
def follow (es : List (List Char × List Char)) (rest : List Char) : List Char :=
  es.foldr (fun e text => tagText e ++ ' ' :: text) rest

/-- A single tag. -/
theorem divide_tagText {letters value : List Char} (h : IsEntry letters value) :
    divide true (tagText (letters, value)) = ([], [('@' :: letters, value)]) :=
  divide_tag h.ne_nil h.all_letters (fun c hc => isTagLetter_of_isBlank (h.apart c hc))
    (divide_of_noTag h.noTag_text)

/-- **Tags are divided from what follows them** if it starts with a tag of its own. -/
theorem divide_follow {es : List (List Char × List Char)} (hes : ∀ e ∈ es, IsEntry e.1 e.2)
    {rest : List Char} (hrest : (divide true rest).1 = []) :
    divide true (follow es rest) =
      ([], es.map (fun e => ('@' :: e.1, e.2 ++ [' '])) ++ (divide true rest).2) := by
  induction es with
  | nil => exact Prod.ext hrest rfl
  | cons e es ih =>
    have he := hes e List.mem_cons_self
    have htail := ih fun x hx => hes x (List.mem_cons_of_mem _ hx)
    have hinner : divide false ((e.1 ++ e.2) ++ ' ' :: follow es rest) =
        (e.1 ++ (e.2 ++ [' ']),
          es.map (fun e => ('@' :: e.1, e.2 ++ [' '])) ++ (divide true rest).2) := by
      rw [divide_append_space _ he.noTag_text, htail, List.append_assoc]
    refine divide_tag he.ne_nil he.all_letters ?_ hinner
    intro c hc
    cases hvalue : e.2 with
    | nil =>
      rw [hvalue] at hc
      obtain rfl := Option.some.inj hc
      decide
    | cons d ds =>
      rw [hvalue] at hc
      exact isTagLetter_of_isBlank (he.apart c (by rw [hvalue]; exact hc))

theorem intercalate_tagText (es : List (List Char × List Char)) (e : List Char × List Char)
    (more : List (List Char × List Char)) :
    [' '].intercalate ((es ++ e :: more).map tagText) =
      follow es (tagText e ++ more.flatMap fun x => ' ' :: tagText x) := by
  induction es with
  | nil =>
    rw [List.nil_append, List.map_cons, intercalate_cons, List.flatMap_map]
    rfl
  | cons x es ih =>
    obtain ⟨y, ys, hys⟩ := List.exists_cons_of_ne_nil (l := (es ++ e :: more).map tagText) (by simp)
    rw [List.cons_append, List.map_cons, hys, List.intercalate_cons_cons, ← hys, ih]
    show _ = tagText x ++ ' ' :: follow es _
    rw [List.append_assoc]
    rfl

/-! ### What dividing gives -/

theorem noTag_dropWhile_letters {text : List Char} (h : NoTag false text) :
    NoTag false (text.dropWhile isTagLetter) := by
  have hsplit := List.takeWhile_append_dropWhile (p := isTagLetter) (l := text)
  rw [← hsplit] at h
  have hright := noTag_right h
  rwa [wordStartBehind_letters fun c hc => List.mem_takeWhile_imp hc] at hright

/-- The tag that is found at an at sign, and the text behind it. -/
theorem divide_of_startsTag {cs : List Char} (h : startsTag ('@' :: (divide false cs).1) = true) :
    (divide false cs).1.takeWhile isTagLetter ≠ [] ∧
      divide true ('@' :: cs) = ([], ('@' :: (divide false cs).1.takeWhile isTagLetter,
        (divide false cs).1.dropWhile isTagLetter) :: (divide false cs).2) := by
  obtain ⟨_, d, ds, htext, hd⟩ := startsTag_cons.mp h
  have hne : (divide false cs).1.takeWhile isTagLetter ≠ [] := by
    rw [htext, List.takeWhile_cons_of_pos hd]
    exact List.cons_ne_nil _ _
  refine ⟨hne, divide_tag hne (fun c hc => List.mem_takeWhile_imp hc) ?_ ?_⟩
  · intro c hc
    have := List.head?_dropWhile_not isTagLetter (divide false cs).1
    rw [hc] at this
    simpa using this
  · rw [List.takeWhile_append_dropWhile]

/-- **The pieces of a divided text**: no tag starts in any of them. -/
theorem divide_spec (cs : List Char) : ∀ w : Bool,
    NoTag w (divide w cs).1 ∧ ∀ t ∈ (divide w cs).2, ∃ letters, t.1 = '@' :: letters ∧
      letters ≠ [] ∧ (∀ c ∈ letters, isTagLetter c = true) ∧ NoTag false t.2 := by
  induction cs with
  | nil => exact fun _ => ⟨trivial, fun _ ht => (nomatch ht)⟩
  | cons c cs ih =>
    intro w
    obtain ⟨hfirst, htagged⟩ := ih (isBlank c)
    by_cases htag : w = true ∧ startsTag (c :: (divide (isBlank c) cs).1) = true
    · obtain ⟨rfl, hstarts⟩ := htag
      obtain ⟨rfl, _⟩ := startsTag_cons.mp hstarts
      have hblank : isBlank '@' = false := by decide
      rw [hblank] at hfirst htagged hstarts
      obtain ⟨hne, hdivide⟩ := divide_of_startsTag hstarts
      rw [hdivide]
      refine ⟨trivial, fun t ht => ?_⟩
      rcases List.mem_cons.mp ht with rfl | ht
      · exact ⟨_, rfl, hne, fun c hc => List.mem_takeWhile_imp hc, noTag_dropWhile_letters hfirst⟩
      · exact htagged t ht
    · have hdivide : divide w (c :: cs) = (c :: (divide (isBlank c) cs).1, (divide (isBlank c) cs).2) :=
        divide_cons rfl htag
      rw [hdivide]
      exact ⟨⟨htag, hfirst⟩, htagged⟩

/-- Dividing loses nothing but at signs and letters. -/
theorem countP_divide {p : Char → Bool} (hat : p '@' = false)
    (hletter : ∀ c, isTagLetter c = true → p c = false) (cs : List Char) : ∀ w : Bool,
    (divide w cs).1.countP p + ((divide w cs).2.map fun t => t.2.countP p).sum = cs.countP p := by
  induction cs with
  | nil => exact fun _ => rfl
  | cons c cs ih =>
    intro w
    have hrest := ih (isBlank c)
    by_cases htag : w = true ∧ startsTag (c :: (divide (isBlank c) cs).1) = true
    · obtain ⟨rfl, hstarts⟩ := htag
      obtain ⟨rfl, _⟩ := startsTag_cons.mp hstarts
      have hblank : isBlank '@' = false := by decide
      rw [hblank] at hrest hstarts
      obtain ⟨_, hdivide⟩ := divide_of_startsTag hstarts
      have hzero : ((divide false cs).1.takeWhile isTagLetter).countP p = 0 :=
        List.countP_eq_zero.mpr fun c hc => by
          rw [hletter c (List.mem_takeWhile_imp hc)]
          exact Bool.false_ne_true
      have hsplit := congrArg (List.countP p)
        (List.takeWhile_append_dropWhile (p := isTagLetter) (l := (divide false cs).1))
      rw [List.countP_append, hzero, Nat.zero_add] at hsplit
      rw [hdivide, List.map_cons, List.sum_cons, hsplit, List.countP_cons, hat,
        if_neg Bool.false_ne_true]
      simpa using hrest
    · have hdivide : divide w (c :: cs) = (c :: (divide (isBlank c) cs).1, (divide (isBlank c) cs).2) :=
        divide_cons rfl htag
      rw [hdivide]
      dsimp only
      rw [List.countP_cons, List.countP_cons, ← hrest]
      omega

end Rigging.Doc
