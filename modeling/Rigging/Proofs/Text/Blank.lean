import Mathlib.Data.List.TakeWhile
import Rigging.Text.Blank

/-!
# Trimmed texts

A text is *trimmed* when neither of its ends is blank.  Trimming leaves exactly such texts alone, and
it takes back whatever blanks have been put around one (`trimChars_append`).
-/

namespace Rigging.Text

/-- Only blanks. -/
def AllBlank (cs : List Char) : Prop := ∀ c ∈ cs, isBlank c = true

/-- No blank at either end. -/
def Trimmed (cs : List Char) : Prop :=
  (∀ c, cs.head? = some c → isBlank c = false) ∧ ∀ c, cs.getLast? = some c → isBlank c = false

/-- What holds of each character of a text is decided by going through the text.  The priority puts
this before going through all characters there are. -/
instance (priority := 2000) decidableAllChars (p : Char → Prop) [DecidablePred p]
    (cs : List Char) : Decidable (∀ c ∈ cs, p c) :=
  List.decidableBAll p cs

instance (cs : List Char) : Decidable (AllBlank cs) :=
  inferInstanceAs (Decidable (∀ c ∈ cs, isBlank c = true))

/-- A check that `Trimmed` is decided by. -/
theorem trimmed_iff (cs : List Char) :
    Trimmed cs ↔ cs.head?.all (fun c => !isBlank c) ∧ cs.getLast?.all fun c => !isBlank c := by
  simp [Trimmed, Option.all_eq_true]

instance (cs : List Char) : Decidable (Trimmed cs) := decidable_of_iff' _ (trimmed_iff cs)

theorem isBlank_of_isSpaceOrTab {c : Char} (h : isSpaceOrTab c = true) : isBlank c = true := by
  simp only [isSpaceOrTab, Bool.or_eq_true, beq_iff_eq] at h
  rcases h with rfl | rfl <;> decide

theorem trimmed_nil : Trimmed [] := ⟨fun _ h => (nomatch h), fun _ h => (nomatch h)⟩

/-- A text that is not empty decides how what starts with it starts. -/
theorem head?_append_of_ne_nil {l : List Char} (hl : l ≠ []) (r : List Char) :
    (l ++ r).head? = l.head? := by
  obtain ⟨c, l, rfl⟩ := List.exists_cons_of_ne_nil hl
  rfl

/-- And how what ends with it ends. -/
theorem getLast?_append_of_ne_nil (l : List Char) {r : List Char} (hr : r ≠ []) :
    (l ++ r).getLast? = r.getLast? := by
  obtain ⟨d, hd⟩ := Option.ne_none_iff_exists'.mp (mt List.getLast?_eq_none_iff.mp hr)
  rw [List.getLast?_append, hd]
  rfl

theorem mem_intercalate {sep : List Char} {xs : List (List Char)} {a : Char}
    (h : a ∈ sep.intercalate xs) : a ∈ sep ∨ ∃ x ∈ xs, a ∈ x := by
  induction xs with
  | nil => exact nomatch h
  | cons x xs ih =>
    cases xs with
    | nil =>
      rw [List.intercalate_singleton] at h
      exact Or.inr ⟨x, List.mem_cons_self, h⟩
    | cons y ys =>
      rw [List.intercalate_cons_cons, List.mem_append, List.mem_append] at h
      rcases h with (h | h) | h
      · exact Or.inr ⟨x, List.mem_cons_self, h⟩
      · exact Or.inl h
      · exact (ih h).imp id fun ⟨z, hz, ha⟩ => ⟨z, List.mem_cons_of_mem _ hz, ha⟩

theorem intercalate_cons (sep a : List Char) (xs : List (List Char)) :
    sep.intercalate (a :: xs) = a ++ xs.flatMap (sep ++ ·) := by
  induction xs generalizing a with
  | nil => simp
  | cons x xs ih => rw [List.intercalate_cons_cons, ih, List.flatMap_cons, List.append_assoc,
      List.append_assoc]

theorem intercalate_ne_nil {sep : List Char} {ss : List (List Char)} (hne : ss ≠ [])
    (h : ∀ s ∈ ss, s ≠ []) : sep.intercalate ss ≠ [] := by
  obtain ⟨s, ss, rfl⟩ := List.exists_cons_of_ne_nil hne
  have hs := h s List.mem_cons_self
  cases ss with
  | nil => rwa [List.intercalate_singleton]
  | cons t ss =>
    rw [List.intercalate_cons_cons, List.append_assoc]
    exact List.append_ne_nil_of_left_ne_nil hs _

/-- Trimmed texts with something between them are trimmed. -/
theorem trimmed_intercalate (sep : List Char) {ss : List (List Char)}
    (h : ∀ s ∈ ss, s ≠ [] ∧ Trimmed s) : Trimmed (sep.intercalate ss) := by
  induction ss with
  | nil => exact trimmed_nil
  | cons s ss ih =>
    obtain ⟨hne, htrim⟩ := h s List.mem_cons_self
    have hrest := ih fun x hx => h x (List.mem_cons_of_mem _ hx)
    cases ss with
    | nil => rwa [List.intercalate_singleton]
    | cons t ss =>
      have hne' : sep.intercalate (t :: ss) ≠ [] :=
        intercalate_ne_nil (List.cons_ne_nil _ _) fun x hx => (h x (List.mem_cons_of_mem _ hx)).1
      refine ⟨?_, ?_⟩
      · rw [List.intercalate_cons_cons, List.append_assoc, head?_append_of_ne_nil hne]
        exact htrim.1
      · rw [List.intercalate_cons_cons, getLast?_append_of_ne_nil _ hne']
        exact hrest.2

theorem dropBlanks_of_head {cs : List Char} (h : ∀ c, cs.head? = some c → isBlank c = false) :
    dropBlanks cs = cs := by
  cases cs with
  | nil => rfl
  | cons c cs => exact List.dropWhile_cons_of_neg (by rw [h c rfl]; exact Bool.false_ne_true)

theorem dropBlanks_append {l : List Char} (hl : AllBlank l) (cs : List Char) :
    dropBlanks (l ++ cs) = dropBlanks cs :=
  List.dropWhile_append_of_pos hl

theorem dropBlanksEnd_append {r : List Char} (hr : AllBlank r) (cs : List Char) :
    dropBlanksEnd (cs ++ r) = dropBlanksEnd cs := by
  have hrev : AllBlank r.reverse := fun c hc => hr c (List.mem_reverse.mp hc)
  rw [dropBlanksEnd, dropBlanksEnd, List.reverse_append, List.dropWhile_append_of_pos hrev]

theorem dropBlanksEnd_of_last {cs : List Char}
    (h : ∀ c, cs.getLast? = some c → isBlank c = false) : dropBlanksEnd cs = cs := by
  have hrev : dropBlanks cs.reverse = cs.reverse :=
    dropBlanks_of_head fun c hc => h c (by rwa [List.head?_reverse] at hc)
  rw [dropBlanks] at hrev
  rw [dropBlanksEnd, hrev, List.reverse_reverse]

/-- Trimming leaves a trimmed text alone. -/
theorem trimChars_of_trimmed {cs : List Char} (h : Trimmed cs) : trimChars cs = cs := by
  rw [trimChars, dropBlanks_of_head h.1, dropBlanksEnd_of_last h.2]

theorem trimChars_of_allBlank {cs : List Char} (h : AllBlank cs) : trimChars cs = [] := by
  have hdrop : dropBlanks cs = [] := List.dropWhile_eq_nil_iff.mpr h
  rw [trimChars, hdrop]
  rfl

theorem trimChars_append_left {l : List Char} (hl : AllBlank l) (cs : List Char) :
    trimChars (l ++ cs) = trimChars cs := by
  rw [trimChars, dropBlanks_append hl, ← trimChars]

theorem trimChars_append_right {r : List Char} (hr : AllBlank r) (cs : List Char) :
    trimChars (cs ++ r) = trimChars cs := by
  by_cases h : AllBlank cs
  · have hall : AllBlank (cs ++ r) := fun c hc => (List.mem_append.mp hc).elim (h c) (hr c)
    rw [trimChars_of_allBlank hall, trimChars_of_allBlank h]
  · have hne : (cs.dropWhile isBlank).isEmpty = false := by
      rw [List.isEmpty_eq_false_iff]
      exact fun he => h (List.dropWhile_eq_nil_iff.mp he)
    have hdrop : dropBlanks (cs ++ r) = dropBlanks cs ++ r := by
      rw [dropBlanks, List.dropWhile_append, hne]
      rfl
    rw [trimChars, hdrop, dropBlanksEnd_append hr, ← trimChars]

/-- **Trimming takes back the blanks around a trimmed text.** -/
theorem trimChars_append {l cs r : List Char} (hl : AllBlank l) (hr : AllBlank r)
    (h : Trimmed cs) : trimChars (l ++ cs ++ r) = cs := by
  rw [trimChars_append_right hr, trimChars_append_left hl, trimChars_of_trimmed h]

/-- What trimming takes away is blank. -/
theorem trimChars_split (cs : List Char) :
    ∃ l r, cs = l ++ trimChars cs ++ r ∧ AllBlank l ∧ AllBlank r := by
  refine ⟨cs.takeWhile isBlank, ((dropBlanks cs).reverse.takeWhile isBlank).reverse, ?_, ?_, ?_⟩
  · rw [trimChars, dropBlanksEnd, List.append_assoc, ← List.reverse_append,
      List.takeWhile_append_dropWhile, List.reverse_reverse, dropBlanks,
      List.takeWhile_append_dropWhile]
  · exact fun c hc => List.mem_takeWhile_imp hc
  · exact fun c hc => List.mem_takeWhile_imp (List.mem_reverse.mp hc)

theorem head?_dropBlanks {cs : List Char} {c : Char} (h : (dropBlanks cs).head? = some c) :
    isBlank c = false := by
  have := List.head?_dropWhile_not isBlank cs
  rw [← dropBlanks, h] at this
  simpa using this

/-- Trimming gives trimmed texts. -/
theorem trimmed_trimChars (cs : List Char) : Trimmed (trimChars cs) := by
  refine ⟨?_, ?_⟩
  · intro c hc
    -- the first character left is the first one behind the blanks at the start
    obtain ⟨t, ht⟩ : trimChars cs <+: dropBlanks cs := by
      have hsuffix := (List.dropWhile_suffix (l := (dropBlanks cs).reverse) isBlank)
      exact List.reverse_suffix.mp (by rwa [trimChars, dropBlanksEnd, List.reverse_reverse])
    have hhead : (dropBlanks cs).head? = some c := by
      rw [← ht, List.head?_append, hc]
      rfl
    exact head?_dropBlanks hhead
  · intro c hc
    rw [trimChars, dropBlanksEnd, List.getLast?_reverse] at hc
    exact head?_dropBlanks hc

/-- Whatever stands between two trimmed texts. -/
theorem trimmed_append {l r : List Char} (hl : Trimmed l) (hlne : l ≠ []) (hr : Trimmed r)
    (hrne : r ≠ []) (cs : List Char) : Trimmed (l ++ cs ++ r) := by
  refine ⟨fun c hc => ?_, fun c hc => ?_⟩
  · rw [List.append_assoc, head?_append_of_ne_nil hlne] at hc
    exact hl.1 c hc
  · rw [getLast?_append_of_ne_nil _ hrne] at hc
    exact hr.2 c hc

/-- What is not blank stands between the blanks at both ends. -/
theorem exists_trimmed_of_mem {cs : List Char} {c : Char} (hc : c ∈ cs)
    (hblank : isBlank c = false) :
    ∃ l text r, cs = l ++ text ++ r ∧ AllBlank l ∧ AllBlank r ∧ Trimmed text ∧ c ∈ text := by
  obtain ⟨l, r, hcs, hl, hr⟩ := trimChars_split cs
  refine ⟨l, trimChars cs, r, hcs, hl, hr, trimmed_trimChars cs, ?_⟩
  rw [hcs] at hc
  rcases List.mem_append.mp hc with hc | hc
  · refine (List.mem_append.mp hc).resolve_left fun hmem => ?_
    rw [hl c hmem] at hblank
    cases hblank
  · rw [hr c hc] at hblank
    cases hblank

theorem trimChars_ne_nil {cs : List Char} {c : Char} (hc : c ∈ cs) (hblank : isBlank c = false) :
    trimChars cs ≠ [] := by
  obtain ⟨l, text, r, rfl, hl, hr, htrimmed, hmem⟩ := exists_trimmed_of_mem hc hblank
  rw [trimChars_append hl hr htrimmed]
  exact List.ne_nil_of_mem hmem

theorem sublist_trimChars (cs : List Char) : (trimChars cs).Sublist cs := by
  obtain ⟨l, r, hcs, _, _⟩ := trimChars_split cs
  have hsub : (trimChars cs).Sublist (l ++ trimChars cs ++ r) :=
    (List.sublist_append_right _ _).trans (List.sublist_append_left _ _)
  rwa [← hcs] at hsub

end Rigging.Text
