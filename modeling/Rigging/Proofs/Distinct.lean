import Mathlib.Data.List.Nodup
import Rigging.Distinct

/-!
# Laws of first occurrences

`distinct` is the library's `List.eraseDups` (`distinct_eq_eraseDups`).  It commutes with filters, and
repetitions that are removed before items are replaced by lists of other items make no difference to
what is left in the end (`distinct_flatMap_distinct`).
-/

namespace Rigging

/-- Items that give nothing can be left out. -/
theorem flatMap_filter {α β : Type} {keep : α → Bool} {f : α → List β} {xs : List α}
    (h : ∀ x ∈ xs, keep x = false → f x = []) : (xs.filter keep).flatMap f = xs.flatMap f := by
  induction xs with
  | nil => rfl
  | cons x xs ih =>
    have hrest := ih fun y hy => h y (List.mem_cons_of_mem _ hy)
    rw [List.flatMap_cons]
    by_cases hx : keep x = true
    · rw [List.filter_cons_of_pos hx, List.flatMap_cons, hrest]
    · rw [List.filter_cons_of_neg hx, hrest, h x List.mem_cons_self (by simpa using hx),
        List.nil_append]

theorem mem_of_mem_distinct {α : Type} [BEq α] {xs : List α} {x : α} (h : x ∈ distinct xs) :
    x ∈ xs := by
  induction xs with
  | nil => exact h
  | cons y ys ih =>
    rcases List.mem_cons.mp h with rfl | h
    · exact List.mem_cons_self
    · exact List.mem_cons_of_mem _ (ih (List.mem_filter.mp h).1)

variable {α β : Type} [BEq α] [LawfulBEq α] [BEq β] [LawfulBEq β]

theorem nodup_distinct (xs : List α) : (distinct xs).Nodup := by
  induction xs with
  | nil => exact List.nodup_nil
  | cons x xs ih =>
    rw [distinct, List.nodup_cons]
    refine ⟨fun hmem => ?_, ih.sublist List.filter_sublist⟩
    simpa using (List.mem_filter.mp hmem).2

theorem mem_distinct {xs : List α} {x : α} : x ∈ distinct xs ↔ x ∈ xs := by
  refine ⟨mem_of_mem_distinct, fun h => ?_⟩
  induction xs with
  | nil => exact h
  | cons y ys ih =>
    by_cases hxy : x = y
    · rw [hxy]
      exact List.mem_cons_self
    · have hys := ih ((List.mem_cons.mp h).resolve_left hxy)
      exact List.mem_cons_of_mem _ (List.mem_filter.mpr ⟨hys, by simpa using hxy⟩)

theorem distinct_of_nodup {xs : List α} (h : xs.Nodup) : distinct xs = xs := by
  induction xs with
  | nil => rfl
  | cons x xs ih =>
    obtain ⟨hx, hxs⟩ := List.nodup_cons.mp h
    rw [distinct, ih hxs, List.filter_eq_self.mpr]
    intro y hy
    simpa using ne_of_mem_of_not_mem hy hx

theorem filter_distinct (p : α → Bool) (xs : List α) :
    (distinct xs).filter p = distinct (xs.filter p) := by
  induction xs with
  | nil => rfl
  | cons x xs ih =>
    rw [distinct]
    by_cases hx : p x = true
    · rw [List.filter_cons_of_pos hx, List.filter_cons_of_pos hx, distinct, ← ih,
        List.filter_filter, List.filter_filter]
      simp only [Bool.and_comm]
    · -- what passes the filter differs from `x`, which does not
      have hother : ∀ y, (p y && !(y == x)) = p y := by
        intro y
        by_cases hyx : y = x
        · simp [hyx, hx]
        · simp [hyx]
      rw [List.filter_cons_of_neg hx, List.filter_cons_of_neg hx, List.filter_filter, ← ih]
      simp only [hother]

/-- The recursion of `List.eraseDups` filters first, so it goes down by length. -/
theorem distinct_eq_eraseDups : ∀ xs : List α, distinct xs = xs.eraseDups
  | [] => rfl
  | x :: xs => by
    rw [distinct, filter_distinct, List.eraseDups_cons]
    exact congrArg (x :: ·) (distinct_eq_eraseDups (xs.filter fun y => !(y == x)))
termination_by xs => xs.length
decreasing_by
  exact Nat.lt_succ_of_le (List.length_filter_le _ xs)

/-- Removing items with equal images, then taking images. -/
theorem map_eraseDupsBy {γ : Type} (f : γ → α) : ∀ xs : List γ,
    (xs.eraseDupsBy fun x y => f x == f y).map f = distinct (xs.map f)
  | [] => rfl
  | x :: xs => by
    have hfilter : (xs.map f).filter (fun y => !(y == f x)) =
        (xs.filter fun y => decide ((f y == f x) = false)).map f := by
      rw [List.filter_map]
      refine congrArg (List.map f) (List.filter_congr fun y _ => ?_)
      cases h : f y == f x <;> simp [h]
    rw [List.eraseDupsBy_cons, List.map_cons, List.map_cons, distinct, filter_distinct, hfilter]
    exact congrArg (f x :: ·) (map_eraseDupsBy f _)
termination_by xs => xs.length
decreasing_by
  exact Nat.lt_succ_of_le (List.length_filter_le _ xs)

theorem distinct_append (xs ys : List α) :
    distinct (xs ++ ys) = distinct xs ++ (distinct ys).filter fun y => !xs.contains y := by
  induction xs with
  | nil => simp [distinct]
  | cons x xs ih =>
    rw [List.cons_append, distinct, distinct, ih, List.filter_append, List.filter_filter,
      List.cons_append]
    simp only [List.contains_cons, Bool.not_or]

omit [BEq α] [LawfulBEq α] in
/-- What remains of lists that are put together depends on the first occurrences in each. -/
theorem distinct_flatMap_congr {xs : List α} {f g : α → List β}
    (h : ∀ x ∈ xs, distinct (f x) = distinct (g x)) :
    distinct (xs.flatMap f) = distinct (xs.flatMap g) := by
  induction xs with
  | nil => rfl
  | cons x xs ih =>
    have hx := h x List.mem_cons_self
    have hcontains : ∀ y, (f x).contains y = (g x).contains y := by
      intro y
      rw [Bool.eq_iff_iff, List.contains_iff_mem, List.contains_iff_mem, ← mem_distinct, hx,
        mem_distinct]
    rw [List.flatMap_cons, List.flatMap_cons, distinct_append, distinct_append, hx,
      ih fun y hy => h y (List.mem_cons_of_mem _ hy)]
    simp only [hcontains]

/-- **Repetitions may be removed early.** -/
theorem distinct_flatMap_distinct (xs : List α) (f : α → List β) :
    distinct ((distinct xs).flatMap f) = distinct (xs.flatMap f) := by
  induction xs with
  | nil => rfl
  | cons x xs ih =>
    -- the repetitions of `x` give nothing that `f x` has not given
    have hnone : ∀ y ∈ distinct xs, (!(y == x)) = false →
        (f y).filter (fun z => !(f x).contains z) = [] := by
      intro y _ hy
      have hyx : y = x := by simpa using hy
      rw [hyx, List.filter_eq_nil_iff]
      intro z hz
      simpa using hz
    have hrest : (((distinct xs).filter fun y => !(y == x)).flatMap f).filter
        (fun z => !(f x).contains z) = ((distinct xs).flatMap f).filter
        fun z => !(f x).contains z := by
      rw [List.filter_flatMap, List.filter_flatMap, flatMap_filter hnone]
    rw [distinct, List.flatMap_cons, List.flatMap_cons, distinct_append, distinct_append, ← ih,
      filter_distinct _ (List.flatMap f _), hrest, ← filter_distinct]

theorem distinct_map_distinct (xs : List α) (f : α → β) :
    distinct ((distinct xs).map f) = distinct (xs.map f) := by
  rw [List.map_eq_flatMap, List.map_eq_flatMap]
  exact distinct_flatMap_distinct xs fun x => [f x]

end Rigging
