import Rigging.Proofs.Declaration.Member

/-!
# The results of asynchronous functions

A text is a promise when it is `Promise<…>` and the first bracket is closed by the last character
(`IsPromise`).  The result of a resolved asynchronous function is written as a promise
(`resultType_isPromise_iff`), with one exception: a function that is documented to give one array of
promises is taken to give a promise already, and keeps its array.
-/

namespace Rigging

/-! ### Nested brackets -/

namespace Union

/-- The text closes no bracket that it has not opened before, and all that it opens. -/
def IsNested (cs : List Char) : Prop :=
  (∀ front, front <+: cs → front.count '>' ≤ front.count '<') ∧ cs.count '>' = cs.count '<'

theorem depthBehind_cons (depth : Nat) (c : Char) (cs : List Char) :
    depthBehind depth (c :: cs) = depthBehind (depthAfter depth c) cs := rfl

/-- The depth behind a text is what its brackets say if every closing bracket closes one; a closing
bracket that closes nothing leaves it too large, never too small. -/
theorem depthBehind_spec (cs : List Char) : ∀ depth,
    depth + cs.count '<' ≤ depthBehind depth cs + cs.count '>' ∧
      (cs.count '>' ≤ depth →
        depthBehind depth cs + cs.count '>' = depth + cs.count '<') := by
  induction cs with
  | nil => exact fun _ => ⟨Nat.le_refl _, fun _ => rfl⟩
  | cons c cs ih =>
    intro depth
    have hrest := ih (depthAfter depth c)
    rw [depthBehind_cons]
    by_cases hlt : c = '<'
    · subst hlt
      have hafter : depthAfter depth '<' = depth + 1 := rfl
      have hgt : ('<' :: cs).count '>' = cs.count '>' := List.count_cons_of_ne (by decide)
      rw [hafter] at hrest ⊢
      rw [List.count_cons_self, hgt]
      omega
    · by_cases hgt : c = '>'
      · subst hgt
        have hafter : depthAfter depth '>' = depth - 1 := rfl
        have hlt : ('>' :: cs).count '<' = cs.count '<' := List.count_cons_of_ne (by decide)
        rw [hafter] at hrest ⊢
        rw [List.count_cons_self, hlt]
        omega
      · have hafter : depthAfter depth c = depth := by rw [depthAfter, if_neg hlt, if_neg hgt]
        rw [hafter] at hrest ⊢
        rw [List.count_cons_of_ne hlt, List.count_cons_of_ne hgt]
        exact hrest

/-- **A text that leaves every depth as it was is nested.** -/
theorem isNested_of_depthBehind {cs : List Char} (h : ∀ depth, depthBehind depth cs = depth) :
    IsNested cs := by
  have hcount : cs.count '>' = cs.count '<' := by
    have htotal := (depthBehind_spec cs (cs.count '>')).2 (Nat.le_refl _)
    rw [h] at htotal
    omega
  refine ⟨fun front hfront => ?_, hcount⟩
  obtain ⟨back, rfl⟩ := hfront
  have hzero := h 0
  have hback := (depthBehind_spec back (depthBehind 0 front)).1
  rw [← depthBehind_append, hzero] at hback
  rw [List.count_append, List.count_append] at hcount
  omega

theorem depthBehind_intercalate {sep : List Char} (hsep : ∀ depth, depthBehind depth sep = depth)
    {ms : List (List Char)} (h : ∀ m ∈ ms, ∀ depth, depthBehind depth m = depth) (depth : Nat) :
    depthBehind depth (sep.intercalate ms) = depth := by
  induction ms with
  | nil => rfl
  | cons m ms ih =>
    have hm := h m List.mem_cons_self
    cases ms with
    | nil => rw [List.intercalate_singleton, hm]
    | cons m' ms =>
      rw [List.intercalate_cons_cons, depthBehind_append, depthBehind_append, hm, hsep]
      exact ih fun x hx => h x (List.mem_cons_of_mem _ hx)

end Union

/-! ### Texts of promises -/

namespace TypeExpr

variable {known : String → Bool}

/-- One promise: the bracket behind the word is closed by the last character. -/
def IsPromise (text : String) : Prop :=
  ∃ inner : String, text = "Promise<" ++ inner ++ ">" ∧ Union.IsNested inner.toList

/-- The text starts as promises do. -/
def StartsAsPromise (text : String) : Prop :=
  "Promise<".toList <+: text.toList

/-- A promise of closed types is one promise, however they are joined. -/
theorem isPromise_intercalate {sep : String}
    (hsep : ∀ depth, Union.depthBehind depth sep.toList = depth) {ts : List TypeExpr}
    (h : ∀ t ∈ ts, Closed known t) :
    IsPromise ("Promise<" ++ String.intercalate sep (ts.map print) ++ ">") := by
  refine ⟨_, rfl, Union.isNested_of_depthBehind ?_⟩
  rw [String.toList_intercalate, List.map_map]
  refine Union.depthBehind_intercalate hsep fun m hm depth => ?_
  obtain ⟨t, ht, rfl⟩ := List.mem_map.mp hm
  exact ((h t ht).wellSpelled.balanced depth).2

theorem not_isPromise_array (element : String) : ¬IsPromise (element ++ "[]") := by
  rintro ⟨inner, heq, _⟩
  have hlast := last_array element
  rw [heq, (ends_promise inner).2] at hlast
  exact absurd hlast (by decide)

/-- An array starts as a promise only if its element does. -/
theorem startsAsPromise_of_array {element : String} (h : StartsAsPromise (element ++ "[]")) :
    StartsAsPromise element := by
  rw [StartsAsPromise, String.toList_append] at h
  rcases List.prefix_or_prefix_of_prefix h (List.prefix_append _ _) with hstart | ⟨rest, hrest⟩
  · exact hstart
  · -- the bracket would have to come from the text behind the element
    rw [← hrest, List.prefix_append_right_inj] at h
    have hnil : rest = [] := by
      by_contra hne
      have hlast : '<' ∈ rest := by
        have hend := congrArg List.getLast? hrest
        rw [Text.getLast?_append_of_ne_nil _ hne] at hend
        exact List.mem_of_getLast? hend
      exact absurd (h.subset hlast) (by decide)
    rw [hnil, List.append_nil] at hrest
    rw [StartsAsPromise, hrest]

/-- A closed type whose text starts as a promise is one, or an array of such a type. -/
theorem Closed.promise_or_array {t : TypeExpr} (h : Closed known t) (hstart : StartsAsPromise t.print) :
    IsPromise t.print ∨ ∃ element, t.print = element ++ "[]" ∧ StartsAsPromise element := by
  cases h with
  | keyword listed =>
    have hall : ∀ s ∈ spellings, ¬"Promise<".toList <+: s.toList := by decide
    exact absurd hstart (hall _ listed)
  | instanceOf _ _ =>
    obtain ⟨rest, hrest⟩ := hstart
    rw [toList_print_instanceOf] at hrest
    exact absurd (List.cons.inj hrest).1 (by decide)
  | @array element _ =>
    exact Or.inr ⟨element.print, rfl, startsAsPromise_of_array hstart⟩
  | @promise members _ _ inner =>
    refine Or.inl ?_
    rw [print, printAll_eq]
    exact isPromise_intercalate (fun _ => rfl) inner

end TypeExpr

/-! ### Results -/

namespace Declaration

open TypeExpr (IsPromise StartsAsPromise)

theorem isPromise_iff {types : List String} :
    isPromise types = true ↔ ∃ t, types = [t] ∧ StartsAsPromise t := by
  cases types with
  | nil => simp [isPromise]
  | cons t types =>
    cases types with
    | nil => simp [isPromise, StartsAsPromise]
    | cons u types => simp [isPromise]

theorem exists_member_eq (doc declaration : String) :
    ∃ lead, member doc declaration = lead ++ declaration := by
  unfold member
  split
  · exact ⟨_, rfl⟩
  · exact ⟨doc ++ "\n" ++ indent, by simp only [String.append_assoc]⟩

/-- A member ends with the declaration of its function: the name, the parameters and the result. -/
theorem exists_methodAs_declaration (name : String) (f : Function) :
    ∃ lead, methodAs name f = lead ++ "abstract " ++ name ++ "(" ++
      String.intercalate ", " (f.typedParams.map parameter) ++ "): " ++ resultType f ++ ";" := by
  obtain ⟨lead, hlead⟩ := exists_member_eq ((methodDoc f).write indent)
    ("abstract " ++ name ++ "(" ++ String.intercalate ", " (f.typedParams.map parameter) ++ "): " ++
      resultType f ++ ";")
  refine ⟨lead, ?_⟩
  rw [methodAs, hlead]
  simp only [String.append_assoc]

/-- A member ends with the result of its function. -/
theorem exists_methodAs_eq (name : String) (f : Function) :
    ∃ front, methodAs name f = front ++ "): " ++ resultType f ++ ";" := by
  obtain ⟨lead, hlead⟩ := exists_methodAs_declaration name f
  exact ⟨_, hlead⟩

theorem resultType_of_startsAsPromise {f : Function} {t : String} (ht : resultTypes f = [t])
    (hstart : StartsAsPromise t) : resultType f = t := by
  have hpromise : isPromise [t] = true := isPromise_iff.mpr ⟨t, rfl, hstart⟩
  rw [resultType, ht, hpromise, Bool.not_true, Bool.and_false, if_neg Bool.false_ne_true]
  exact String.intercalate_singleton

theorem resultType_of_not_isPromise {f : Function} (hasync : f.isAsync = true)
    (h : isPromise (resultTypes f) = false) :
    resultType f = "Promise<" ++ String.intercalate " | " (resultTypes f) ++ ">" := by
  rw [resultType, h, hasync, Bool.not_false, Bool.and_self, if_pos rfl]

/-- The function is documented to give one type, an array of promises. -/
def GivesPromiseArray (f : Function) : Prop :=
  ∃ element, resultTypes f = [element ++ "[]"] ∧ StartsAsPromise element

theorem startsAsPromise_array {element : String} (h : StartsAsPromise element) :
    StartsAsPromise (element ++ "[]") := by
  rw [StartsAsPromise, String.toList_append]
  exact h.trans (List.prefix_append _ _)

/-- **An asynchronous function gives a promise.**  The result that its member is written with is one
promise, unless the function is documented to give one array of promises. -/
theorem resultType_isPromise_iff (models : Models) {f : Function} (hasync : f.isAsync = true)
    (name : String) :
    (∃ front, methodAs name (f.resolved models.knows) =
      front ++ "): " ++ resultType (f.resolved models.knows) ++ ";") ∧
      (IsPromise (resultType (f.resolved models.knows)) ↔
        ¬GivesPromiseArray (f.resolved models.knows)) := by
  refine ⟨exists_methodAs_eq name _, ?_⟩
  have hasync' : (f.resolved models.knows).isAsync = true := hasync
  have htexts : ∀ s ∈ resultTypes (f.resolved models.knows), TypeExpr.ClosedText models.knows
      (f.resolved models.knows).mentionedModels s := Function.closedText_resultTypes
  obtain ⟨ts, hts, hclosed, -⟩ := TypeExpr.exists_map_print htexts
  generalize f.resolved models.knows = g at hasync' hts
  by_cases hpromise : isPromise (resultTypes g) = true
  · obtain ⟨t, ht, hstart⟩ := isPromise_iff.mp hpromise
    rw [resultType_of_startsAsPromise ht hstart]
    rw [ht] at hts
    obtain ⟨u, rfl, rfl⟩ := List.map_eq_singleton_iff.mp hts
    rcases (hclosed u List.mem_cons_self).promise_or_array hstart with hone | ⟨element, heq, hinner⟩
    · refine iff_of_true hone ?_
      rintro ⟨element, hel, _⟩
      rw [ht] at hel
      rw [List.singleton_inj.mp hel] at hone
      exact TypeExpr.not_isPromise_array element hone
    · rw [heq]
      exact iff_of_false (TypeExpr.not_isPromise_array element)
        (not_not_intro ⟨element, ht.trans (congrArg (fun s => [s]) heq), hinner⟩)
  · rw [Bool.not_eq_true] at hpromise
    rw [resultType_of_not_isPromise hasync' hpromise, ← hts]
    refine iff_of_true (TypeExpr.isPromise_intercalate (fun _ => rfl) hclosed) ?_
    rintro ⟨element, hel, hinner⟩
    have hstarts := isPromise_iff.mpr ⟨_, hel, startsAsPromise_array hinner⟩
    rw [hpromise] at hstarts
    cases hstarts

/-- An asynchronous function that is documented to give some types. -/
def walker (types : List String) : Function :=
  ⟨"walks", [], true, some { Doc.empty with result := some ⟨types, none⟩ }, []⟩

/-- Beside another type an array of promises is promised again. -/
theorem resultType_isPromise_walker :
    let f := (walker ["string", "Promise<void>[]"]).resolved (Models.knows [])
    resultType f = "Promise<string | Promise<void>[]>" ∧ IsPromise (resultType f) := by
  intro f
  have htypes : resultTypes f = ["string", "Promise<void>[]"] := by decide
  refine ⟨by decide, (resultType_isPromise_iff [] rfl "walks").2.mpr ?_⟩
  rintro ⟨element, hel, _⟩
  exact absurd (List.cons.inj (htypes.symm.trans hel)).2 (List.cons_ne_nil _ _)

/-- Alone it stays as it is, and is no promise. -/
theorem not_isPromise_walker :
    let f := (walker ["Promise<string>[]"]).resolved (Models.knows [])
    f.isAsync = true ∧ ¬IsPromise (resultType f) := by
  intro f
  have hresult : resultType f = "Promise<string>" ++ "[]" := by decide
  rw [hresult]
  exact ⟨rfl, TypeExpr.not_isPromise_array _⟩

end Declaration

end Rigging
