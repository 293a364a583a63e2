import Rigging.Proofs.Distinct
import Rigging.Proofs.TypeExpr.Read

/-!
# The closed grammar of types

A type relative to known models is *closed* when its keywords are spellings of declarations, its
instances are of known models with proper names, and its promises have distinct members, at least
one.  Normalising gives closed types (`closed_within_read`), and reading back the text of a closed type
gives the type itself (`read_print`), so nothing is lost between the two walks over a type.
-/

namespace Rigging

/-! ### Items of lists -/

theorem mem_of_lookup_eq_some {α β : Type} [BEq α] [LawfulBEq α] {pairs : List (α × β)} {key : α}
    {value : β} (h : pairs.lookup key = some value) : (key, value) ∈ pairs := by
  obtain ⟨before, after, rfl, _⟩ := List.lookup_eq_some_iff.mp h
  exact List.mem_append_right _ List.mem_cons_self

namespace TypeExpr

open Rigging.Text

/-! ### Lists of types -/

@[simp] theorem printAll_eq (ts : List TypeExpr) : printAll ts = ts.map print := by
  induction ts with
  | nil => rfl
  | cons t ts ih => rw [printAll, ih]; rfl

@[simp] theorem withinAll_eq (known : String → Bool) (ts : List TypeExpr) :
    withinAll known ts = ts.map (within known) := by
  induction ts with
  | nil => rfl
  | cons t ts ih => rw [withinAll, ih]; rfl

@[simp] theorem modelsOfAll_eq (ts : List TypeExpr) : modelsOfAll ts = ts.flatMap models := by
  induction ts with
  | nil => rfl
  | cons t ts ih => rw [modelsOfAll, ih]; rfl

theorem mem_of_mem_distinctTypes {ts : List TypeExpr} {t : TypeExpr} (h : t ∈ distinctTypes ts) :
    t ∈ ts := by
  induction ts with
  | nil => exact h
  | cons u us ih =>
    rcases List.mem_cons.mp h with rfl | h
    · exact List.mem_cons_self
    · exact List.mem_cons_of_mem _ (ih (List.mem_filter.mp h).1)

theorem map_print_distinctTypes (ts : List TypeExpr) :
    (distinctTypes ts).map print = distinct (ts.map print) := by
  induction ts with
  | nil => rfl
  | cons t ts ih =>
    rw [distinctTypes, List.map_cons, List.map_cons, distinct, ← ih, List.filter_map]
    rfl

theorem nodup_distinctTypes (ts : List TypeExpr) : ((distinctTypes ts).map print).Nodup := by
  rw [map_print_distinctTypes]
  exact nodup_distinct _

/-! ### What reading can give -/

/-- The spellings of keywords in declarations. -/
def spellings : List String :=
  ["string", "String", "number", "Number", "boolean", "Boolean", "object", "Object", "Array",
    "Function", "void", "any"]

/-- A type that some text can be read as. -/
inductive Raw : TypeExpr → Prop
  | keyword {spelling : String} (listed : spelling ∈ spellings) : Raw (keyword spelling)
  | instanceOf {model : String} (name : isName model.toList = true) : Raw (instanceOf model)
  | array {element : TypeExpr} (inner : Raw element) : Raw (array element)
  | promise {members : List TypeExpr} (inner : ∀ t ∈ members, Raw t) : Raw (promise members)

theorem raw_any : Raw any := .keyword (by decide)

theorem raw_keywords : ∀ p ∈ keywords, Raw p.2 := by
  intro p hp
  simp only [keywords, List.mem_cons, List.not_mem_nil, or_false] at hp
  rcases hp with rfl | rfl | rfl | rfl | rfl | rfl | rfl | rfl | rfl | rfl | rfl | rfl | rfl | rfl
  case inr.inr.inr.inr.inr.inr.inr.inr.inl => exact .array raw_any
  all_goals exact .keyword (by decide)

theorem raw_readAt (fuel : Nat) : ∀ cs, Raw (readAt fuel cs) := by
  induction fuel with
  | zero => exact fun _ => raw_any
  | succ fuel ih =>
    intro cs
    rw [readAt]
    split
    · exact ih _
    · split
      · exact .array (ih _)
      · split
        · refine .promise fun t ht => ?_
          obtain ⟨m, _, rfl⟩ := List.mem_map.mp ht
          exact ih m
        · split
          · rename_i model hmodel
            exact .instanceOf (instanceModel?_eq_some_iff.mp hmodel).2
          · cases hk : keywords.lookup (String.ofList (trimChars cs)) with
            | none => exact raw_any
            | some t => exact raw_keywords _ (mem_of_lookup_eq_some hk)

theorem raw_read (text : String) : Raw (read text) := raw_readAt _ _

/-! ### Closed types -/

/-- A type of the closed grammar over known models. -/
inductive Closed (known : String → Bool) : TypeExpr → Prop
  | keyword {spelling : String} (listed : spelling ∈ spellings) : Closed known (keyword spelling)
  | instanceOf {model : String} (name : isName model.toList = true) (is_known : known model = true) :
      Closed known (instanceOf model)
  | array {element : TypeExpr} (inner : Closed known element) : Closed known (array element)
  | promise {members : List TypeExpr} (ne_nil : members ≠ []) (distinct : (members.map print).Nodup)
      (inner : ∀ t ∈ members, Closed known t) : Closed known (promise members)

variable {known : String → Bool}

theorem closed_any : Closed known any := .keyword (by decide)

theorem Raw.closed_within {t : TypeExpr} (h : Raw t) (known : String → Bool) :
    Closed known (t.within known) := by
  induction h with
  | keyword listed => exact .keyword listed
  | @instanceOf model name =>
    rw [within]
    split
    · rename_i hknown
      exact .instanceOf name hknown
    · exact closed_any
  | array _ ih => exact .array ih
  | @promise members _ ih =>
    have hall : ∀ t ∈ distinctTypes (members.map (within known)), Closed known t := by
      intro t ht
      obtain ⟨u, hu, rfl⟩ := List.mem_map.mp (mem_of_mem_distinctTypes ht)
      exact ih u hu
    rw [within, withinAll_eq]
    split
    · exact .promise (List.cons_ne_nil _ _) (List.nodup_singleton _)
        fun t ht => List.mem_singleton.mp ht ▸ closed_any
    · rename_i hne
      exact .promise (fun he => hne (by rw [he]; rfl)) (nodup_distinctTypes _) hall

/-- **Normalising gives closed types.** -/
theorem closed_within_read (known : String → Bool) (text : String) :
    Closed known ((read text).within known) :=
  (raw_read text).closed_within known

theorem Closed.known_of_mem_models {t : TypeExpr} (h : Closed known t) :
    ∀ m ∈ t.models, known m = true := by
  induction h with
  | keyword _ => exact fun _ hm => nomatch hm
  | instanceOf _ is_known => exact fun m hm => List.mem_singleton.mp hm ▸ is_known
  | array _ ih => exact ih
  | promise _ _ _ ih =>
    intro m hm
    rw [models, modelsOfAll_eq] at hm
    obtain ⟨t, ht, hm⟩ := List.mem_flatMap.mp hm
    exact ih t ht m hm

/-! ### The characters of a closed type -/

/-- The characters that types are written with. -/
def isTypeChar (c : Char) : Bool :=
  Doc.isNamePart c || c == '<' || c == '>' || c == '|' || c == '[' || c == ']'

theorem isTypeChar_of_isNamePart {c : Char} (h : Doc.isNamePart c = true) : isTypeChar c = true := by
  simp [isTypeChar, h]

theorem isBlank_of_isTypeChar {c : Char} (h : isTypeChar c = true) : isBlank c = false := by
  simp only [isTypeChar, Bool.or_eq_true, beq_iff_eq] at h
  rcases h with ((((h | rfl) | rfl) | rfl) | rfl) | rfl
  · exact Doc.isBlank_of_isNamePart h
  all_goals decide

theorem toList_print_instanceOf (model : String) :
    (print (instanceOf model)).toList = '$' :: (model.toList ++ "Instance".toList) := by
  rw [print, toList_instanceName]

theorem toList_print_array (t : TypeExpr) :
    (print (array t)).toList = t.print.toList ++ "[]".toList := by
  rw [print, String.toList_append]

theorem toList_print_promise (ts : List TypeExpr) :
    (print (promise ts)).toList =
      "Promise<".toList ++ (['|'].intercalate (ts.map fun t => t.print.toList) ++ ">".toList) := by
  rw [print, printAll_eq, toList_promise, List.map_map]
  rfl

theorem isNamePart_of_mem_spelling {s : String} (h : s ∈ spellings) :
    ∀ c ∈ s.toList, Doc.isNamePart c = true := by
  have hall : ∀ s ∈ spellings, (s.toList.all fun c => Doc.isNamePart c) = true := by decide
  exact List.all_eq_true.mp (hall s h)

theorem isNamePart_print_instanceOf {model : String} (name : isName model.toList = true) :
    ∀ c ∈ (print (instanceOf model)).toList, Doc.isNamePart c = true := by
  intro c hc
  rw [toList_print_instanceOf, List.mem_cons, List.mem_append] at hc
  rcases hc with rfl | hc | hc
  · decide
  · exact isNamePart_of_isName name c hc
  · have hall : ("Instance".toList.all fun c => Doc.isNamePart c) = true := by decide
    exact List.all_eq_true.mp hall c hc

theorem Closed.isTypeChar {t : TypeExpr} (h : Closed known t) :
    ∀ c ∈ t.print.toList, isTypeChar c = true := by
  induction h with
  | keyword listed =>
    exact fun c hc => isTypeChar_of_isNamePart (isNamePart_of_mem_spelling listed c hc)
  | instanceOf name _ =>
    exact fun c hc => isTypeChar_of_isNamePart (isNamePart_print_instanceOf name c hc)
  | array _ ih =>
    intro c hc
    rw [toList_print_array, List.mem_append] at hc
    rcases hc with hc | hc
    · exact ih c hc
    · have hall : ("[]".toList.all fun c => TypeExpr.isTypeChar c) = true := by decide
      exact List.all_eq_true.mp hall c hc
  | promise _ _ _ ih =>
    intro c hc
    rw [toList_print_promise, List.mem_append, List.mem_append] at hc
    rcases hc with hc | hc | hc
    · have hall : ("Promise<".toList.all fun c => TypeExpr.isTypeChar c) = true := by decide
      exact List.all_eq_true.mp hall c hc
    · rcases mem_intercalate hc with hc | ⟨x, hx, hc⟩
      · rw [List.mem_singleton.mp hc]
        decide
      · obtain ⟨t, ht, rfl⟩ := List.mem_map.mp hx
        exact ih t ht c hc
    · have hall : (">".toList.all fun c => TypeExpr.isTypeChar c) = true := by decide
      exact List.all_eq_true.mp hall c hc

theorem Closed.trimmed {t : TypeExpr} (h : Closed known t) : Trimmed t.print.toList :=
  ⟨fun c hc => isBlank_of_isTypeChar (h.isTypeChar c (List.mem_of_mem_head? hc)),
    fun c hc => isBlank_of_isTypeChar (h.isTypeChar c (List.mem_of_getLast? hc))⟩

theorem Closed.wellSpelled {t : TypeExpr} (h : Closed known t) : WellSpelled t.print.toList := by
  induction h with
  | keyword listed =>
    have hall : ∀ s ∈ spellings, s.toList ≠ [] := by decide
    exact wellSpelled_word (hall _ listed) (isNamePart_of_mem_spelling listed)
  | instanceOf name _ =>
    refine wellSpelled_word ?_ (isNamePart_print_instanceOf name)
    rw [toList_print_instanceOf]
    exact List.cons_ne_nil _ _
  | array _ ih =>
    have := ih.append (l := []) (r := "[]".toList) (by decide) (by decide)
    rwa [List.nil_append, ← toList_print_array] at this
  | promise _ _ _ ih =>
    rw [toList_print_promise]
    apply wellSpelled_promise
    intro cs hcs
    obtain ⟨t, ht, rfl⟩ := List.mem_map.mp hcs
    exact ih t ht

/-- The texts of closed types are the members of a union. -/
theorem isUnion_print {ts : List TypeExpr} (h : ∀ t ∈ ts, Closed known t) :
    Union.IsUnion (ts.map fun t => t.print.toList) := by
  refine ⟨?_, ?_⟩
  · intro m hm
    obtain ⟨t, ht, rfl⟩ := List.mem_map.mp hm
    obtain ⟨c, hc, -⟩ := (h t ht).wellSpelled.solid
    exact ⟨List.ne_nil_of_mem hc, (h t ht).trimmed, ((h t ht).wellSpelled.balanced 0).1⟩
  · intro m hm
    obtain ⟨t, ht, rfl⟩ := List.mem_map.mp (List.dropLast_subset _ hm)
    exact ((h t ht).wellSpelled.balanced 0).2

/-! ### Reading back -/

theorem readChars_print {t : TypeExpr} (h : Closed known t) : readChars t.print.toList = t := by
  induction h with
  | @keyword s listed =>
    simp only [spellings, List.mem_cons, List.not_mem_nil, or_false] at listed
    rcases listed with rfl | rfl | rfl | rfl | rfl | rfl | rfl | rfl | rfl | rfl | rfl | rfl <;> rfl
  | @instanceOf model name _ =>
    have hmodel : instanceModel? (print (instanceOf model)).toList = some model :=
      instanceModel?_eq_some_iff.mpr ⟨rfl, name⟩
    rw [readChars_word (isNamePart_print_instanceOf name), readLeaf, hmodel]
  | array inner ih =>
    obtain ⟨c, hc, hdot, hblank⟩ := inner.wellSpelled.solid
    rw [toList_print_array, readChars_array hc hdot hblank inner.wellSpelled.oneLine, ih]
  | @promise members _ _ inner ih =>
    have hspelled : ∀ cs ∈ members.map (fun t => t.print.toList), WellSpelled cs := by
      intro cs hcs
      obtain ⟨t, ht, rfl⟩ := List.mem_map.mp hcs
      exact (inner t ht).wellSpelled
    rw [toList_print_promise, readChars_promise_join hspelled, List.map_map]
    congr 1
    exact (List.map_congr_left ih).trans (List.map_id _)

/-- **Reading the text of a closed type gives the type.** -/
theorem read_print {t : TypeExpr} (h : Closed known t) : read t.print = t := by
  rw [read_eq, readChars_print h]

/-! ### The instances at the leaves of a type's text -/

/-- The instance of a model stands as a leaf in the text of a type: the text is its spelling, or an
array or a promise with such a leaf inside. -/
inductive InstanceLeaf (model : String) : String → Prop
  | instanceOf : InstanceLeaf model (instanceName model)
  | array {element : String} (inner : InstanceLeaf model element) :
      InstanceLeaf model (element ++ "[]")
  | promise {union member : String} (mem : member ∈ Union.split union)
      (inner : InstanceLeaf model member) : InstanceLeaf model ("Promise<" ++ union ++ ">")

variable {model : String}

theorem InstanceLeaf.inversion {text : String} (h : InstanceLeaf model text) :
    text = instanceName model ∨
      (∃ element, text = element ++ "[]" ∧ InstanceLeaf model element) ∨
      ∃ union, text = "Promise<" ++ union ++ ">" ∧
        ∃ member ∈ Union.split union, InstanceLeaf model member := by
  cases h with
  | instanceOf => exact Or.inl rfl
  | array inner => exact Or.inr (Or.inl ⟨_, rfl, inner⟩)
  | promise mem inner => exact Or.inr (Or.inr ⟨_, rfl, _, mem, inner⟩)

theorem instanceName_injective : Function.Injective instanceName := by
  intro a b h
  have hlist := congrArg String.toList h
  rw [toList_instanceName, toList_instanceName, List.cons.injEq, List.append_cancel_right_eq] at hlist
  exact String.toList_inj.mp hlist.2

/-- How the three shapes of a type with a leaf start and end. -/
theorem ends_instanceName (model : String) :
    (instanceName model).toList.head? = some '$' ∧
      (instanceName model).toList.getLast? = some 'e' := by
  rw [toList_instanceName]
  refine ⟨rfl, ?_⟩
  rw [← List.cons_append, List.getLast?_append]
  rfl

theorem last_array (element : String) : (element ++ "[]").toList.getLast? = some ']' := by
  rw [String.toList_append, List.getLast?_append]
  rfl

theorem ends_promise (union : String) :
    ("Promise<" ++ union ++ ">").toList.head? = some 'P' ∧
      ("Promise<" ++ union ++ ">").toList.getLast? = some '>' := by
  rw [String.toList_append, String.toList_append]
  refine ⟨rfl, ?_⟩
  rw [List.getLast?_append]
  rfl

theorem instanceLeaf_instanceName {name : String} :
    InstanceLeaf model (instanceName name) ↔ model = name := by
  constructor
  · intro h
    rcases h.inversion with heq | ⟨element, heq, _⟩ | ⟨union, heq, _⟩
    · exact (instanceName_injective heq).symm
    · have hlast := (ends_instanceName name).2
      rw [heq, last_array] at hlast
      exact absurd hlast (by decide)
    · have hhead := (ends_instanceName name).1
      rw [heq, (ends_promise union).1] at hhead
      exact absurd hhead (by decide)
  · rintro rfl
    exact .instanceOf

theorem instanceLeaf_array {element : String} :
    InstanceLeaf model (element ++ "[]") ↔ InstanceLeaf model element := by
  constructor
  · intro h
    have hlast := last_array element
    rcases h.inversion with heq | ⟨element', heq, hinner⟩ | ⟨union, heq, _⟩
    · rw [heq, (ends_instanceName model).2] at hlast
      exact absurd hlast (by decide)
    · rwa [(String.append_left_inj _).mp heq]
    · rw [heq, (ends_promise union).2] at hlast
      exact absurd hlast (by decide)
  · exact .array

theorem instanceLeaf_promise {union : String} :
    InstanceLeaf model ("Promise<" ++ union ++ ">") ↔
      ∃ member ∈ Union.split union, InstanceLeaf model member := by
  constructor
  · intro h
    obtain ⟨hhead, hlast⟩ := ends_promise union
    rcases h.inversion with heq | ⟨element, heq, _⟩ | ⟨union', heq, hinner⟩
    · rw [heq, (ends_instanceName model).1] at hhead
      exact absurd hhead (by decide)
    · rw [heq, last_array] at hlast
      exact absurd hlast (by decide)
    · rwa [(String.append_right_inj _).mp ((String.append_left_inj _).mp heq)]
  · rintro ⟨member, hmem, hinner⟩
    exact .promise hmem hinner

theorem not_instanceLeaf_spelling {s : String} (h : s ∈ spellings) : ¬InstanceLeaf model s := by
  have hall : ∀ s ∈ spellings, s.toList.head? ≠ some '$' ∧ s.toList.getLast? ≠ some ']' ∧
      s.toList.getLast? ≠ some '>' := by decide
  obtain ⟨hdollar, harray, hpromise⟩ := hall s h
  intro hleaf
  rcases hleaf.inversion with heq | ⟨element, heq, _⟩ | ⟨union, heq, _⟩
  · exact hdollar (by rw [heq]; exact (ends_instanceName model).1)
  · exact harray (by rw [heq]; exact last_array element)
  · exact hpromise (by rw [heq]; exact (ends_promise union).2)

/-- **The leaves of a closed type's text are the models that the type mentions.** -/
theorem Closed.instanceLeaf_print {t : TypeExpr} (h : Closed known t) :
    InstanceLeaf model t.print ↔ model ∈ t.models := by
  induction h with
  | keyword listed => exact ⟨fun hl => absurd hl (not_instanceLeaf_spelling listed), fun hm => nomatch hm⟩
  | instanceOf _ _ => rw [print, instanceLeaf_instanceName, models, List.mem_singleton]
  | array _ ih => rw [print, instanceLeaf_array, models, ih]
  | @promise members _ _ inner ih =>
    have hunion : Union.IsUnion ((members.map print).map String.toList) := by
      rw [List.map_map]
      exact isUnion_print inner
    rw [print, printAll_eq, instanceLeaf_promise, Union.split_join hunion, models, modelsOfAll_eq,
      List.mem_flatMap]
    constructor
    · rintro ⟨member, hmem, hleaf⟩
      obtain ⟨t, ht, rfl⟩ := List.mem_map.mp hmem
      exact ⟨t, ht, (ih t ht).mp hleaf⟩
    · rintro ⟨t, ht, hm⟩
      exact ⟨t.print, List.mem_map_of_mem ht, (ih t ht).mpr hm⟩

end TypeExpr

end Rigging
