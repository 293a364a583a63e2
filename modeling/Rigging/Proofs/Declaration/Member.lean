import Rigging.Declaration.Member
import Rigging.Proofs.Entity.Resolve
import Rigging.Proofs.TypeExpr

/-!
# The types that members are written with

`Entity.Mentions` says that the instance of a model stands as a leaf of a type that an entity's
members are written with: an attribute's type, a parameter's, or a result's.  What a resolved entity
mentions is among the models that resolution made it import (`Entity.mentions_resolved`).
-/

namespace Rigging

open TypeExpr (Closed InstanceLeaf)

namespace TypeExpr

/-- The instance of a model stands as a leaf in one of the members of a union. -/
def UnionLeaf (model union : String) : Prop :=
  ∃ member ∈ Union.split union, InstanceLeaf model member

/-- The text of a closed type that mentions only listed models. -/
def ClosedText (known : String → Bool) (listed : List String) (text : String) : Prop :=
  ∃ t, Closed known t ∧ t.print = text ∧ ∀ m ∈ t.models, m ∈ listed

variable {known : String → Bool} {listed : List String}

theorem closedText_wildcard : ClosedText known listed wildcard :=
  ⟨any, closed_any, rfl, fun _ hm => nomatch hm⟩

/-- A normalised type mentions what the walk over its text finds. -/
theorem closedText_normalizeAll {texts : List String} {s : String}
    (h : s ∈ normalizeAll known texts) (hlisted : ∀ m ∈ referenced s, m ∈ listed) :
    ClosedText known listed s := by
  obtain ⟨text, _, rfl⟩ := List.mem_map.mp (mem_of_mem_distinct h)
  have hclosed := closed_within_read known text
  refine ⟨_, hclosed, rfl, fun m hm => hlisted m ?_⟩
  rwa [referenced, normalize, read_print hclosed]

/-- The closed types that a list of texts is printed from. -/
theorem exists_map_print {texts : List String} (h : ∀ s ∈ texts, ClosedText known listed s) :
    ∃ ts : List TypeExpr, ts.map print = texts ∧ (∀ t ∈ ts, Closed known t) ∧
      ∀ t ∈ ts, ∀ m ∈ t.models, m ∈ listed := by
  induction texts with
  | nil => exact ⟨[], rfl, fun _ ht => (nomatch ht), fun _ ht => (nomatch ht)⟩
  | cons s texts ih =>
    obtain ⟨t, hclosed, rfl, hmodels⟩ := h s List.mem_cons_self
    obtain ⟨ts, rfl, hall, hlisted⟩ := ih fun u hu => h u (List.mem_cons_of_mem _ hu)
    refine ⟨t :: ts, rfl, ?_, ?_⟩
    · intro u hu
      rcases List.mem_cons.mp hu with rfl | hu
      · exact hclosed
      · exact hall u hu
    · intro u hu
      rcases List.mem_cons.mp hu with rfl | hu
      · exact hmodels
      · exact hlisted u hu

/-- A written union of closed types is split into them again. -/
theorem split_written {ts : List TypeExpr} (h : ∀ t ∈ ts, Closed known t) :
    Union.split (String.intercalate " | " (ts.map print)) = ts.map print := by
  refine Union.split_spaced ?_
  rw [List.map_map]
  exact isUnion_print h

theorem unionLeaf_written {texts : List String} (h : ∀ s ∈ texts, ClosedText known listed s)
    {model : String} (hleaf : UnionLeaf model (String.intercalate " | " texts)) :
    model ∈ listed := by
  obtain ⟨ts, rfl, hclosed, hmodels⟩ := exists_map_print h
  obtain ⟨member, hmem, hleaf⟩ := hleaf
  rw [split_written hclosed] at hmem
  obtain ⟨t, ht, rfl⟩ := List.mem_map.mp hmem
  exact hmodels t ht model ((hclosed t ht).instanceLeaf_print.mp hleaf)

/-- A written promise is the only member of its text, and its leaves are those of the union inside. -/
theorem unionLeaf_writtenPromise {texts : List String}
    (h : ∀ s ∈ texts, ClosedText known listed s) {model : String}
    (hleaf : UnionLeaf model ("Promise<" ++ String.intercalate " | " texts ++ ">")) :
    model ∈ listed := by
  obtain ⟨member, hmem, hleaf⟩ := hleaf
  obtain ⟨ts, rfl, hclosed, -⟩ := exists_map_print h
  have htext : ("Promise<" ++ String.intercalate " | " (ts.map print) ++ ">").toList =
      "Promise<".toList ++ (" | ".toList.intercalate (ts.map fun t => t.print.toList) ++
        ">".toList) := by
    rw [String.toList_append, String.toList_append, String.toList_intercalate, List.map_map,
      List.append_assoc]
    rfl
  have hbalanced : Balanced ("Promise<" ++ String.intercalate " | " (ts.map print) ++ ">").toList := by
    rw [htext]
    refine balanced_promise (fun depth => ⟨?_, rfl⟩) ?_
    · exact ⟨fun hc => Nat.succ_ne_zero _ hc.2, fun hc => Nat.succ_ne_zero _ hc.2,
        fun hc => Nat.succ_ne_zero _ hc.2, trivial⟩
    · intro m hm
      obtain ⟨t, ht, rfl⟩ := List.mem_map.mp hm
      exact (hclosed t ht).wellSpelled.balanced
  obtain ⟨hhead, hlast⟩ := ends_promise (String.intercalate " | " (ts.map print))
  have htrim : Text.Trimmed
      ("Promise<" ++ String.intercalate " | " (ts.map print) ++ ">").toList := by
    refine ⟨fun c hc => ?_, fun c hc => ?_⟩
    · rw [hhead] at hc
      rw [← Option.some.inj hc]
      decide
    · rw [hlast] at hc
      rw [← Option.some.inj hc]
      decide
  have hne : ("Promise<" ++ String.intercalate " | " (ts.map print) ++ ">").toList ≠ [] := by
    intro hnil
    rw [hnil] at hhead
    cases hhead
  rw [Union.split_of_isMember ⟨hne, htrim, (hbalanced 0).1⟩] at hmem
  rw [List.mem_singleton.mp hmem, instanceLeaf_promise] at hleaf
  exact unionLeaf_written h hleaf

end TypeExpr

open TypeExpr (ClosedText UnionLeaf)

/-! ### Functions -/

namespace Declaration

/-- The types of a parameter as they are written. -/
def writtenTypes (p : TypedParam) : List String :=
  let types := if p.types.isEmpty then [TypeExpr.wildcard] else p.types
  if p.isRest then types.map asList else types

/-- The type of a parameter as it is written. -/
def parameterType (p : TypedParam) : String :=
  String.intercalate " | " (writtenTypes p)

variable {known : String → Bool} {listed : List String}

theorem closedText_asList {s : String} (h : ClosedText known listed s) :
    ClosedText known listed (asList s) := by
  unfold asList
  split
  · exact h
  · obtain ⟨t, hclosed, rfl, hmodels⟩ := h
    exact ⟨.array t, .array hclosed, rfl, hmodels⟩

theorem closedText_writtenTypes {p : TypedParam} (h : ∀ s ∈ p.types, ClosedText known listed s) :
    ∀ s ∈ writtenTypes p, ClosedText known listed s := by
  have htypes : ∀ s ∈ (if p.types.isEmpty then [TypeExpr.wildcard] else p.types),
      ClosedText known listed s := by
    intro s hs
    split at hs
    · exact List.mem_singleton.mp hs ▸ TypeExpr.closedText_wildcard
    · exact h s hs
  intro s hs
  simp only [writtenTypes] at hs
  by_cases hrest : p.isRest = true
  · rw [if_pos hrest] at hs
    obtain ⟨u, hu, rfl⟩ := List.mem_map.mp hs
    exact closedText_asList (htypes u hu)
  · rw [if_neg hrest] at hs
    exact htypes s hs

theorem unionLeaf_resultType {f : Function}
    (h : ∀ s ∈ resultTypes f, ClosedText known listed s) {model : String}
    (hleaf : UnionLeaf model (resultType f)) : model ∈ listed := by
  unfold resultType at hleaf
  dsimp only at hleaf
  split at hleaf
  · exact TypeExpr.unionLeaf_writtenPromise h hleaf
  · exact TypeExpr.unionLeaf_written h hleaf

end Declaration

theorem names_typeParams (doc : Option Doc) (names : List String) :
    ∀ seen, (typeParams doc seen names).map TypedParam.name = names := by
  induction names with
  | nil => exact fun _ => rfl
  | cons name names ih =>
    intro seen
    rw [typeParams, List.map_cons, ih]

namespace Function

variable {known : String → Bool}

/-- A typed parameter has the types of a documented one, or is of any type. -/
theorem types_of_mem_typeParams {doc : Option Doc} {p : TypedParam} {names : List String} :
    ∀ {seen : Bool}, p ∈ typeParams doc seen names →
      ∃ documented : Option Doc.Param, p.types = documentedTypes documented ∧
        ∀ q, documented = some q → ∃ d, doc = some d ∧ q ∈ d.params := by
  induction names with
  | nil => exact fun hp => nomatch hp
  | cons name names ih =>
    intro seen hp
    rcases List.mem_cons.mp hp with rfl | hp
    · refine ⟨_, rfl, fun q hq => ?_⟩
      obtain ⟨d, hd, hq⟩ := Option.bind_eq_some_iff.mp hq
      exact ⟨d, hd, List.mem_of_find?_eq_some hq⟩
    · exact ih hp

/-- The types of a resolved function's parameters are closed and mention only its models. -/
theorem closedText_typedParams {f : Function} {p : TypedParam}
    (hp : p ∈ (f.resolved known).typedParams) :
    ∀ s ∈ p.types, ClosedText known (f.resolved known).mentionedModels s := by
  intro s hs
  have hmentioned : ∀ m ∈ TypeExpr.referenced s, m ∈ (f.resolved known).mentionedModels := by
    intro m hm
    refine List.mem_flatMap.mpr ⟨s, List.mem_append_left _ ?_, hm⟩
    exact List.mem_flatMap.mpr ⟨p, hp, hs⟩
  obtain ⟨documented, htypes, hdoc⟩ := types_of_mem_typeParams hp
  rw [htypes] at hs
  cases documented with
  | none => exact List.mem_singleton.mp hs ▸ TypeExpr.closedText_wildcard
  | some q =>
    obtain ⟨d, hd, hq⟩ := hdoc q rfl
    obtain ⟨d', _, rfl⟩ := Option.map_eq_some_iff.mp hd
    obtain ⟨q', _, rfl⟩ := List.mem_map.mp hq
    unfold documentedTypes at hs
    dsimp only at hs
    split at hs
    · exact List.mem_singleton.mp hs ▸ TypeExpr.closedText_wildcard
    · exact TypeExpr.closedText_normalizeAll hs hmentioned

/-- So are the types of its result. -/
theorem closedText_resultTypes {f : Function} :
    ∀ s ∈ Declaration.resultTypes (f.resolved known),
      ClosedText known (f.resolved known).mentionedModels s := by
  intro s hs
  unfold Declaration.resultTypes at hs
  cases hresult : (f.resolved known).doc.bind (·.result) with
  | none =>
    rw [hresult] at hs
    exact List.mem_singleton.mp hs ▸ TypeExpr.closedText_wildcard
  | some r =>
    rw [hresult] at hs
    dsimp only at hs
    split at hs
    · exact List.mem_singleton.mp hs ▸ TypeExpr.closedText_wildcard
    · have hmentioned : ∀ m ∈ TypeExpr.referenced s, m ∈ (f.resolved known).mentionedModels := by
        intro m hm
        refine List.mem_flatMap.mpr ⟨s, List.mem_append_right _ ?_, hm⟩
        rw [hresult]
        exact hs
      obtain ⟨d, hd, hr⟩ := Option.bind_eq_some_iff.mp hresult
      obtain ⟨d', _, rfl⟩ := Option.map_eq_some_iff.mp hd
      obtain ⟨r', _, rfl⟩ := Option.map_eq_some_iff.mp hr
      exact TypeExpr.closedText_normalizeAll hs hmentioned

/-- A resolved function mentions known models only. -/
theorem known_of_mem_mentionedModels {f : Function} {model : String}
    (h : model ∈ (f.resolved known).mentionedModels) : known model = true := by
  obtain ⟨s, hs, hm⟩ := List.mem_flatMap.mp h
  have hclosed : ∃ t, Closed known t ∧ t.print = s := by
    rcases List.mem_append.mp hs with hs | hs
    · obtain ⟨p, hp, hs⟩ := List.mem_flatMap.mp hs
      obtain ⟨t, ht, hprint, _⟩ := closedText_typedParams hp s hs
      exact ⟨t, ht, hprint⟩
    · cases hresult : (f.resolved known).doc.bind (·.result) with
      | none => rw [hresult] at hs; cases hs
      | some r =>
        obtain ⟨d, hd, hr⟩ := Option.bind_eq_some_iff.mp hresult
        obtain ⟨d', _, rfl⟩ := Option.map_eq_some_iff.mp hd
        obtain ⟨r', _, rfl⟩ := Option.map_eq_some_iff.mp hr
        rw [hresult] at hs
        have hclosed : ClosedText known (TypeExpr.referenced s) s :=
          TypeExpr.closedText_normalizeAll hs fun _ hm => hm
        obtain ⟨t, ht, hprint, _⟩ := hclosed
        exact ⟨t, ht, hprint⟩
  obtain ⟨t, ht, rfl⟩ := hclosed
  rw [TypeExpr.referenced, TypeExpr.read_print ht] at hm
  exact ht.known_of_mem_models model hm

end Function

/-! ### Attributes and entities -/

namespace Attribute

variable {models : Models} {a a' : Attribute}

theorem attributeType_typed {type : Scalar} (h : a.properties.given? "type" = some type) :
    ∃ text ∈ TypeExpr.spellings, Declaration.attributeType a.properties = .ok text := by
  have hall : ∀ p ∈ Declaration.attributeTypeNames, p.2 ∈ TypeExpr.spellings := by decide
  have hany : TypeExpr.wildcard ∈ TypeExpr.spellings := by decide
  refine ⟨Declaration.ofAttributeType type, ?_, by simp only [Declaration.attributeType, h]⟩
  cases type with
  | string s =>
    rw [Declaration.ofAttributeType]
    cases hlookup : Declaration.attributeTypeNames.lookup s with
    | none => exact hany
    | some t => exact hall _ (mem_of_lookup_eq_some hlookup)
  | _ => exact hany

/-- The type of an attribute that imports some models: a fixed one, or that of the instances of one of
them, or of lists of these. -/
def IsTypeOver (targets : List String) (type : String) : Prop :=
  type ∈ TypeExpr.spellings ∨ ∃ model ∈ targets,
    type = TypeExpr.instanceName model ∨ type = TypeExpr.instanceName model ++ "[]"

/-- **A resolved attribute has a type** over the model that it imports. -/
theorem Resolves.exists_type {targets : List String} (h : Resolves models a a' targets) :
    ∃ type, Declaration.attributeType a'.properties = .ok type ∧ IsTypeOver targets type := by
  have hany : ∀ targets, IsTypeOver targets TypeExpr.wildcard := fun _ => .inl (by decide)
  cases h with
  | typed given =>
    obtain ⟨type, hlisted, htype⟩ := attributeType_typed given
    exact ⟨type, htype, .inl hlisted⟩
  | through none_given =>
    refine ⟨TypeExpr.wildcard, ?_, hany _⟩
    simp only [Declaration.attributeType, none_given "type" (by decide),
      none_given "model" (by decide), none_given "collection" (by decide)]
  | @association key identity target is_key given only found =>
    -- a model with an empty name does not count as given, so that the type is a fixed one
    have hgiven : (a.naming key target.name).properties.given? key = none ∨
        (a.naming key target.name).properties.given? key = some (.string target.name) := by
      rw [given?_naming_self]
      split
      · exact Or.inl rfl
      · exact Or.inr rfl
    have hother := given?_naming_other only target.name
    have hshown : (Scalar.string target.name).shown = .ok target.name := rfl
    simp only [associationKeys, List.mem_cons, List.not_mem_nil, or_false] at is_key
    rcases is_key with rfl | rfl
    · rcases hgiven with hgiven | hgiven
      · refine ⟨TypeExpr.wildcard, ?_, hany _⟩
        simp only [Declaration.attributeType, hother "type" (by decide) (by decide), hgiven,
          hother "collection" (by decide) (by decide)]
      · refine ⟨TypeExpr.instanceName target.name, ?_, .inr ⟨_, List.mem_cons_self, .inl rfl⟩⟩
        simp only [Declaration.attributeType, hother "type" (by decide) (by decide), hgiven, hshown,
          Except.map]
    · rcases hgiven with hgiven | hgiven
      · refine ⟨TypeExpr.wildcard, ?_, hany _⟩
        simp only [Declaration.attributeType, hother "type" (by decide) (by decide), hgiven,
          hother "model" (by decide) (by decide)]
      · refine ⟨TypeExpr.instanceName target.name ++ "[]", ?_, .inr ⟨_, List.mem_cons_self, .inr rfl⟩⟩
        simp only [Declaration.attributeType, hother "type" (by decide) (by decide), hgiven,
          hother "model" (by decide) (by decide), hshown, Except.map]

/-- The type has no other leaf than the model that the attribute imports. -/
theorem IsTypeOver.leaf {targets : List String} {type model : String} (h : IsTypeOver targets type)
    (hleaf : InstanceLeaf model type) : model ∈ targets := by
  rcases h with hlisted | ⟨target, htarget, rfl | rfl⟩
  · exact absurd hleaf (TypeExpr.not_instanceLeaf_spelling hlisted)
  · rwa [TypeExpr.instanceLeaf_instanceName.mp hleaf]
  · rwa [TypeExpr.instanceLeaf_instanceName.mp (TypeExpr.instanceLeaf_array.mp hleaf)]

end Attribute

namespace Entity

/-- The instance of a model stands as a leaf of a type that the entity's members are written
with. -/
inductive Mentions (e : Entity) (model : String) : Prop
  | ofAttribute {a : Attribute} {type : String} (mem : a ∈ e.attributes)
      (typed : Declaration.attributeType a.properties = .ok type) (leaf : InstanceLeaf model type)
  | ofParameter {f : Function} {p : TypedParam} (mem : f ∈ e.functions) (is_param : p ∈ f.typedParams)
      (leaf : UnionLeaf model (Declaration.parameterType p))
  | ofResult {f : Function} (mem : f ∈ e.functions)
      (leaf : UnionLeaf model (Declaration.resultType f))

/-- **What a resolved entity mentions, it imports.** -/
theorem mentions_resolved {models : Models} {e : Entity} (h : (resolve models e).result = .ok ())
    {model : String} (hm : ((resolve models e).state).Mentions model) :
    model ∈ (resolve models e).state.imports := by
  obtain ⟨as', ts, hall, hstate⟩ := resolve_ok h
  rw [hstate] at hm ⊢
  have hfunction : ∀ f ∈ e.functions.map (Function.resolved models.knows),
      model ∈ f.mentionedModels →
        model ∈ (((e.functions.map (Function.resolved models.knows)).flatMap
          Function.mentionedModels) ++ ts).foldl addNew e.imports :=
    fun f hf hmodel => mem_foldl_addNew.mpr
      (Or.inr (List.mem_append_left _ (List.mem_flatMap.mpr ⟨f, hf, hmodel⟩)))
  cases hm with
  | ofAttribute mem typed leaf =>
    obtain ⟨a, us, hresolves, hus⟩ := hall.resolves _ mem
    obtain ⟨type, htype, hover⟩ := hresolves.exists_type
    obtain rfl := Except.ok.inj (htype.symm.trans typed)
    exact mem_foldl_addNew.mpr (Or.inr (List.mem_append_right _ (hus _ (hover.leaf leaf))))
  | ofParameter mem is_param leaf =>
    refine hfunction _ mem ?_
    obtain ⟨f, _, rfl⟩ := List.mem_map.mp mem
    exact TypeExpr.unionLeaf_written
      (Declaration.closedText_writtenTypes (Function.closedText_typedParams is_param)) leaf
  | ofResult mem leaf =>
    refine hfunction _ mem ?_
    obtain ⟨f, _, rfl⟩ := List.mem_map.mp mem
    exact Declaration.unionLeaf_resultType Function.closedText_resultTypes leaf

/-- Every new import of a resolved entity is a known model. -/
theorem imports_resolved {models : Models} {e : Entity} (h : (resolve models e).result = .ok ())
    {model : String} (hm : model ∈ (resolve models e).state.imports) :
    model ∈ e.imports ∨ models.knows model = true ∨ ∃ m ∈ models, m.2.name = model := by
  obtain ⟨as', ts, hall, hstate⟩ := resolve_ok h
  rw [hstate] at hm
  rcases mem_foldl_addNew.mp hm with hm | hm
  · exact Or.inl hm
  · rcases List.mem_append.mp hm with hm | hm
    · obtain ⟨f', hf', hmodel⟩ := List.mem_flatMap.mp hm
      obtain ⟨f, _, rfl⟩ := List.mem_map.mp hf'
      exact Or.inr (Or.inl (Function.known_of_mem_mentionedModels hmodel))
    · exact Or.inr (Or.inr (hall.target_known model hm))

end Entity

end Rigging
