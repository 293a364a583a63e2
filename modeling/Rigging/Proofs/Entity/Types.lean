import Rigging.Proofs.Declaration.Member
import Rigging.Proofs.TypeExpr.Known

/-!
# The types of a resolved entity

`Grammar` is the closed grammar as a set of texts, with the models of a registry.  Whatever comments
an entity's functions have, and whether or not its attributes can be resolved, resolution leaves its
functions in place with all their types in this grammar (`Entity.resolve_grammar`): those of the comment
and those of the parameters, each of which has at least one.
-/

namespace Rigging

namespace TypeExpr

/-- The texts of types over the models of a registry. -/
inductive Grammar (models : Models) : String → Prop
  | keyword {spelling : String} (listed : spelling ∈ spellings) : Grammar models spelling
  | instanceOf {name : String} (known : name ∈ Assoc.keys models)
      (is_name : isName name.toList = true) : Grammar models ("$" ++ name ++ "Instance")
  | array {element : String} (inner : Grammar models element) : Grammar models (element ++ "[]")
  | promise {members : List String} (ne_nil : members ≠ []) (distinct : members.Nodup)
      (each : ∀ m ∈ members, Grammar models m) :
      Grammar models ("Promise<" ++ Union.join members ++ ">")

variable {models : Models}

/-- Closed types are written in the grammar. -/
theorem Closed.grammar {t : TypeExpr} (h : Closed models.knows t) : Grammar models t.print := by
  induction h with
  | keyword listed => exact .keyword listed
  | instanceOf name is_known => exact .instanceOf (Models.knows_iff.mp is_known) name
  | array _ ih => exact .array ih
  | promise ne_nil distinct _ ih =>
    rw [print, printAll_eq]
    refine .promise (fun hnil => ne_nil (List.map_eq_nil_iff.mp hnil)) distinct fun m hm => ?_
    obtain ⟨t, ht, rfl⟩ := List.mem_map.mp hm
    exact ih t ht

/-- **No other text survives normalising.** -/
theorem grammar_of_mem_normalizeAll {texts : List String} :
    ∀ s ∈ normalizeAll models.knows texts, Grammar models s := by
  intro s hs
  obtain ⟨text, _, rfl⟩ := List.mem_map.mp (mem_of_mem_distinct hs)
  exact (closed_within_read models.knows text).grammar

end TypeExpr

open TypeExpr (Grammar)

/-! ### Functions -/

theorem documentedTypes_ne_nil (param : Option Doc.Param) : documentedTypes param ≠ [] := by
  cases param with
  | none => exact List.cons_ne_nil _ _
  | some p =>
    rw [documentedTypes]
    split
    · exact List.cons_ne_nil _ _
    · rename_i hne
      exact fun hnil => hne (List.isEmpty_iff.mpr hnil)

namespace Function

/-- All types of a function are in the grammar, and its parameters are typed: one by one, in order,
and each with some type. -/
structure InGrammar (models : Models) (f : Function) : Prop where
  documented : ∀ d, f.doc = some d → ∀ p ∈ d.params, ∀ t ∈ p.types, Grammar models t
  returned : ∀ d, f.doc = some d → ∀ r, d.result = some r → ∀ t ∈ r.types, Grammar models t
  typed : ∀ p ∈ f.typedParams, ∀ t ∈ p.types, Grammar models t
  names : f.typedParams.map TypedParam.name = f.params
  given : ∀ p ∈ f.typedParams, p.types ≠ []

theorem inGrammar_resolved (models : Models) (f : Function) :
    (f.resolved models.knows).InGrammar models where
  documented := by
    intro d hd p hp
    obtain ⟨_, _, rfl⟩ := Option.map_eq_some_iff.mp hd
    obtain ⟨_, _, rfl⟩ := List.mem_map.mp hp
    exact TypeExpr.grammar_of_mem_normalizeAll
  returned := by
    intro d hd r hr
    obtain ⟨_, _, rfl⟩ := Option.map_eq_some_iff.mp hd
    obtain ⟨_, _, rfl⟩ := Option.map_eq_some_iff.mp hr
    exact TypeExpr.grammar_of_mem_normalizeAll
  typed := by
    intro p hp t ht
    obtain ⟨_, hclosed, rfl, _⟩ := closedText_typedParams hp t ht
    exact hclosed.grammar
  names := names_typeParams _ _ _
  given := by
    intro p hp
    obtain ⟨documented, htypes, _⟩ := types_of_mem_typeParams hp
    rw [htypes]
    exact documentedTypes_ne_nil documented

end Function

/-! ### Entities -/

namespace Entity

/-- Resolution resolves every function, also when it ends at an attribute. -/
theorem functions_resolve (models : Models) (e : Entity) :
    (resolve models e).state.functions = e.functions.map (Function.resolved models.knows) := by
  have hfunctions : (resolveFunctions models e).functions =
      e.functions.map (Function.resolved models.knows) := by
    rw [resolveFunctions_eq]
  have hkeep := preserves_resolveAttributes
    (I := fun e' => e'.functions = e.functions.map (Function.resolved models.knows))
    (fun e' name h => by rw [addImport_eq, ← h]) (fun _ _ _ h => h) models
    (resolveFunctions models e).attributes 0 (resolveFunctions models e) hfunctions
  rw [resolve, Act.modify_bind, Act.state_bind]
  exact hkeep

/-- **Every type that leaves resolution is in the closed grammar.**  Function by function, the name,
the parameters and the way of answering stay, and all types come to be in the grammar. -/
theorem resolve_grammar (models : Models) (e : Entity) :
    List.Forall₂ (fun f f' => f'.name = f.name ∧ f'.params = f.params ∧ f'.isAsync = f.isAsync ∧
      f'.InGrammar models) e.functions (resolve models e).state.functions := by
  rw [functions_resolve, List.forall₂_map_right_iff, List.forall₂_same]
  intro f _
  exact ⟨rfl, rfl, rfl, f.inGrammar_resolved models⟩

end Entity

end Rigging
