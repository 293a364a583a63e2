import Rigging.Proofs.Registry
import Rigging.Proofs.TypeExpr

/-!
# Names of global constants

The block of the global declarations has one constant for every name of `globalNames`: those of the
framework, those of the models and of their instances, and those of the services (`globals_block`).
A registry keeps the names of entities apart from each other, but neither from the framework's names
nor from the names that are made for instances.  `nodup_globalNames_iff` says which pools are free of
such clashes, and `globalNames_clash` is a registry that has one.
-/

namespace Rigging

namespace Declaration

open TypeExpr (instanceName)

/-- The names of the global constants in the order of their declarations. -/
def globalNames (models services : List String) : List String :=
  frameworkNames ++ models ++ models.map instanceName ++ services

/-- Whether a line declares a constant. -/
def isConstant (line : String) : Bool :=
  (indent ++ "const ").toList.isPrefixOf line.toList

/-! ### The constants in the text -/

theorem isConstant_globalConstant (name : String) : isConstant (globalConstant name) = true := by
  rw [isConstant, List.isPrefixOf_iff_prefix, globalConstant]
  simp only [String.toList_append, List.append_assoc]
  rw [← List.append_assoc]
  exact List.prefix_append _ _

theorem isConstant_modelImport (name : String) : isConstant (modelImport name) = false := by
  unfold isConstant modelImport
  simp only [String.toList_append, List.append_assoc]
  rfl

theorem isConstant_serviceImport (name : String) : isConstant (serviceImport name) = false := by
  unfold isConstant serviceImport
  simp only [String.toList_append, List.append_assoc]
  rfl

/-- Lines in front that are of no interest can be left out. -/
theorem filter_headed {p : String → Bool} {front lines : List String}
    (hfront : ∀ line ∈ front, p line = false) :
    (headed front lines).filter p = lines.filter p := by
  have hnone : front.filter p = [] :=
    List.filter_eq_nil_iff.mpr fun line hline => by simp [hfront line hline]
  cases lines with
  | nil => rfl
  | cons line lines =>
    rw [headed, if_neg (by simp), List.filter_append, hnone, List.nil_append]

theorem filter_isConstant_constants (names : List String) :
    (names.map globalConstant).filter isConstant = names.map globalConstant := by
  refine List.filter_eq_self.mpr fun line hline => ?_
  obtain ⟨name, _, rfl⟩ := List.mem_map.mp hline
  exact isConstant_globalConstant name

theorem filter_isConstant_imports {text : String → String}
    (h : ∀ name, isConstant (text name) = false) (names : List String) :
    (names.map text).filter isConstant = [] := by
  rw [List.filter_eq_nil_iff]
  intro line hline
  obtain ⟨name, _, rfl⟩ := List.mem_map.mp hline
  rw [h name]
  exact Bool.false_ne_true

/-- **The constants of the global declarations.**  All of them stand in the block, one for every
global name. -/
theorem globals_block (models services : List String) :
    ∃ imports block, globals models services =
        String.intercalate "\n" (imports ++ "declare global \x7b" :: block ++ ["\x7d", ""]) ∧
      imports.filter isConstant = [] ∧
      block.filter isConstant = (globalNames models services).map globalConstant := by
  refine ⟨["import \x7b sails \x7d from './sails/sails';",
      "import \x7b SailsRequest, SailsResponse \x7d from './sails/public';"] ++
      headed ["", "// Models"] (models.map modelImport) ++
      headed ["", "// Services"] (services.map serviceImport) ++ [""],
    [""] ++ frameworkNames.map globalConstant ++ headed [""] (models.map globalConstant) ++
      headed [""] (models.map fun name => globalConstant (instanceName name)) ++
      headed [""] (services.map globalConstant) ++ [""], ?_, ?_, ?_⟩
  · rw [globals, globalLines]
    simp only [List.append_assoc, List.cons_append, List.nil_append]
  · have hmodels : ∀ line ∈ ["", "// Models"], isConstant line = false := by decide
    have hservices : ∀ line ∈ ["", "// Services"], isConstant line = false := by decide
    simp only [List.filter_append]
    rw [filter_headed hmodels, filter_headed hservices,
      filter_isConstant_imports isConstant_modelImport,
      filter_isConstant_imports isConstant_serviceImport]
    decide
  · have hinstances : (models.map fun name => globalConstant (instanceName name)) =
        (models.map instanceName).map globalConstant := by
      rw [List.map_map]
      rfl
    have hblank : [""].filter isConstant = [] := by decide
    have hfront : ∀ line ∈ [""], isConstant line = false := by decide
    simp only [List.filter_append, hinstances, hblank, filter_headed hfront,
      filter_isConstant_constants, globalNames, List.map_append, List.nil_append, List.append_nil]

/-! ### Clashes -/

theorem instanceName_not_mem_frameworkNames (model : String) :
    instanceName model ∉ frameworkNames := by
  have hheads : ∀ name ∈ frameworkNames, name.toList.head? ≠ some '$' := by decide
  intro hmem
  exact hheads _ hmem (TypeExpr.ends_instanceName model).1

/-- Names of entities that differ from each other clash with nothing but the framework's names and
the names of instances. -/
theorem nodup_globalNames {models services : List String} (h : (models ++ services).Nodup) :
    (globalNames models services).Nodup ↔
      ∀ name ∈ models ++ services, name ∉ frameworkNames ∧
        ∀ model ∈ models, name ≠ instanceName model := by
  obtain ⟨hmodels, hservices, hapart⟩ := List.nodup_append'.mp h
  have hinstances : (models.map instanceName).Nodup :=
    hmodels.map TypeExpr.instanceName_injective
  have hframework : frameworkNames.Nodup := by decide
  rw [globalNames, List.append_assoc, List.append_assoc]
  simp only [List.nodup_append', List.disjoint_append_right]
  constructor
  · rintro ⟨_, ⟨_, ⟨_, _, hinstance⟩, hmodel, _⟩, hfixed, _, hfixed'⟩ name hname
    refine ⟨fun hmem => ?_, fun model hmem heq => ?_⟩
    · rcases List.mem_append.mp hname with hname | hname
      · exact hfixed hmem hname
      · exact hfixed' hmem hname
    · have hmade : name ∈ models.map instanceName := heq ▸ List.mem_map_of_mem hmem
      rcases List.mem_append.mp hname with hname | hname
      · exact hmodel hname hmade
      · exact hinstance hmade hname
  · intro hfree
    have hmade : ∀ name ∈ models ++ services, name ∉ models.map instanceName := by
      intro name hname hmem
      obtain ⟨model, hmodel, rfl⟩ := List.mem_map.mp hmem
      exact (hfree _ hname).2 model hmodel rfl
    refine ⟨hframework, ⟨hmodels, ⟨hinstances, hservices, ?_⟩, ?_, hapart⟩, ?_, ?_, ?_⟩
    · exact fun name hmem hname => hmade name (List.mem_append_right _ hname) hmem
    · exact fun name hname hmem => hmade name (List.mem_append_left _ hname) hmem
    · exact fun name hmem hname => (hfree name (List.mem_append_left _ hname)).1 hmem
    · intro name hmem hinst
      obtain ⟨model, _, rfl⟩ := List.mem_map.mp hinst
      exact instanceName_not_mem_frameworkNames model hmem
    · exact fun name hmem hname => (hfree name (List.mem_append_right _ hname)).1 hmem

end Declaration

namespace Registry

open Declaration TypeExpr

/-- The names of the global constants of a registry. -/
def globalNames (r : Registry) : List String :=
  Declaration.globalNames (Assoc.keys r.models) (Assoc.keys r.services)

section Built

variable {pool : Pool} {r : Registry} (h : ofPool pool = .ok r)

include h

/-- The names of a registry are those of the pool's entities, each once. -/
theorem keys_perm :
    (Assoc.keys r.models ++ Assoc.keys r.services).Perm (pool.map Entity.name) := by
  obtain ⟨hmodels, hservices⟩ := keys_eq h rfl
  have hkind : (fun e : Entity => e.kind == .service) = fun e => !e.isModel := by
    funext e
    cases hk : e.kind <;> simp [Entity.isModel, hk]
  rw [hmodels, hservices, hkind, ← List.map_append]
  exact (List.filter_append_perm _ pool).map _

theorem mem_keys_models {name : String} :
    name ∈ Assoc.keys r.models ↔ ∃ m ∈ pool, m.isModel = true ∧ m.name = name := by
  rw [(keys_eq h rfl).1]
  exact Pool.mem_modelNames

/-- **When no global name is declared twice.**  The constants of the global declarations are those of
the global names, and these differ from each other just if no entity has a name of the framework and
none has the name that is made for the instances of a model. -/
theorem nodup_globalNames_iff :
    (∃ imports block, r.globals =
        String.intercalate "\n" (imports ++ "declare global \x7b" :: block ++ ["\x7d", ""]) ∧
      imports.filter isConstant = [] ∧ block.filter isConstant = r.globalNames.map globalConstant) ∧
    (r.globalNames.Nodup ↔ ∀ e ∈ pool, e.name ∉ frameworkNames ∧
      ∀ m ∈ pool, m.isModel = true → e.name ≠ instanceName m.name) := by
  have hperm := keys_perm h
  have hnodup := hperm.nodup_iff.mpr (names_nodup h rfl)
  refine ⟨globals_block _ _, ?_⟩
  rw [globalNames, nodup_globalNames hnodup]
  constructor
  · intro hfree e he
    obtain ⟨hfixed, hmade⟩ := hfree e.name (hperm.mem_iff.mpr (List.mem_map_of_mem he))
    exact ⟨hfixed, fun m hm hmodel => hmade m.name ((mem_keys_models h).mpr ⟨m, hm, hmodel, rfl⟩)⟩
  · intro hfree name hname
    obtain ⟨e, he, rfl⟩ := List.mem_map.mp (hperm.mem_iff.mp hname)
    refine ⟨(hfree e he).1, fun model hmodel => ?_⟩
    obtain ⟨m, hm, hkind, rfl⟩ := (mem_keys_models h).mp hmodel
    exact (hfree e he).2 m hm hkind

end Built

/-- Names that come close to those of the framework and of instances are no clash. -/
theorem nodup_globalNames_pets :
    let pool := [Entity.blank "Pet" "api/models/Pet.js" .model Entity.rootOwner,
      Entity.blank "PetInstance" "api/services/PetInstance.js" .service Entity.rootOwner,
      Entity.blank "Sails" "api/models/Sails.js" .model Entity.rootOwner]
    let r : Registry := ⟨[("Pet", 0), ("Sails", 2)], [("PetInstance", 1)]⟩
    ofPool pool = .ok r ∧ r.globalNames.Nodup := by
  intro pool r
  have hr : ofPool pool = .ok r := by decide
  exact ⟨hr, (nodup_globalNames_iff hr).2.mpr (by decide)⟩

/-- **Global names can clash.**  The pool has a registry, yet its model `sails` is declared beside the
framework's constant, and its service beside the instances of the model `Pet`. -/
theorem globalNames_clash :
    ∃ r, ofPool [Entity.blank "sails" "api/models/sails.js" .model Entity.rootOwner,
        Entity.blank "Pet" "api/models/Pet.js" .model Entity.rootOwner,
        Entity.blank "$PetInstance" "api/services/$PetInstance.js" .service Entity.rootOwner] = .ok r ∧
      r.globalNames.count "sails" = 2 ∧ r.globalNames.count "$PetInstance" = 2 ∧
      ¬r.globalNames.Nodup :=
  ⟨⟨[("sails", 0), ("Pet", 1)], [("$PetInstance", 2)]⟩, by decide, by decide, by decide, by decide⟩

end Registry

end Rigging
