import Rigging.Proofs.Entity.Attributes
import Rigging.Proofs.Entity.Types

/-!
# The members of an entity

Where the names of an entity's members come from.  Every attribute has the name of a key of the object
with the attributes, and every function that of a key of the exported object (`Extracts`); the names of
attributes differ in more than case.  Resolving an entity keeps all its names.
-/

namespace Rigging

namespace Script

open Extraction (keyName)

/-- The name of a key that has one and can be read. -/
def Key.name? (key : Key) : Option String :=
  match keyName key with
  | .ok found => found
  | .error _ => none

namespace Item

/-- The key of a member that gives an attribute. -/
def attributeKey? : Item → Option Key
  | .pair key (.object _) => some key
  | _ => none

/-- The key of a member that gives a function. -/
def functionKey? : Item → Option Key
  | .method key _ _ => some key
  | .pair key (.function _ _ _) => some key
  | _ => none

/-- The name of a function. -/
def functionName? (item : Item) : Option String :=
  item.functionKey?.bind Key.name?

theorem attributeName?_eq (item : Item) : item.attributeName? = item.attributeKey?.bind Key.name? := by
  cases item with
  | pair key value => cases value <;> rfl
  | _ => rfl

end Item

end Script

namespace Extraction

open Script (Item Key)

/-! ### Names that are read -/

/-- An attribute has the name of its member. -/
theorem name_attribute? (previous : Option Item) (item : Item) :
    (attribute? previous item).map (·.name) = item.attributeName? := by
  unfold attribute?
  cases hname : item.attributeName? with
  | none => rfl
  | some name =>
    obtain ⟨key, items, rfl, _⟩ := exists_of_attributeName? hname
    rfl

/-- The attributes that are read are those of the members that give one, all of them apart. -/
theorem attributesFrom_ok {entity : Entity} {items : List Item} {attributes : List Attribute}
    (h : (attributesFrom entity [] (withPrevious none items) ()).result = .ok attributes) :
    (identities items).Nodup ∧
      attributes = (withPrevious none items).filterMap fun x => attribute? x.1 x.2 := by
  have hend := attributesFrom_end entity readTo_nil (withPrevious none items)
  rw [h, List.nil_append, map_snd_withPrevious] at hend
  cases hend with
  | read fits apart =>
    have hread := attributesFrom_eq entity [] (withPrevious none items)
      (by rwa [map_snd_withPrevious]) List.nodup_nil
    rw [show seenNames [] = [] from rfl] at hread
    rcases hread with ⟨_, hread⟩ | ⟨_, _, _, _, _, _, _, hread⟩
    · rw [hread] at h
      exact ⟨apart, (Except.ok.inj h).symm⟩
    · rw [hread] at h
      cases h

/-- They have the names of these members. -/
theorem names_attributes (items : List Item) :
    ((withPrevious none items).filterMap fun x => attribute? x.1 x.2).map (·.name) =
      items.filterMap Item.attributeName? := by
  rw [List.map_filterMap]
  simp only [name_attribute?]
  conv_rhs => rw [← map_snd_withPrevious none items, List.filterMap_map]
  rfl

/-- The function that a member gives, with the doc comment from the item in front of it. -/
def function? (previous : Option Item) : Item → Option Function
  | .method key async params =>
    key.name?.map fun name => ⟨name, paramNames params, async, leadingDoc previous, []⟩
  | .pair key (.function _ async params) =>
    key.name?.map fun name => ⟨name, paramNames params, async, leadingDoc previous, []⟩
  | _ => none

/-- A function has the name of its member. -/
theorem name_function? (previous : Option Item) (item : Item) :
    (function? previous item).map (·.name) = item.functionName? := by
  have hname : ∀ {f : String → Function}, (∀ name, (f name).name = name) → ∀ key : Key,
      (key.name?.map f).map (·.name) = key.name? := by
    intro f hf key
    rw [Option.map_map, Function.comp_def]
    simp only [hf, Option.map_id']
  cases item with
  | method key async params => exact hname (fun _ => rfl) key
  | pair key value =>
    cases value with
    | function kind async params => exact hname (fun _ => rfl) key
    | _ => rfl
  | _ => rfl

/-- A member gives at most one function, which comes first. -/
theorem functionsFrom_step {entity : Entity} {previous : Option Item} {item : Item}
    {rest : List (Option Item × Item)} {functions : List Function}
    (h : (functionsFrom entity ((previous, item) :: rest) ()).result = .ok functions) :
    ∃ more, (functionsFrom entity rest ()).result = .ok more ∧
      functions = (function? previous item).toList ++ more := by
  cases item with
  | method key async params =>
    obtain ⟨found, hname, hrest, _⟩ := Act.bind_result_ok h
    rw [Act.result_ofExcept] at hname
    rw [function?, Key.name?, hname]
    cases found with
    | none => exact ⟨functions, hrest, rfl⟩
    | some name =>
      obtain ⟨more, hmore, hlast, _⟩ := Act.bind_result_ok hrest
      cases hlast
      exact ⟨more, hmore, rfl⟩
  | pair key value =>
    cases value with
    | function kind async params =>
      obtain ⟨found, hname, hrest, _⟩ := Act.bind_result_ok h
      rw [Act.result_ofExcept] at hname
      rw [function?, Key.name?, hname]
      cases found with
      | none => exact ⟨functions, hrest, rfl⟩
      | some name =>
        -- the form is reported before the rest is read
        obtain ⟨_, _, hrest, _⟩ := Act.bind_result_ok hrest
        obtain ⟨more, hmore, hlast, _⟩ := Act.bind_result_ok hrest
        cases hlast
        exact ⟨more, hmore, rfl⟩
    | _ => exact ⟨functions, h, rfl⟩
  | _ => exact ⟨functions, h, rfl⟩

/-- The functions that are read are those of the members that give one. -/
theorem functionsFrom_ok {entity : Entity} {items : List (Option Item × Item)}
    {functions : List Function} (h : (functionsFrom entity items ()).result = .ok functions) :
    functions = items.filterMap fun x => function? x.1 x.2 := by
  induction items generalizing functions with
  | nil =>
    cases h
    rfl
  | cons x rest ih =>
    obtain ⟨more, hmore, hfunctions⟩ := functionsFrom_step h
    rw [hfunctions, ih hmore, List.filterMap_cons]
    cases function? x.1 x.2 <;> rfl

/-- They have the names of these members. -/
theorem names_functions (items : List Item) :
    ((withPrevious none items).filterMap fun x => function? x.1 x.2).map (·.name) =
      items.filterMap Item.functionName? := by
  rw [List.map_filterMap]
  simp only [name_function?]
  conv_rhs => rw [← map_snd_withPrevious none items, List.filterMap_map]
  rfl

/-! ### Entities -/

/-- What an entity takes from its module: functions from the members of the exported object, and
attributes from those of the object under `attributes`, if there is one.  Without an exported object,
there are no members. -/
structure Extracts (text : String) (items inner : List Item) (e : Entity) : Prop where
  read : ∃ statements, Script.read text = .ok statements ∧ items = (exports? statements).getD []
  found : ∀ other, AttributesAt items other → inner = other
  only : inner = [] ∨ AttributesAt items inner
  apart : (identities inner).Nodup
  attributes : e.attributes.map (·.name) = inner.filterMap Item.attributeName?
  functions : e.functions.map (·.name) = items.filterMap Item.functionName?

end Extraction

namespace Attribute

section Resolved

variable {models : Models} {as as' : List Attribute} {ts : List String}

/-- What does not depend on the properties of an attribute is kept when attributes are resolved. -/
theorem ResolvesAll.map_eq {α : Type} {f : Attribute → α}
    (hf : ∀ a key name, f (naming a key name) = f a)
    (h : ResolvesAll models as as' ts) : as'.map f = as.map f := by
  induction h with
  | nil => rfl
  | cons head _ ih =>
    rw [List.map_cons, List.map_cons, ih]
    cases head with
    | typed => rfl
    | through => rfl
    | association => rw [hf]

theorem ResolvesAll.names (h : ResolvesAll models as as' ts) :
    as'.map (·.name) = as.map (·.name) := h.map_eq fun _ _ _ => rfl

theorem ResolvesAll.docs (h : ResolvesAll models as as' ts) :
    as'.map (·.doc) = as.map (·.doc) := h.map_eq fun _ _ _ => rfl

end Resolved

end Attribute

namespace Entity

open Extraction
open Script (Item)

/-- **The parts of filling in an entity**: without an exported object nothing is filled in, and with
one the attributes, if there is an object for them, and the functions. -/
theorem fill_ok {blank e : Entity} {statements : List Script.Statement}
    (h : (blank.fill statements ()).result = .ok e) :
    (exports? statements = none ∧ e = blank) ∨
      ∃ items object attributes functions, exports? statements = some items ∧
        (attributesObject blank items ()).result = .ok object ∧
        ((object = none ∧ attributes = []) ∨ ∃ inner, object = some inner ∧
          (attributesFrom blank [] (withPrevious none inner) ()).result = .ok attributes) ∧
        (functionsFrom blank (withPrevious none items) ()).result = .ok functions ∧
        e = { blank with attributes, functions } := by
  unfold fill at h
  cases hexports : exports? statements with
  | none =>
    rw [hexports] at h
    cases h
    exact .inl ⟨rfl, rfl⟩
  | some items =>
    rw [hexports] at h
    obtain ⟨object, hobject, h, _⟩ := Act.bind_result_ok h
    cases object with
    | none =>
      obtain ⟨_, hnone, h, _⟩ := Act.bind_result_ok h
      cases hnone
      obtain ⟨functions, hfunctions, h, _⟩ := Act.bind_result_ok h
      cases h
      exact .inr ⟨items, none, [], functions, rfl, hobject, .inl ⟨rfl, rfl⟩, hfunctions, rfl⟩
    | some inner =>
      obtain ⟨attributes, hattributes, h, _⟩ := Act.bind_result_ok h
      obtain ⟨functions, hfunctions, h, _⟩ := Act.bind_result_ok h
      cases h
      exact .inr ⟨items, some inner, attributes, functions, rfl, hobject,
        .inr ⟨inner, rfl, hattributes⟩, hfunctions, rfl⟩

theorem extracts_fill {blank e : Entity} {text : String} {statements : List Script.Statement}
    (hread : Script.read text = .ok statements) (hno : blank.attributes = [] ∧ blank.functions = [])
    (h : (blank.fill statements ()).result = .ok e) :
    ∃ items inner, Extracts text items inner e := by
  rcases fill_ok h with ⟨hexports, rfl⟩ |
    ⟨items, object, attributes, functions, hexports, hobject, hattributes, hfunctions, rfl⟩
  · refine ⟨[], [], ⟨statements, hread, by rw [hexports]; rfl⟩, ?_, .inl rfl, List.nodup_nil, ?_, ?_⟩
    · exact fun other hother => absurd hother not_comesTo_nil
    · rw [hno.1]
      rfl
    · rw [hno.2]
      rfl
  · have hitems : ∃ found, Script.read text = .ok found ∧ items = (exports? found).getD [] :=
      ⟨statements, hread, by rw [hexports]; rfl⟩
    have hat : ∀ inner, AttributesAt items inner ↔ object = some inner := by
      intro inner
      rw [← attributesObject_ok_some_iff blank, hobject, Except.ok.injEq]
    have hnames : functions.map (·.name) = items.filterMap Item.functionName? := by
      rw [functionsFrom_ok hfunctions, names_functions]
    rcases hattributes with ⟨rfl, rfl⟩ | ⟨inner, rfl, hattributes⟩
    · refine ⟨items, [], hitems, fun other hother => ?_, .inl rfl, List.nodup_nil, rfl, hnames⟩
      cases (hat other).mp hother
    · obtain ⟨apart, rfl⟩ := attributesFrom_ok hattributes
      refine ⟨items, inner, hitems, fun other hother => ?_, .inr ((hat inner).mpr rfl), apart,
        names_attributes inner, hnames⟩
      exact Option.some.inj ((hat other).mp hother)

/-- **The names of an entity are names of keys** in its module. -/
theorem extracts_ofSource {name filename owner text : String} {kind : EntityKind} {e : Entity}
    (h : (ofSource name filename kind owner text ()).result = .ok e) :
    ∃ items inner, Extracts text items inner e := by
  unfold ofSource at h
  cases hread : Script.read text with
  | error line =>
    rw [hread] at h
    cases h
  | ok statements =>
    rw [hread] at h
    exact extracts_fill hread ⟨rfl, rfl⟩ h

theorem attributeNames_resolve {models : Models} {e : Entity} (h : (resolve models e).result = .ok ()) :
    (resolve models e).state.attributes.map (·.name) = e.attributes.map (·.name) := by
  obtain ⟨as', ts, hall, hstate⟩ := resolve_ok h
  rw [hstate]
  exact hall.names

theorem functionNames_resolve (models : Models) (e : Entity) :
    (resolve models e).state.functions.map (·.name) = e.functions.map (·.name) := by
  rw [functions_resolve, List.map_map]
  rfl

end Entity

end Rigging
