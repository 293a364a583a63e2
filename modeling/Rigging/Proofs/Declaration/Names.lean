import Rigging.Proofs.Declaration.Linked
import Rigging.Proofs.Entity.Members
import Rigging.Proofs.Project.Prepare

/-!
# Names of members

The names that the classes of an entity declare, one for each member: `instanceNames` for the class of
a model's instances and `staticNames` for its own class.  That a member declares a name (`Declares`) is
said of its text, and `Declared` of the text of a whole class.

The names of a model's attributes differ from each other, and an attribute `id` takes the place of the
default one.  The name of the method that turns an instance into data is not looked for among the
attributes: `instanceNames_nodup_iff` says that this is the only way to declare a name twice.
-/

namespace Rigging

namespace Declaration

/-- A member that declares a name: a property or a method, marked if it may be missing, below its doc
comment. -/
inductive Declares (name : String) : String → Prop
  | property (doc : String) {mark : String} (type : String) (hmark : mark = "" ∨ mark = "?") :
      Declares name (member doc (name ++ mark ++ ": " ++ type ++ ";"))
  | method (doc : String) {mark : String} (params result : String) (hmark : mark = "" ∨ mark = "?") :
      Declares name (member doc ("abstract " ++ name ++ mark ++ "(" ++ params ++ "): " ++ result ++ ";"))

/-- A class whose members declare names, each one its own. -/
def Declared (header : String) (names : List String) (text : String) : Prop :=
  ∃ members, text = classText header members ∧ List.Forall₂ Declares names members

/-- The name of the method that turns an instance into data. -/
def serializationName : String := "toJSON"

/-- The names in the class of a model's instances: the identifier, unless an attribute has its name, the
attributes, and the method that turns an instance into data. -/
def instanceNames (e : Entity) : List String :=
  (if "id" ∈ e.attributes.map (·.name) then [] else ["id"]) ++ e.attributes.map (·.name) ++
    (if serializationHook ∈ e.functions.map (·.name) then [serializationName] else [])

/-- The names in the own class of an entity: its functions, of a model without those that only the
framework calls. -/
def staticNames (e : Entity) : List String :=
  (e.functions.map (·.name)).filter fun name => !(e.isModel && lifecycleHooks.contains name)

theorem mem_instanceNames {e : Entity} {name : String} (h : name ∈ instanceNames e) :
    name = "id" ∨ name ∈ e.attributes.map (·.name) ∨ name = serializationName := by
  simp only [instanceNames, List.mem_append] at h
  rcases h with (h | h) | h
  · split at h
    · cases h
    · exact .inl (List.mem_singleton.mp h)
  · exact .inr (.inl h)
  · split at h
    · exact .inr (.inr (List.mem_singleton.mp h))
    · cases h

/-! ### The members in the text -/

theorem declares_idMember : Declares "id" idMember := by
  have htext : "id: string | number;" = "id" ++ "" ++ ": " ++ "string | number" ++ ";" := by decide
  rw [idMember, htext]
  exact .property _ _ (.inl rfl)

theorem declares_attributeMember {a : Attribute} {text : String} (h : attributeMember a = .ok text) :
    Declares a.name text := by
  rw [Attribute.attributeMember_eq, Act.map_eq_ok_iff] at h
  obtain ⟨type, _, rfl⟩ := h
  refine .property _ _ ?_
  split
  · exact .inl rfl
  · exact .inr rfl

theorem declares_methodAs (name : String) {mark : String} (hmark : mark = "" ∨ mark = "?")
    (f : Function) : Declares name (methodAs (name ++ mark) f) := by
  rw [methodAs, ← String.append_assoc]
  exact .method _ _ _ hmark

theorem declares_method (f : Function) : Declares f.name (method f) := by
  have h := declares_methodAs f.name (.inl rfl) f
  rwa [String.append_empty] at h

/-- The member of the function that turns an instance into data, if there is one. -/
theorem declares_serializer (e : Entity) :
    List.Forall₂ Declares
      (if serializationHook ∈ e.functions.map (·.name) then [serializationName] else [])
      ((e.functions.find? fun f => f.name == serializationHook).map
        (methodAs serializationMethod)).toList := by
  cases hfind : e.functions.find? fun f => f.name == serializationHook with
  | none =>
    have hnone : serializationHook ∉ e.functions.map (·.name) := by
      intro hmem
      obtain ⟨f, hf, hname⟩ := List.mem_map.mp hmem
      exact List.find?_eq_none.mp hfind f hf (beq_iff_eq.mpr hname)
    rw [if_neg hnone]
    exact .nil
  | some f =>
    have hname : f.name = serializationHook := by simpa using List.find?_some hfind
    rw [if_pos (List.mem_map.mpr ⟨f, List.mem_of_find?_eq_some hfind, hname⟩)]
    exact .cons (declares_methodAs serializationName (.inr rfl) f) .nil

/-- **The class of a model's instances** declares the names of `instanceNames`. -/
theorem declared_instanceClass {e : Entity} {text : String} (h : instanceClass e = .ok text) :
    Declared ("export declare abstract class " ++ TypeExpr.instanceName e.name) (instanceNames e)
      text := by
  rw [instanceClass_eq, Act.map_eq_ok_iff] at h
  obtain ⟨members, hmembers, rfl⟩ := h
  have hid : (e.attributes.any fun a => a.name == "id") = true ↔ "id" ∈ e.attributes.map (·.name) := by
    simp
  refine ⟨_, rfl, List.rel_append (List.rel_append ?_ ?_) (declares_serializer e)⟩
  · simp only [hid]
    split
    · exact .nil
    · exact .cons declares_idMember .nil
  · rw [List.forall₂_map_left_iff]
    exact (mapM_ok_iff.mp hmembers).imp fun _ _ => declares_attributeMember

/-- **The own class of an entity** declares the names of `staticNames`. -/
theorem declared_ownClass (e : Entity) : ∃ header, Declared header (staticNames e) (ownClass e) := by
  unfold ownClass modelClass serviceClass staticNames
  cases e.isModel with
  | true =>
    refine ⟨_, _, rfl, ?_⟩
    rw [List.filter_map, List.forall₂_map_left_iff, List.forall₂_map_right_iff]
    exact List.forall₂_same.mpr fun f _ => declares_method f
  | false =>
    refine ⟨_, _, rfl, ?_⟩
    rw [List.forall₂_map_right_iff]
    simp only [Bool.false_and, Bool.not_false, List.filter_true]
    rw [List.forall₂_map_left_iff, List.forall₂_same]
    exact fun f _ => declares_method f

/-- **What is declared of an entity**: the class of a model's instances, and the own class. -/
theorem declared_standalone {d : Entity} (h : (d.declareStandalone).result = .ok ()) :
    (d.isModel = true → ∃ body, d.declareStandalone.state.declarations.instanceClass = some body ∧
      Declared ("export declare abstract class " ++ TypeExpr.instanceName d.name) (instanceNames d)
        body) ∧
    ∃ header body, d.declareStandalone.state.declarations.staticClass = some body ∧
      Declared header (staticNames d) body := by
  obtain ⟨text, htext, heq⟩ := Entity.declareStandalone_ok h
  rw [heq]
  refine ⟨fun hmodel => ?_, ?_⟩
  · obtain ⟨body, hbody, rfl⟩ := (Entity.instances_model hmodel).mp htext
    exact ⟨body, rfl, declared_instanceClass hbody⟩
  · obtain ⟨header, hdeclared⟩ := declared_ownClass d
    exact ⟨header, ownClass d, rfl, hdeclared⟩

/-! ### Names that come twice -/

section Nodup

variable {e : Entity} (h : (e.attributes.map (·.name)).Nodup)

include h

/-- The default identifier gives way to an attribute of its name. -/
theorem count_id_instanceNames : (instanceNames e).count "id" = 1 := by
  have hserializer : (if serializationHook ∈ e.functions.map (·.name) then [serializationName]
      else []).count "id" = 0 := by
    split <;> decide
  rw [instanceNames, List.count_append, List.count_append, hserializer]
  by_cases hid : "id" ∈ e.attributes.map (·.name)
  · rw [if_pos hid, List.count_eq_one_of_mem h hid]
    rfl
  · rw [if_neg hid, List.count_eq_zero_of_not_mem hid]
    rfl

/-- Only the method that turns an instance into data can have the name of an attribute. -/
theorem nodup_instanceNames_iff :
    (instanceNames e).Nodup ↔
      ¬(serializationName ∈ e.attributes.map (·.name) ∧
        serializationHook ∈ e.functions.map (·.name)) := by
  have hfront : ((if "id" ∈ e.attributes.map (·.name) then [] else ["id"]) ++
      e.attributes.map (·.name)).Nodup := by
    split
    · exact h
    · rename_i hid
      exact List.nodup_cons.mpr ⟨hid, h⟩
  have hmem : serializationName ∈ (if "id" ∈ e.attributes.map (·.name) then [] else ["id"]) ++
      e.attributes.map (·.name) ↔ serializationName ∈ e.attributes.map (·.name) := by
    have hne : serializationName ∉ if "id" ∈ e.attributes.map (·.name) then [] else ["id"] := by
      split <;> decide
    rw [List.mem_append, or_iff_right hne]
  rw [instanceNames]
  by_cases hhook : serializationHook ∈ e.functions.map (·.name)
  · rw [if_pos hhook, List.nodup_append_comm, List.singleton_append, List.nodup_cons, hmem,
      and_iff_left hfront, and_iff_left hhook]
  · rw [if_neg hhook, List.append_nil]
    exact iff_of_true hfront fun hboth => hhook hboth.2

end Nodup

end Declaration

namespace Entity

open Declaration Extraction

/-! ### The names of a model -/

/-- An entity that has been read, and perhaps resolved. -/
inductive Prepared (e : Entity) : Entity → Prop
  | read : Prepared e e
  | resolved {models : Models} (accepted : (resolve models e).result = .ok ()) :
      Prepared e (resolve models e).state

theorem Prepared.attributeNames {e d : Entity} (h : e.Prepared d) :
    d.attributes.map (·.name) = e.attributes.map (·.name) := by
  cases h with
  | read => rfl
  | resolved accepted => exact attributeNames_resolve accepted

theorem Prepared.functionNames {e d : Entity} (h : e.Prepared d) :
    d.functions.map (·.name) = e.functions.map (·.name) := by
  cases h with
  | read => rfl
  | resolved _ => exact functionNames_resolve _ e

theorem Prepared.frame {e d : Entity} (h : e.Prepared d) : d.frame = e.frame := by
  cases h with
  | read => rfl
  | resolved _ => exact keeps_resolve _ e

theorem Prepared.name_kind {e d : Entity} {name filename owner text : String} {kind : EntityKind}
    (h : e.Prepared d) (hread : (ofSource name filename kind owner text ()).result = .ok e) :
    d.name = name ∧ d.kind = kind := by
  have hframe := h.frame
  rw [gives_ofSource name filename kind owner text () e hread] at hframe
  exact ⟨congrArg Prod.fst hframe, congrArg (fun f => f.2.2.1) hframe⟩

theorem nodup_attributeNames {name filename owner text : String} {kind : EntityKind} {e : Entity}
    (h : (ofSource name filename kind owner text ()).result = .ok e) :
    (e.attributes.map (·.name)).Nodup := by
  obtain ⟨items, inner, hextracts⟩ := extracts_ofSource h
  rw [hextracts.attributes]
  exact hextracts.apart.of_map

/-- **When no member of a model's instances is declared twice.**  The class of the instances has one
member for each of `instanceNames`, and exactly one of these is `id`.  They differ from each other just
if the model has no attribute `toJSON` beside a function `customToJSON`. -/
theorem instanceNames_nodup_iff {name filename owner text : String} {models : Models} {e : Entity}
    (hread : (ofSource name filename .model owner text ()).result = .ok e)
    (hresolve : (resolve models e).result = .ok ()) :
    let d := (resolve models e).state
    (∃ body, d.declareStandalone.result = .ok () ∧
      d.declareStandalone.state.declarations.instanceClass = some body ∧
      Declared ("export declare abstract class " ++ TypeExpr.instanceName name) (instanceNames d) body) ∧
    (instanceNames d).count "id" = 1 ∧
    ((instanceNames d).Nodup ↔ ¬(serializationName ∈ e.attributes.map (·.name) ∧
      serializationHook ∈ e.functions.map (·.name))) := by
  intro d
  have hprepared : e.Prepared d := .resolved hresolve
  have hnodup : (d.attributes.map (·.name)).Nodup := by
    rw [hprepared.attributeNames]
    exact nodup_attributeNames hread
  obtain ⟨hname, hkind⟩ := hprepared.name_kind hread
  have hmodel : d.isModel = true := by rw [isModel, hkind]; rfl
  have hdeclare : d.declareStandalone.result = .ok () := declareStandalone_resolved hresolve
  obtain ⟨body, hbody, hdeclared⟩ := (declared_standalone hdeclare).1 hmodel
  refine ⟨⟨body, hdeclare, hbody, hname ▸ hdeclared⟩, count_id_instanceNames hnodup, ?_⟩
  · rw [nodup_instanceNames_iff hnodup, hprepared.attributeNames, hprepared.functionNames]

/-- A model with one attribute, of which the name is given, and with a function that turns its instances
into data. -/
def serializedText (key : String) : String :=
  "module.exports = \x7b attributes: \x7b " ++ key ++
    ": \x7b type: 'string' \x7d \x7d, customToJSON() \x7b\x7d \x7d;"

/-- The entity of that text. -/
def serialized (key : String) : Entity :=
  { blank "Pet" "api/models/Pet.js" .model rootOwner with
    attributes := [⟨key, [("type", .string "string")], none⟩]
    functions := [⟨"customToJSON", [], false, none, []⟩] }

/-- The name of the attribute and that of the method differ in case, so both can be declared. -/
theorem instanceNames_nodup_iff_toJson :
    (ofSource "Pet" "api/models/Pet.js" .model rootOwner (serializedText "toJson") ()).result =
        .ok (serialized "toJson") ∧
      (resolve [] (serialized "toJson")).result = .ok () ∧
      instanceNames (resolve [] (serialized "toJson")).state = ["id", "toJson", "toJSON"] ∧
      (instanceNames (resolve [] (serialized "toJson")).state).Nodup := by
  have hread : (ofSource "Pet" "api/models/Pet.js" .model rootOwner (serializedText "toJson") ()).result =
      .ok (serialized "toJson") := by
    decide +kernel
  have hresolve : (resolve [] (serialized "toJson")).result = .ok () := by decide
  exact ⟨hread, hresolve, by decide, (instanceNames_nodup_iff hread hresolve).2.2.mpr (by decide)⟩

/-- An attribute `toJSON` is declared, and so is the method. -/
theorem instanceNames_clash :
    (ofSource "Pet" "api/models/Pet.js" .model rootOwner (serializedText "toJSON") ()).result =
        .ok (serialized "toJSON") ∧
      (resolve [] (serialized "toJSON")).result = .ok () ∧
      instanceNames (resolve [] (serialized "toJSON")).state = ["id", "toJSON", "toJSON"] ∧
      ¬(instanceNames (resolve [] (serialized "toJSON")).state).Nodup := by
  have hread : (ofSource "Pet" "api/models/Pet.js" .model rootOwner (serializedText "toJSON") ()).result =
      .ok (serialized "toJSON") := by
    decide +kernel
  exact ⟨hread, by decide, by decide, by decide⟩

end Entity

end Rigging
