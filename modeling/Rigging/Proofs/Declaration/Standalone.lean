import Rigging.Declaration.Linked
import Rigging.Proofs.Declaration.Member

/-!
# Declaring entities standing alone

Declaring an entity standing alone writes its classes or leaves it as it is
(`Entity.declareStandalone_cases`).  The only thing that can go wrong is an association of a model that
shows a number which is too long (`Entity.declareStandalone_ok_iff`).  An entity that has been resolved
shows the names of models there, so it can always be declared (`Entity.declareStandalone_resolved`).
-/

namespace Rigging

namespace Declaration

/-- The own class of an entity. -/
def ownClass (e : Entity) : String :=
  if e.isModel then modelClass e else serviceClass e

end Declaration

/-! ### Attributes -/

namespace Attribute

open Declaration

/-- What the declared type of an attribute shows, if the attribute is an association. -/
def association? (a : Attribute) : Option Scalar :=
  match a.properties.given? "type" with
  | some _ => none
  | none => (a.properties.given? "model").or (a.properties.given? "collection")

/-- The declared type of an attribute would show a number that is too long. -/
def ShowsLongNumber (a : Attribute) : Prop :=
  ∃ v, a.association? = some v ∧ v.isShowable = false

/-- **When an attribute has a declared type.** -/
theorem attributeType_cases (a : Attribute) :
    (¬a.ShowsLongNumber ∧ ∃ type, attributeType a.properties = .ok type) ∨
      (a.ShowsLongNumber ∧ attributeType a.properties = .error (.system .tooManyDigits)) := by
  have hshown : ∀ (v : Scalar) (text : String → String), a.association? = some v →
      attributeType a.properties = v.shown.map text →
      (¬a.ShowsLongNumber ∧ ∃ type, attributeType a.properties = .ok type) ∨
        (a.ShowsLongNumber ∧ attributeType a.properties = .error (.system .tooManyDigits)) := by
    intro v text hv htype
    rw [htype, Scalar.shown]
    cases hshow : v.isShowable with
    | true =>
      refine .inl ⟨?_, _, rfl⟩
      rintro ⟨v', hv', hlong⟩
      obtain rfl := Option.some.inj (hv.symm.trans hv')
      rw [hshow] at hlong
      cases hlong
    | false => exact .inr ⟨⟨v, hv, hshow⟩, rfl⟩
  have hplain : a.association? = none → ¬a.ShowsLongNumber := by
    rintro hnone ⟨v, hv, _⟩
    rw [hnone] at hv
    cases hv
  cases htype : a.properties.given? "type" with
  | some type =>
    exact .inl ⟨hplain (by simp only [association?, htype]),
      ofAttributeType type, by simp only [attributeType, htype]⟩
  | none =>
    cases hmodel : a.properties.given? "model" with
    | some v =>
      exact hshown v TypeExpr.instanceName (by simp only [association?, htype, hmodel, Option.some_or])
        (by simp only [attributeType, htype, hmodel])
    | none =>
      cases hcollection : a.properties.given? "collection" with
      | some v =>
        exact hshown v (fun name => TypeExpr.instanceName name ++ "[]")
          (by simp only [association?, htype, hmodel, hcollection, Option.none_or])
          (by simp only [attributeType, htype, hmodel, hcollection])
      | none =>
        exact .inl ⟨hplain (by simp only [association?, htype, hmodel, hcollection, Option.or_none]),
          TypeExpr.wildcard, by simp only [attributeType, htype, hmodel, hcollection]⟩

theorem attributeMember_eq (a : Attribute) :
    attributeMember a = (attributeType a.properties).map fun type =>
      member (Doc.write? indent a.doc)
        (a.name ++ (if (a.properties.given? "required").isSome then "" else "?") ++ ": " ++ type ++
          ";") := by
  unfold attributeMember
  cases attributeType a.properties <;> rfl

theorem exists_attributeMember_iff {a : Attribute} :
    (∃ text, attributeMember a = .ok text) ↔ ¬a.ShowsLongNumber := by
  rw [attributeMember_eq]
  rcases a.attributeType_cases with ⟨hshort, type, htype⟩ | ⟨hlong, htype⟩
  · rw [htype]
    exact iff_of_true ⟨_, rfl⟩ hshort
  · rw [htype]
    refine iff_of_false ?_ (not_not.mpr hlong)
    rintro ⟨_, h⟩
    cases h

theorem attributeMember_error {a : Attribute} {e : Error} (h : attributeMember a = .error e) :
    e = .system .tooManyDigits := by
  rw [attributeMember_eq] at h
  rcases a.attributeType_cases with ⟨_, _, htype⟩ | ⟨_, htype⟩
  · rw [htype] at h
    cases h
  · rw [htype] at h
    exact (Except.error.inj h).symm

end Attribute

/-! ### The class of the instances -/

namespace Declaration

theorem instanceClass_eq (e : Entity) :
    instanceClass e = (e.attributes.mapM attributeMember).map fun members =>
      classText ("export declare abstract class " ++ TypeExpr.instanceName e.name)
        ((if e.attributes.any fun a => a.name == "id" then [] else [idMember]) ++ members ++
          ((e.functions.find? fun f => f.name == serializationHook).map
            (methodAs serializationMethod)).toList) := by
  unfold instanceClass instanceMembers
  cases e.attributes.mapM attributeMember <;> rfl

theorem exists_instanceClass_iff {e : Entity} :
    (∃ text, instanceClass e = .ok text) ↔ ∀ a ∈ e.attributes, ¬a.ShowsLongNumber := by
  have hmembers : (∃ text, instanceClass e = .ok text) ↔
      ∃ members, e.attributes.mapM attributeMember = .ok members := by
    rw [instanceClass_eq]
    cases e.attributes.mapM attributeMember with
    | ok members => exact iff_of_true ⟨_, rfl⟩ ⟨_, rfl⟩
    | error err => exact iff_of_false (by rintro ⟨_, h⟩; cases h) (by rintro ⟨_, h⟩; cases h)
  rw [hmembers, exists_mapM_iff]
  exact forall₂_congr fun _ _ => Attribute.exists_attributeMember_iff

theorem instanceClass_error {e : Entity} {err : Error} (h : instanceClass e = .error err) :
    err = .system .tooManyDigits := by
  rw [instanceClass_eq] at h
  cases hmembers : e.attributes.mapM attributeMember with
  | ok members =>
    rw [hmembers] at h
    cases h
  | error err' =>
    rw [hmembers] at h
    obtain rfl := Except.error.inj h
    obtain ⟨a, _, ha⟩ := exists_of_mapM_error hmembers
    exact Attribute.attributeMember_error ha

end Declaration

/-! ### Entities -/

namespace Entity

/-- The class of instances that an entity has once it is declared: that of a model is written, and a
service keeps what it has. -/
def instances (e : Entity) : Except Error (Option String) :=
  if e.isModel then (Declaration.instanceClass e).map some else .ok e.declarations.instanceClass

theorem instances_model {e : Entity} (hmodel : e.isModel = true) {text : Option String} :
    e.instances = .ok text ↔ ∃ c, Declaration.instanceClass e = .ok c ∧ some c = text := by
  rw [instances, if_pos hmodel, Act.map_eq_ok_iff]

theorem instances_service {e : Entity} (hservice : e.isModel = false) :
    e.instances = .ok e.declarations.instanceClass := by
  rw [instances, hservice]
  rfl

/-- The entity with a class of instances and its own class. -/
def standing (e : Entity) (instances : Option String) : Entity :=
  { e with declarations := { e.declarations with
      instanceClass := instances
      staticClass := some (Declaration.ownClass e) } }

/-- **Declaring an entity** writes its classes, or leaves it as it is. -/
theorem declareStandalone_cases (e : Entity) :
    (∃ text, e.instances = .ok text ∧ declareStandalone e = ⟨.ok (), e.standing text, []⟩) ∨
      ∃ err, e.instances = .error err ∧ declareStandalone e = ⟨.error err, e, []⟩ := by
  unfold declareStandalone instances standing Declaration.ownClass
  rw [Act.state_bind]
  cases e.isModel with
  | true =>
    cases Declaration.instanceClass e with
    | ok text => exact .inl ⟨_, rfl, rfl⟩
    | error err => exact .inr ⟨_, rfl, rfl⟩
  | false => exact .inl ⟨_, rfl, rfl⟩

theorem declareStandalone_of_ok {e : Entity} {text : Option String} (h : e.instances = .ok text) :
    declareStandalone e = ⟨.ok (), e.standing text, []⟩ := by
  rcases declareStandalone_cases e with ⟨text', htext, heq⟩ | ⟨err, herr, _⟩
  · rw [heq, Except.ok.inj (htext.symm.trans h)]
  · rw [h] at herr
    cases herr

/-- What declaring an entity leaves when it succeeds. -/
theorem declareStandalone_ok {e : Entity} (h : (declareStandalone e).result = .ok ()) :
    ∃ text, e.instances = .ok text ∧ declareStandalone e = ⟨.ok (), e.standing text, []⟩ := by
  rcases declareStandalone_cases e with hok | ⟨err, _, heq⟩
  · exact hok
  · rw [heq] at h
    cases h

theorem exists_instances_iff {e : Entity} :
    (∃ text, e.instances = .ok text) ↔ (e.isModel = true → ∀ a ∈ e.attributes, ¬a.ShowsLongNumber) := by
  unfold instances
  cases e.isModel with
  | true =>
    rw [← Declaration.exists_instanceClass_iff]
    cases Declaration.instanceClass e with
    | ok text => exact iff_of_true ⟨_, rfl⟩ fun _ => ⟨_, rfl⟩
    | error err =>
      refine iff_of_false (by rintro ⟨_, h⟩; cases h) fun h => ?_
      obtain ⟨_, h⟩ := h rfl
      cases h
  | false => exact iff_of_true ⟨_, rfl⟩ fun h => absurd h Bool.false_ne_true

/-- **When an entity can be declared**: unless it is a model with an association to a number that is too
long. -/
theorem declareStandalone_ok_iff {e : Entity} :
    (declareStandalone e).result = .ok () ↔
      (e.isModel = true → ∀ a ∈ e.attributes, ¬a.ShowsLongNumber) := by
  rw [← exists_instances_iff]
  constructor
  · intro h
    obtain ⟨text, htext, _⟩ := declareStandalone_ok h
    exact ⟨text, htext⟩
  · rintro ⟨text, htext⟩
    rw [declareStandalone_of_ok htext]

theorem fails_declareStandalone : Act.Fails (· = .system .tooManyDigits) declareStandalone := by
  intro e err h
  rcases declareStandalone_cases e with ⟨_, _, heq⟩ | ⟨err', herr, heq⟩
  · rw [heq] at h
    cases h
  · rw [heq] at h
    obtain rfl := Except.error.inj h
    unfold instances at herr
    split at herr
    · cases hclass : Declaration.instanceClass e with
      | ok text =>
        rw [hclass] at herr
        cases herr
      | error err'' =>
        rw [hclass] at herr
        obtain rfl := Except.error.inj herr
        exact Declaration.instanceClass_error hclass
    · cases herr

theorem notes_declareStandalone {P : Notice → Prop} : Act.Notes P declareStandalone := by
  intro e n h
  rcases declareStandalone_cases e with ⟨_, _, heq⟩ | ⟨_, _, heq⟩ <;>
  · rw [heq] at h
    cases h

/-- Declaring an entity changes nothing but its declarations. -/
theorem keeps_declareStandalone {α : Type} {view : Entity → α}
    (h : ∀ e d, view { e with declarations := d } = view e) : Act.Keeps view declareStandalone := by
  intro e
  rcases declareStandalone_cases e with ⟨_, _, heq⟩ | ⟨_, _, heq⟩
  · rw [heq]
    exact h e _
  · rw [heq]

/-- The attributes of a resolved entity show the names of models only. -/
theorem not_showsLongNumber_resolved {models : Models} {e : Entity}
    (h : (resolve models e).result = .ok ()) :
    ∀ a ∈ (resolve models e).state.attributes, ¬a.ShowsLongNumber := by
  obtain ⟨as', ts, hall, hstate⟩ := resolve_ok h
  rw [hstate]
  intro a ha hlong
  obtain ⟨_, _, hresolves, _⟩ := hall.resolves a ha
  obtain ⟨type, htype, _⟩ := hresolves.exists_type
  rcases a.attributeType_cases with ⟨hshort, _⟩ | ⟨_, herror⟩
  · exact hshort hlong
  · rw [htype] at herror
    cases herror

/-- **An entity that has been resolved can be declared.** -/
theorem declareStandalone_resolved {models : Models} {e : Entity}
    (h : (resolve models e).result = .ok ()) :
    (declareStandalone (resolve models e).state).result = .ok () :=
  declareStandalone_ok_iff.mpr fun _ => not_showsLongNumber_resolved h

end Entity

end Rigging
