import Rigging.Proofs.Entity.Resolve
import Rigging.Proofs.Registry

/-!
# Where resolution stops

An attribute is *broken* when it does not say what it is, says it more than once, or names a type or
a model that there is none of.  `Attribute.Fault` gives the error of a broken attribute.  Resolving an
entity fails exactly when one of its attributes is broken, with the error of the first one
(`Entity.resolve_stops`): by then all functions are resolved and so are the attributes before it, and
the rest is as it was.  The error is a structural one unless it would have to show a number with too
many digits.
-/

namespace Rigging

/-! ### Finding models -/

namespace Models

variable {models : Models} {identity : String} {model : Entity}

/-- The model is the first one whose key is the identity but for case. -/
def IsFirst (models : Models) (identity : String) (model : Entity) : Prop :=
  ∃ front key back, models = front ++ (key, model) :: back ∧
    Text.lower key = Text.lower identity ∧ ∀ m ∈ front, Text.lower m.1 ≠ Text.lower identity

theorem isFirst_of_withIdentity? (h : models.withIdentity? identity = some model) :
    models.IsFirst identity model := by
  obtain ⟨⟨key, model⟩, hfind, rfl⟩ := Option.map_eq_some_iff.mp h
  obtain ⟨hkey, front, back, hsplit, hfront⟩ := List.find?_eq_some_iff_append.mp hfind
  refine ⟨front, key, back, hsplit, beq_iff_eq.mp hkey, fun m hm hsame => ?_⟩
  have hno := hfront m hm
  rw [hsame, beq_self_eq_true] at hno
  cases hno

theorem withIdentity?_eq_none_iff :
    models.withIdentity? identity = none ↔
      ∀ m ∈ models, Text.lower m.1 ≠ Text.lower identity := by
  rw [withIdentity?, Option.map_eq_none_iff, List.find?_eq_none]
  simp only [beq_iff_eq, ne_eq]

/-- The value names no model: it is no text, or one that is no key whatever its case. -/
def NamesNone (models : Models) (v : Scalar) : Prop :=
  ∀ identity, v = .string identity → ∀ m ∈ models, Text.lower m.1 ≠ Text.lower identity

theorem namesNone_or_exists (models : Models) (v : Scalar) :
    models.NamesNone v ∨
      ∃ identity model, v = .string identity ∧ models.withIdentity? identity = some model := by
  cases v with
  | string identity =>
    cases hfound : models.withIdentity? identity with
    | none =>
      refine Or.inl fun s hs => ?_
      cases hs
      exact withIdentity?_eq_none_iff.mp hfound
    | some model => exact Or.inr ⟨identity, model, rfl, hfound⟩
  | _ => exact Or.inl fun s hs => by cases hs

end Models

/-! ### Attributes that name their models -/

namespace Attribute

variable {models : Models} {a a' : Attribute} {entity : String} {err : Error}

/-- The attribute with its model spelled as the model's name, if it has one, and all else as it
was. -/
structure Renamed (models : Models) (a a' : Attribute) : Prop where
  name : a'.name = a.name
  doc : a'.doc = a.doc
  keys : Assoc.keys a'.properties = Assoc.keys a.properties
  model : ∀ key ∈ associationKeys, ∀ v, a.properties.given? key = some v →
    ∃ identity model, v = .string identity ∧ models.IsFirst identity model ∧
      Assoc.get? key a'.properties = some (.string model.name)
  other : ∀ key, (key ∈ associationKeys → a.properties.given? key = none) →
    Assoc.get? key a'.properties = Assoc.get? key a.properties

theorem renamed_self (h : ∀ key ∈ associationKeys, a.properties.given? key = none) :
    Renamed models a a where
  name := rfl
  doc := rfl
  keys := rfl
  model := by
    intro key hkey v hv
    rw [h key hkey] at hv
    cases hv
  other := fun _ _ => rfl

theorem mem_keys_of_given? {key : String} {v : Scalar} (h : a.properties.given? key = some v) :
    key ∈ Assoc.keys a.properties := by
  obtain ⟨hget, _⟩ := Option.filter_eq_some_iff.mp h
  exact List.mem_map.mpr ⟨_, Assoc.mem_of_get?_eq_some hget, rfl⟩

theorem associationKeys_subset : ∀ key ∈ associationKeys, key ∈ kindKeys ∧ key ≠ "type" := by
  decide

/-- **What resolving does to an attribute**: it names its model and leaves all else. -/
theorem Resolves.renamed {ts : List String} (h : Resolves models a a' ts) : Renamed models a a' := by
  cases h with
  | typed _ _ only =>
    exact renamed_self fun key hkey =>
      only key (associationKeys_subset key hkey).1 (associationKeys_subset key hkey).2
  | through none_given _ =>
    exact renamed_self fun key hkey => none_given key (associationKeys_subset key hkey).1
  | @association key identity model is_key given only found =>
    refine ⟨rfl, rfl, Assoc.keys_put_of_mem (mem_keys_of_given? given) _, ?_, ?_⟩
    · intro k hk v hv
      by_cases hsame : k = key
      · subst hsame
        rw [given] at hv
        cases hv
        exact ⟨identity, model, rfl, Models.isFirst_of_withIdentity? found,
          Assoc.get?_put_self _ _ _⟩
      · rw [only k (associationKeys_subset k hk).1 hsame] at hv
        cases hv
    · intro k hk
      have hne : key ≠ k := by
        rintro rfl
        rw [hk is_key] at given
        cases given
      exact Assoc.get?_put_of_ne hne _ _

theorem ResolvesAll.renamed {as as' : List Attribute} {ts : List String}
    (h : ResolvesAll models as as' ts) : List.Forall₂ (Renamed models) as as' := by
  induction h with
  | nil => exact .nil
  | cons head _ ih => exact .cons head.renamed ih

/-! ### Broken attributes -/

/-- The attribute cannot be resolved: nothing says what it is; two properties do; its type is none
of the types of attributes; or its model is not known. -/
inductive Broken (models : Models) (a : Attribute) : Prop
  | untyped (none_given : ∀ k ∈ kindKeys, a.properties.given? k = none)
      (no_through : a.properties.given? "through" = none)
  | ambiguous {j k : String} (hj : j ∈ kindKeys) (hk : k ∈ kindKeys) (ne : j ≠ k)
      (given_j : (a.properties.given? j).isSome = true)
      (given_k : (a.properties.given? k).isSome = true)
  | unknownType {type : Scalar} (given : a.properties.given? "type" = some type)
      (unknown : ∀ t ∈ Error.attributeTypes, type ≠ .string t)
  | unknownModel {key : String} {v : Scalar} (is_key : key ∈ associationKeys)
      (given : a.properties.given? key = some v) (unknown : models.NamesNone v)

/-- The error of an attribute that cannot be resolved, in an entity that messages describe so.  An
ambiguous attribute is not looked at any further. -/
inductive Fault (models : Models) (a : Attribute) (entity : String) : Error → Prop
  | untyped (none_given : ∀ k ∈ kindKeys, a.properties.given? k = none)
      (no_through : a.properties.given? "through" = none) :
      Fault models a entity (.untypedAttribute a.name entity)
  | ambiguous {j k : String} (hj : j ∈ kindKeys) (hk : k ∈ kindKeys) (ne : j ≠ k)
      (given_j : (a.properties.given? j).isSome = true)
      (given_k : (a.properties.given? k).isSome = true) :
      Fault models a entity (.ambiguousAttribute a.name entity a.givenKinds)
  | unknownType {type : Scalar} (given : a.properties.given? "type" = some type)
      (only : ∀ k ∈ kindKeys, k ≠ "type" → a.properties.given? k = none)
      (unknown : ∀ t ∈ Error.attributeTypes, type ≠ .string t) :
      Fault models a entity (.showing type fun shown => .unknownType shown a.name entity)
  | unknownModel {key : String} {v : Scalar} (is_key : key ∈ associationKeys)
      (given : a.properties.given? key = some v)
      (only : ∀ k ∈ kindKeys, k ≠ key → a.properties.given? k = none)
      (unknown : models.NamesNone v) :
      Fault models a entity (.showing v fun shown =>
        .unknownModel (key == "collection") shown a.name entity (Assoc.keys models))

theorem Fault.broken (h : Fault models a entity err) : Broken models a := by
  cases h with
  | untyped none_given no_through => exact .untyped none_given no_through
  | ambiguous hj hk ne given_j given_k => exact .ambiguous hj hk ne given_j given_k
  | unknownType given _ unknown => exact .unknownType given unknown
  | unknownModel is_key given _ unknown => exact .unknownModel is_key given unknown

theorem contains_attributeTypes_iff {type : Scalar} :
    (Error.attributeTypes.map Scalar.string).contains type = true ↔
      ∃ t ∈ Error.attributeTypes, type = .string t := by
  rw [List.contains_iff_mem, List.mem_map]
  simp only [eq_comm]

/-- Where one kind is given at most, no two are. -/
theorem not_two_given {key j k : String}
    (honly : ∀ k ∈ kindKeys, k ≠ key → a.properties.given? k = none) (hj : j ∈ kindKeys)
    (hk : k ∈ kindKeys) (ne : j ≠ k) (given_j : (a.properties.given? j).isSome = true)
    (given_k : (a.properties.given? k).isSome = true) : False := by
  by_cases hkey : j = key
  · rw [honly k hk (fun he => ne (hkey.trans he.symm))] at given_k
    cases given_k
  · rw [honly j hj hkey] at given_j
    cases given_j

/-- Nothing that can be resolved is broken. -/
theorem Resolves.not_broken {ts : List String} (h : Resolves models a a' ts) : ¬Broken models a := by
  intro hbroken
  -- the only kind that is given, or none
  obtain ⟨key, honly⟩ : ∃ key, ∀ k ∈ kindKeys, k ≠ key → a.properties.given? k = none := by
    cases h with
    | typed _ _ only => exact ⟨_, only⟩
    | through none_given _ => exact ⟨"", fun k hk _ => none_given k hk⟩
    | association _ _ only _ => exact ⟨_, only⟩
  cases hbroken with
  | ambiguous hj hk ne given_j given_k => exact not_two_given honly hj hk ne given_j given_k
  | untyped none_given no_through =>
    cases h with
    | typed given _ _ =>
      rw [none_given _ (by decide)] at given
      cases given
    | through _ goes =>
      rw [no_through] at goes
      cases goes
    | association is_key given _ _ =>
      rw [none_given _ (associationKeys_subset _ is_key).1] at given
      cases given
  | unknownType given unknown =>
    cases h with
    | typed given' valid _ =>
      obtain ⟨t, ht, htype⟩ := contains_attributeTypes_iff.mp valid
      rw [given] at given'
      exact unknown t ht (Option.some.inj given' |>.trans htype)
    | through none_given _ =>
      rw [none_given _ (by decide)] at given
      cases given
    | association is_key _ only _ =>
      rw [only _ (by decide) (Ne.symm (associationKeys_subset _ is_key).2)] at given
      cases given
  | @unknownModel k v is_key given unknown =>
    obtain ⟨hkind, hne⟩ := associationKeys_subset _ is_key
    cases h with
    | typed _ _ only =>
      rw [only _ hkind hne] at given
      cases given
    | through none_given _ =>
      rw [none_given _ hkind] at given
      cases given
    | @association key' identity model is_key' given' only found =>
      by_cases hsame : k = key'
      · subst hsame
        rw [given'] at given
        cases given
        have hnone := Models.withIdentity?_eq_none_iff.mpr (unknown identity rfl)
        rw [found] at hnone
        cases hnone
      · rw [only _ hkind hsame] at given
        cases given

/-- An attribute gives one of its kinds only, two of them, or none. -/
theorem kinds_given (a : Attribute) :
    (∀ k ∈ kindKeys, a.properties.given? k = none) ∨
      (∃ j ∈ kindKeys, ∃ k ∈ kindKeys, j ≠ k ∧ (a.properties.given? j).isSome = true ∧
        (a.properties.given? k).isSome = true) ∨
      ∃ key ∈ kindKeys, ∃ v, a.properties.given? key = some v ∧
        ∀ k ∈ kindKeys, k ≠ key → a.properties.given? k = none := by
  by_cases hnone : ∀ k ∈ kindKeys, a.properties.given? k = none
  · exact Or.inl hnone
  · push Not at hnone
    obtain ⟨key, hkey, hne⟩ := hnone
    obtain ⟨v, hv⟩ := Option.ne_none_iff_exists'.mp hne
    refine Or.inr ?_
    by_cases honly : ∀ k ∈ kindKeys, k ≠ key → a.properties.given? k = none
    · exact Or.inr ⟨key, hkey, v, hv, honly⟩
    · push Not at honly
      obtain ⟨k, hk, hdiff, hgiven⟩ := honly
      exact Or.inl ⟨k, hk, key, hkey, hdiff, Option.isSome_iff_ne_none.mpr hgiven,
        Option.isSome_iff_ne_none.mpr hne⟩

/-- **Every attribute can be resolved or has a fault.** -/
theorem resolves_or_fault (models : Models) (a : Attribute) (entity : String) :
    (∃ a' ts, Resolves models a a' ts) ∨ ∃ err, Fault models a entity err := by
  rcases a.kinds_given with hnone | ⟨j, hj, k, hk, hne, hgj, hgk⟩ | ⟨key, hkey, v, hv, honly⟩
  · cases hthrough : a.properties.given? "through" with
    | none => exact Or.inr ⟨_, .untyped hnone hthrough⟩
    | some through => exact Or.inl ⟨_, _, .through hnone (by rw [hthrough]; rfl)⟩
  · exact Or.inr ⟨_, .ambiguous hj hk hne hgj hgk⟩
  · rcases List.mem_cons.mp hkey with rfl | hassociation
    · by_cases hvalid : ∃ t ∈ Error.attributeTypes, v = .string t
      · exact Or.inl ⟨_, _, .typed hv (contains_attributeTypes_iff.mpr hvalid) honly⟩
      · push Not at hvalid
        exact Or.inr ⟨_, .unknownType hv honly hvalid⟩
    · rcases models.namesNone_or_exists v with hunknown | ⟨identity, model, rfl, hfound⟩
      · exact Or.inr ⟨_, .unknownModel hassociation hv honly hunknown⟩
      · exact Or.inl ⟨_, _, .association hassociation hv honly hfound⟩

theorem exists_resolves_of_not_broken (h : ¬Broken models a) : ∃ a' ts, Resolves models a a' ts :=
  (resolves_or_fault models a "").resolve_right fun ⟨_, hfault⟩ => h hfault.broken

theorem exists_fault_of_broken (h : Broken models a) (entity : String) :
    ∃ err, Fault models a entity err :=
  (resolves_or_fault models a entity).resolve_left fun ⟨_, _, hresolves⟩ =>
    hresolves.not_broken h

theorem exists_resolvesAll_of_not_broken {as : List Attribute}
    (h : ∀ a ∈ as, ¬Broken models a) : ∃ as' ts, ResolvesAll models as as' ts := by
  induction as with
  | nil => exact ⟨[], [], .nil⟩
  | cons a as ih =>
    obtain ⟨a', ts, ha⟩ := exists_resolves_of_not_broken (h a List.mem_cons_self)
    obtain ⟨as', us, has⟩ := ih fun b hb => h b (List.mem_cons_of_mem _ hb)
    exact ⟨a' :: as', ts ++ us, .cons ha has⟩

/-! ### Resolving a broken attribute -/

theorem one_lt_givenKinds {j k : String} (hj : j ∈ kindKeys) (hk : k ∈ kindKeys) (ne : j ≠ k)
    (given_j : (a.properties.given? j).isSome = true)
    (given_k : (a.properties.given? k).isSome = true) : 1 < a.givenKinds.length := by
  by_contra hlen
  rw [given_unique hj hk ne given_j hlen] at given_k
  cases given_k

theorem target_of_namesNone {v : Scalar} (h : models.NamesNone v) (e : Entity) (a : Attribute)
    (key : String) :
    target models e a key v = .error (.showing v fun shown =>
      .unknownModel (key == "collection") shown a.name e.describe (Assoc.keys models)) := by
  cases v with
  | string identity =>
    have hnone := Models.withIdentity?_eq_none_iff.mpr (h identity rfl)
    simp only [target, hnone]
  | _ => simp only [target]

/-- **Resolving an attribute that has a fault** ends with its error and changes nothing. -/
theorem Fault.resolve_eq {e : Entity} (h : Fault models a e.describe err) :
    a.resolve models e = ⟨.error err, e, []⟩ := by
  cases h with
  | untyped none_given no_through =>
    simp only [resolve, Act.state_bind, givenKinds_eq_nil none_given, no_through]
    rfl
  | ambiguous hj hk ne given_j given_k =>
    have hlen := one_lt_givenKinds hj hk ne given_j given_k
    have hsome : a.givenKinds.isEmpty = false := by
      rw [List.isEmpty_eq_false_iff, ← List.length_pos_iff]
      omega
    simp only [resolve, Act.state_bind, hsome, Bool.false_and, Bool.false_eq_true, if_false, hlen,
      if_true]
    rfl
  | @unknownType type given only unknown =>
    have hkinds := givenKinds_eq_singleton (by decide) (by rw [given]; rfl) only
    have hinvalid : (Error.attributeTypes.map Scalar.string).contains type = false := by
      rw [← Bool.not_eq_true, contains_attributeTypes_iff]
      rintro ⟨t, ht, htype⟩
      exact unknown t ht htype
    simp only [resolve, Act.state_bind, hkinds, given, hinvalid]
    rfl
  | @unknownModel key v is_key given only unknown =>
    obtain ⟨hkind, hne⟩ := associationKeys_subset _ is_key
    have hkinds := givenKinds_eq_singleton hkind (by rw [given]; rfl) only
    have hrun : a.resolve models e = (resolveAssociation models a "model" >>= fun b =>
        resolveAssociation models b "collection") e := by
      simp only [resolve, Act.state_bind, hkinds, only "type" (by decide) (Ne.symm hne)]
      rfl
    have hfail : resolveAssociation models a key e = ⟨.error (.showing v fun shown =>
        .unknownModel (key == "collection") shown a.name e.describe (Assoc.keys models)), e, []⟩ := by
      rw [resolveAssociation_given given, Act.state_bind, target_of_namesNone unknown]
      rfl
    simp only [associationKeys, List.mem_cons, List.not_mem_nil, or_false] at is_key
    rcases is_key with rfl | rfl
    · rw [hrun, Act.bind_of_error (congrArg Outcome.result hfail), hfail]
    · rw [hrun, resolveAssociation_none (only "model" (by decide) (by decide)), Act.pure_bind, hfail]

/-- Only one property says what the attribute is, and it is a number with too many digits. -/
def HasLongNumber (a : Attribute) : Prop :=
  ∃ key ∈ kindKeys, ∃ n : Int, a.properties.given? key = some (.int n) ∧
    Number.leastTooLong ≤ n.natAbs ∧
    ∀ k ∈ kindKeys, k ≠ key → a.properties.given? k = none

/-- A number has too many digits exactly when it cannot be shown. -/
theorem isShowable_eq_false_iff {v : Scalar} :
    v.isShowable = false ↔ ∃ n : Int, v = .int n ∧ Number.leastTooLong ≤ n.natAbs := by
  cases v with
  | int n => simp [Scalar.isShowable]
  | _ => simp [Scalar.isShowable]

theorem family_showing_iff {v : Scalar} {error : String → Error}
    (h : ∀ shown, (error shown).family = .structural) :
    (Error.showing v error).family = .structural ↔ v.isShowable = true := by
  unfold Error.showing
  split
  · rename_i hshow
    exact iff_of_true (h _) hshow
  · rename_i hshow
    exact iff_of_false (by rintro ⟨⟩) hshow

/-- **The error of a broken attribute is a structural one** unless it would have to show a number
with too many digits. -/
theorem Fault.family_iff (h : Fault models a entity err) :
    err.family = .structural ↔ ¬a.HasLongNumber := by
  -- where one kind is given, it alone can hold the number
  have hsingle : ∀ {key : String} {v : Scalar}, key ∈ kindKeys →
      a.properties.given? key = some v →
      (∀ k ∈ kindKeys, k ≠ key → a.properties.given? k = none) →
      (v.isShowable = true ↔ ¬a.HasLongNumber) := by
    intro key v hkey hv honly
    rw [← Bool.not_eq_false, not_iff_not, isShowable_eq_false_iff]
    constructor
    · rintro ⟨n, rfl, hlong⟩
      exact ⟨key, hkey, n, hv, hlong, honly⟩
    · rintro ⟨key', hkey', n, hn, hlong, _⟩
      by_cases hsame : key' = key
      · subst hsame
        rw [hv] at hn
        exact ⟨n, Option.some.inj hn, hlong⟩
      · rw [honly key' hkey' hsame] at hn
        cases hn
  cases h with
  | untyped none_given _ =>
    refine iff_of_true rfl ?_
    rintro ⟨key, hkey, n, hn, _⟩
    rw [none_given key hkey] at hn
    cases hn
  | ambiguous hj hk ne given_j given_k =>
    refine iff_of_true rfl ?_
    rintro ⟨key, _, n, _, _, honly⟩
    exact not_two_given honly hj hk ne given_j given_k
  | unknownType given only _ =>
    exact (family_showing_iff fun _ => rfl).trans (hsingle (by decide) given only)
  | unknownModel is_key given only _ =>
    exact (family_showing_iff fun _ => rfl).trans
      (hsingle (associationKeys_subset _ is_key).1 given only)

end Attribute

/-! ### Entities -/

namespace Entity

variable {models : Models} {e : Entity}

/-- The entity when resolution has come through the attributes in `front` and not further: all its
functions are resolved, these attributes name their models, and the rest is as it was. -/
structure ComesThrough (models : Models) (front rest : List Attribute) (e e' : Entity) : Prop where
  functions : e'.functions = e.functions.map (Function.resolved models.knows)
  attributes : ∃ front', List.Forall₂ (Attribute.Renamed models) front front' ∧
    e'.attributes = front' ++ rest
  frame : e'.frame = e.frame

theorem resolveAttributes_of_fault {a : Attribute} {entity : String} {err : Error}
    (h : a.Fault models entity err) (he : e.describe = entity) (i : Nat) (back : List Attribute) :
    resolveAttributes models i (a :: back) e = ⟨.error err, e, []⟩ := by
  subst he
  rw [resolveAttributes, Act.bind_of_error (congrArg Outcome.result h.resolve_eq), h.resolve_eq]

/-- Resolution comes to the first attribute that is broken and ends there with its error. -/
theorem resolve_of_fault {front back front' : List Attribute} {ts : List String} {a : Attribute}
    {err : Error} (hsplit : e.attributes = front ++ a :: back)
    (hall : Attribute.ResolvesAll models front front' ts) (hfault : a.Fault models e.describe err) :
    (resolve models e).result = .error err ∧
      ComesThrough models front (a :: back) e (resolve models e).state := by
  rw [resolve, Act.modify_bind, Act.state_bind, resolveFunctions_eq]
  obtain ⟨notices, hrun⟩ := resolveAttributes_append hall (a :: back) (i := 0) (e := { e with
    functions := e.functions.map (Function.resolved models.knows)
    imports := ((e.functions.map (Function.resolved models.knows)).flatMap
      Function.mentionedModels).foldl addNew e.imports }) hsplit
  have hstop := hrun _ (resolveAttributes_of_fault hfault (by rfl) _ back)
  rw [← hsplit] at hstop
  rw [hstop]
  exact ⟨rfl, rfl, ⟨front', hall.renamed, rfl⟩, rfl⟩

/-- Resolution comes through attributes none of which is broken. -/
theorem resolve_of_not_broken (h : ∀ a ∈ e.attributes, ¬a.Broken models) :
    (resolve models e).result = .ok () ∧
      ComesThrough models e.attributes [] e (resolve models e).state := by
  obtain ⟨as', ts, hall⟩ := Attribute.exists_resolvesAll_of_not_broken h
  obtain ⟨notices, hresolve⟩ := resolve_eq hall
  rw [hresolve]
  exact ⟨rfl, rfl, ⟨as', hall.renamed, (List.append_nil as').symm⟩, rfl⟩

/-- Attributes of which one is broken have a first one. -/
theorem exists_first_broken {as : List Attribute} (h : ∃ a ∈ as, a.Broken models) :
    ∃ front a back, as = front ++ a :: back ∧ (∀ b ∈ front, ¬b.Broken models) ∧
      a.Broken models := by
  induction as with
  | nil =>
    obtain ⟨a, ha, _⟩ := h
    cases ha
  | cons a as ih =>
    by_cases hbroken : a.Broken models
    · exact ⟨[], a, as, rfl, List.forall_mem_nil _, hbroken⟩
    · obtain ⟨b, hb, hbad⟩ := h
      have hmem : b ∈ as := by
        refine (List.mem_cons.mp hb).resolve_left ?_
        rintro rfl
        exact hbroken hbad
      obtain ⟨front, c, back, rfl, hfront, hc⟩ := ih ⟨b, hmem, hbad⟩
      exact ⟨a :: front, c, back, rfl, List.forall_mem_cons.mpr ⟨hbroken, hfront⟩, hc⟩

/-- **Resolution stops at the first broken attribute.**  It succeeds exactly when no attribute is
broken, and has then come through all of them.  Otherwise it ends with the error of the first broken
one, which is a structural error unless it would have to show a number with too many digits; this
attribute and all behind it are as they were. -/
theorem resolve_stops (models : Models) (e : Entity) :
    ((resolve models e).result = .ok () ↔ ∀ a ∈ e.attributes, ¬a.Broken models) ∧
      ((resolve models e).result = .ok () →
        ComesThrough models e.attributes [] e (resolve models e).state) ∧
      ∀ err, (resolve models e).result = .error err →
        ∃ front a back, e.attributes = front ++ a :: back ∧ (∀ b ∈ front, ¬b.Broken models) ∧
          a.Fault models e.describe err ∧ (err.family = .structural ↔ ¬a.HasLongNumber) ∧
          ComesThrough models front (a :: back) e (resolve models e).state := by
  by_cases hsound : ∀ a ∈ e.attributes, ¬a.Broken models
  · obtain ⟨hok, hthrough⟩ := resolve_of_not_broken hsound
    refine ⟨iff_of_true hok hsound, fun _ => hthrough, fun err herr => ?_⟩
    rw [hok] at herr
    cases herr
  · have hsome : ∃ a ∈ e.attributes, a.Broken models := by
      push Not at hsound
      exact hsound
    obtain ⟨front, a, back, hsplit, hfront, hbroken⟩ := exists_first_broken hsome
    obtain ⟨err, hfault⟩ := Attribute.exists_fault_of_broken hbroken e.describe
    obtain ⟨front', ts, hall⟩ := Attribute.exists_resolvesAll_of_not_broken hfront
    obtain ⟨herr, hthrough⟩ := resolve_of_fault hsplit hall hfault
    have hnot : (resolve models e).result ≠ .ok () := by
      rw [herr]
      rintro ⟨⟩
    refine ⟨iff_of_false hnot hsound, fun hok => absurd hok hnot, fun err' herr' => ?_⟩
    rw [herr] at herr'
    cases herr'
    exact ⟨front, a, back, hsplit, hfront, hfault, hfault.family_iff, hthrough⟩

/-- A model with one attribute, which has a number for its type. -/
def numbered (n : Nat) : Entity :=
  { blank "Pet" "Pet.js" .model rootOwner with attributes := [⟨"age", [("type", .int n)], none⟩] }

theorem leastTooLong_pos : 0 < Number.leastTooLong := by
  unfold Number.leastTooLong
  generalize Number.digitLimit = digits
  exact Nat.pow_pos (by decide)

theorem resolve_numbered {n : Nat} (hlong : Number.leastTooLong ≤ n) :
    (∃ a ∈ (numbered n).attributes, a.Broken []) ∧
      (resolve [] (numbered n)).result = .error (.system .tooManyDigits) := by
  have hpos : 0 < n := Nat.lt_of_lt_of_le leastTooLong_pos hlong
  have hgiven : Properties.given? "type" [("type", Scalar.int n)] = some (.int n) := by
    simpa [Properties.given?, Assoc.get?, Scalar.truthy, Scalar.toJson, Json.truthy] using
      Nat.ne_of_gt hpos
  have hunknown : ∀ t ∈ Error.attributeTypes, Scalar.int n ≠ .string t := by
    rintro t _ ⟨⟩
  have honly : ∀ k ∈ kindKeys, k ≠ "type" → Properties.given? k [("type", Scalar.int n)] = none := by
    intro k _ hne
    simp [Properties.given?, Assoc.get?, Ne.symm hne]
  have hshow : Scalar.isShowable (.int n) = false :=
    Attribute.isShowable_eq_false_iff.mpr ⟨n, rfl, hlong⟩
  have hsplit : (numbered n).attributes = [] ++ ⟨"age", [("type", .int n)], none⟩ :: [] := rfl
  obtain ⟨herr, _⟩ := resolve_of_fault hsplit .nil (.unknownType hgiven honly hunknown)
  refine ⟨⟨_, List.mem_singleton_self _, .unknownType hgiven hunknown⟩, ?_⟩
  rw [herr, Error.showing, hshow]
  rfl

/-- A broken attribute whose error is no structural one: the number has 4335 digits. -/
theorem resolve_numbered_oversized :
    (∃ a ∈ (numbered (Nat.pow 16 3600)).attributes, a.Broken []) ∧
      (resolve [] (numbered (Nat.pow 16 3600))).result = .error (.system .tooManyDigits) :=
  resolve_numbered (by decide +kernel)

end Entity

end Rigging
