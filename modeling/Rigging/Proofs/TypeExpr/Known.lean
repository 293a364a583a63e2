import Rigging.Entity.Resolve
import Rigging.Proofs.TypeExpr

/-!
# Types relative to fewer models

A type that has been normalised for some models can be normalised again for fewer of them, and the
result is the one that the text itself would have given (`normalize_normalize`).  The second
walk reads what the first one wrote, so the argument goes over the texts of types: `print_within_promise`
says what a promise is written as, and equal texts belong to equal types because they are read back.

The same holds for the models that a type mentions: those of the normalised type are those of the text
that are known (`Raw.distinct_models_within`).  Only repetitions get lost, where a promise names a member
twice.
-/

namespace Rigging

namespace Models

theorem knows_iff {models : Models} {name : String} :
    models.knows name = true ↔ name ∈ Assoc.keys models := by
  simp [knows, Assoc.keys, List.any_eq_true]

end Models

namespace TypeExpr

variable {known known' : String → Bool}

/-- The members of a promise that is written: the wildcard stands for none. -/
def orWildcard (members : List String) : List String :=
  if members.isEmpty then [wildcard] else members

/-- What a promise is written as relative to known models. -/
theorem print_within_promise (known : String → Bool) (members : List TypeExpr) :
    ((promise members).within known).print = "Promise<" ++ Union.join
      (orWildcard (distinct (members.map fun t => (t.within known).print))) ++ ">" := by
  have htexts : distinct (members.map fun t => (t.within known).print) =
      (distinctTypes (members.map (within known))).map print := by
    rw [map_print_distinctTypes, List.map_map]
    rfl
  rw [within, withinAll_eq, print, printAll_eq, htexts, orWildcard, List.isEmpty_map]
  split
  · rfl
  · rfl

/-- The text of a closed type decides what becomes of the type relative to other models. -/
theorem Closed.print_within {t : TypeExpr} (h : Closed known' t) (known : String → Bool) :
    (t.within known).print = normalize known t.print := by
  rw [normalize, read_print h]

/-- The text of a closed type decides which models it mentions. -/
theorem Closed.models_eq {t : TypeExpr} (h : Closed known t) : t.models = referenced t.print := by
  rw [referenced, read_print h]

theorem closed_map_within (known : String → Bool) {ts : List TypeExpr} (h : ∀ t ∈ ts, Raw t) :
    ∀ t ∈ ts.map (within known), Closed known t := by
  intro t ht
  obtain ⟨u, hu, rfl⟩ := List.mem_map.mp ht
  exact (h u hu).closed_within known

/-- Members whose text has come before may be removed early, as far as only texts matter. -/
theorem distinct_flatMap_distinctTypes {ts : List TypeExpr} {f : TypeExpr → List String}
    {g : String → List String} (h : ∀ t ∈ ts, f t = g t.print) :
    distinct ((distinctTypes ts).flatMap f) = distinct (ts.flatMap f) := by
  have hleft : (distinctTypes ts).flatMap f = (distinct (ts.map print)).flatMap g := by
    rw [← map_print_distinctTypes, List.flatMap_map]
    exact List.flatMap_congr fun t ht => h t (mem_of_mem_distinctTypes ht)
  have hall : ts.flatMap f = (ts.map print).flatMap g := by
    rw [List.flatMap_map]
    exact List.flatMap_congr h
  rw [hleft, hall, distinct_flatMap_distinct]

/-! ### Normalising again -/

theorem Raw.print_within_within (hle : ∀ m, known m = true → known' m = true) {t : TypeExpr}
    (h : Raw t) : ((t.within known').within known).print = (t.within known).print := by
  induction h with
  | keyword _ => rfl
  | @instanceOf model _ =>
    by_cases hmodel : known model = true
    · simp [within, hmodel, hle model hmodel]
    · by_cases hmodel' : known' model = true
      · simp [within, hmodel']
      · simp [within, hmodel, hmodel', any]
  | array _ ih => rw [within, within, within, print, print, ih]
  | @promise members inner ih =>
    by_cases hnil : members = []
    · rw [hnil]
      rfl
    · have hleft : (TypeExpr.promise members).within known' =
          TypeExpr.promise (distinctTypes (members.map (within known'))) := by
        rw [within, withinAll_eq, if_neg]
        cases members with
        | nil => exact absurd rfl hnil
        | cons t ts => exact Bool.false_ne_true
      have hremoved := distinct_flatMap_distinctTypes (f := fun t => [(t.within known).print])
        (g := fun text => [normalize known text])
        fun t ht => congrArg (fun text => [text])
          ((closed_map_within known' inner t ht).print_within known)
      rw [← List.map_eq_flatMap, ← List.map_eq_flatMap, List.map_map] at hremoved
      rw [hleft, print_within_promise, print_within_promise, hremoved]
      have hagain : members.map ((fun t => (t.within known).print) ∘ within known') =
          members.map fun t => (t.within known).print := List.map_congr_left ih
      rw [hagain]

/-- **Normalising for fewer models** needs the normalised text only. -/
theorem normalize_normalize (hle : ∀ m, known m = true → known' m = true) (text : String) :
    normalize known (normalize known' text) = normalize known text := by
  have htext : normalize known' text = ((read text).within known').print := rfl
  rw [htext, ← (closed_within_read known' text).print_within known]
  exact (raw_read text).print_within_within hle

theorem normalizeAll_normalizeAll (hle : ∀ m, known m = true → known' m = true)
    (texts : List String) :
    normalizeAll known (normalizeAll known' texts) = normalizeAll known texts := by
  have hagain : texts.map (normalize known ∘ normalize known') = texts.map (normalize known) := by
    apply List.map_congr_left
    intro text _
    rw [Function.comp_apply, normalize_normalize hle]
  simp only [normalizeAll]
  rw [distinct_map_distinct, List.map_map, hagain]

/-- **Normalisation composes along inclusion.**  When every name of one registry is a name of
another, types and lists of types may be normalised for the larger one first. -/
theorem normalize_of_keys_subset {models models' : Models}
    (h : Assoc.keys models ⊆ Assoc.keys models') :
    (∀ text, normalize models.knows (normalize models'.knows text) =
        normalize models.knows text) ∧
      ∀ texts, normalizeAll models.knows (normalizeAll models'.knows texts) =
        normalizeAll models.knows texts := by
  have hle : ∀ m, models.knows m = true → models'.knows m = true := by
    intro m hm
    exact Models.knows_iff.mpr (h (Models.knows_iff.mp hm))
  exact ⟨normalize_normalize hle, normalizeAll_normalizeAll hle⟩

/-- The model of pets alone. -/
def petModels : Models := [("Pet", Entity.blank "Pet" "Pet.js" .model "")]

/-- The models of pets and of their owners. -/
def ownedModels : Models := ("Owner", Entity.blank "Owner" "Owner.js" .model "") :: petModels

/-- Without owners, two members of the promise come to be the same. -/
theorem normalize_of_keys_subset_owner :
    Assoc.keys petModels ⊆ Assoc.keys ownedModels ∧
      normalize ownedModels.knows "Promise<$OwnerInstance[] | ...$PetInstance | Lead[]>" =
        "Promise<$OwnerInstance[]|$PetInstance|any[]>" ∧
      normalize petModels.knows "Promise<$OwnerInstance[]|$PetInstance|any[]>" =
        normalize petModels.knows "Promise<$OwnerInstance[] | ...$PetInstance | Lead[]>" ∧
      normalize petModels.knows "Promise<$OwnerInstance[] | ...$PetInstance | Lead[]>" =
        "Promise<any[]|$PetInstance>" := by
  have hsubset : Assoc.keys petModels ⊆ Assoc.keys ownedModels := List.subset_cons_self _ _
  have hfirst : normalize ownedModels.knows "Promise<$OwnerInstance[] | ...$PetInstance | Lead[]>" =
      "Promise<$OwnerInstance[]|$PetInstance|any[]>" := by decide
  refine ⟨hsubset, hfirst, ?_, by decide⟩
  rw [← hfirst]
  exact (normalize_of_keys_subset hsubset).1 _

/-! ### Models that are mentioned -/

theorem Raw.distinct_models_within {t : TypeExpr} (h : Raw t) (known : String → Bool) :
    distinct (t.within known).models = distinct (t.models.filter known) := by
  induction h with
  | keyword _ => rfl
  | @instanceOf model _ =>
    by_cases hmodel : known model = true
    · simp [within, models, hmodel]
    · simp [within, models, hmodel, any]
  | array _ ih => rw [within, models, models, ih]
  | @promise members inner ih =>
    -- the wildcard that stands for no members mentions nothing
    have hleft : ((TypeExpr.promise members).within known).models =
        (distinctTypes (members.map (within known))).flatMap models := by
      rw [within, withinAll_eq, models, modelsOfAll_eq]
      split
      · rename_i hnil
        rw [List.isEmpty_iff.mp hnil]
        rfl
      · rfl
    have hremoved := distinct_flatMap_distinctTypes fun t ht =>
      (closed_map_within known inner t ht).models_eq
    calc distinct ((TypeExpr.promise members).within known).models
        = distinct (members.flatMap fun t => (t.within known).models) := by
          rw [hleft, hremoved, List.flatMap_map]
      _ = distinct (members.flatMap fun t => t.models.filter known) := distinct_flatMap_congr ih
      _ = distinct ((TypeExpr.promise members).models.filter known) := by
          rw [models, modelsOfAll_eq, List.filter_flatMap]

/-- **The two walks over a type agree.**  Repetitions apart, the normalised text mentions exactly
the models of the text that are known, in the same order. -/
theorem eraseDups_referenced_normalize (models : Models) (text : String) :
    (referenced (normalize models.knows text)).eraseDups =
      ((referenced text).filter fun name => name ∈ Assoc.keys models).eraseDups := by
  have hknown : (referenced text).filter (fun name => name ∈ Assoc.keys models) =
      (referenced text).filter models.knows := by
    refine List.filter_congr fun name _ => ?_
    rw [Bool.eq_iff_iff, decide_eq_true_eq, Models.knows_iff]
  rw [hknown, ← distinct_eq_eraseDups, ← distinct_eq_eraseDups, normalize,
    ← (closed_within_read models.knows text).models_eq]
  exact (raw_read text).distinct_models_within models.knows

/-- A member that is written twice is mentioned twice, and once when the type is normalised. -/
example : referenced "Promise<$PetInstance|$OwnerInstance| $PetInstance>" = ["Pet", "Owner", "Pet"] ∧
    referenced (normalize (· == "Pet") "Promise<$PetInstance|$OwnerInstance| $PetInstance>") =
      ["Pet"] := by decide

end TypeExpr

end Rigging
