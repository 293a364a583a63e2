import Mathlib.Data.List.TakeWhile
import Rigging.Proofs.Build
import Rigging.Proofs.Distinct

/-!
# What linking collects

Linking walks through the imports of an entity, passes over the entity itself and the models it has
visited, and ends at a name that it does not know.  `collectInstances_eq` says what comes out without
the walk: the imports up to the first unknown name, each once and without the entity itself, give the
classes and the notices.
-/

namespace Rigging

/-- The longest prefix of a list whose elements all have a property. -/
structure IsLongestPrefix {α : Type} (P : α → Prop) (start xs : List α) : Prop where
  isPrefix : start <+: xs
  holds : ∀ x ∈ start, P x
  longest : ∀ other, other <+: xs → (∀ x ∈ other, P x) → other <+: start

theorem isLongestPrefix_takeWhile {α : Type} (P : α → Prop) [DecidablePred P] (xs : List α) :
    IsLongestPrefix P (xs.takeWhile fun x => decide (P x)) xs where
  isPrefix := List.takeWhile_prefix _
  holds x hx := by simpa using List.mem_takeWhile_imp hx
  longest other hother hall := by
    obtain ⟨rest, rfl⟩ := hother
    rw [List.takeWhile_append_of_pos fun x hx => decide_eq_true (hall x hx)]
    exact List.prefix_append _ _

/-- The instance class that linking finds under a name. -/
def Models.linkedClass? (models : Models) (name : String) : Option String :=
  (Assoc.get? name models).bind fun target => target.declarations.instanceClass

theorem Models.linkedClass?_eq_join (models : Models) (name : String) :
    models.linkedClass? name = (models.instanceClass? name).join := by
  rw [linkedClass?, instanceClass?]
  cases Assoc.get? name models <;> rfl

namespace Entity

variable (models : Models) (e : Entity)

/-- A name that linking does not stop at: the entity's own, or that of a model. -/
def Knows (name : String) : Prop :=
  name = e.name ∨ name ∈ Assoc.keys models

instance (name : String) : Decidable (e.Knows models name) :=
  inferInstanceAs (Decidable (_ ∨ _))

/-- The models among names that are still to be linked, each at its first occurrence. -/
def linkTargets (visited names : List String) : List String :=
  distinct (names.filter fun n => !(n == e.name || visited.contains n))

section Targets

variable {e} {visited names : List String} {name : String}

theorem linkTargets_skip (h : (name == e.name || visited.contains name) = true) :
    e.linkTargets visited (name :: names) = e.linkTargets visited names := by
  rw [linkTargets, List.filter_cons_of_neg (by rw [h]; exact Bool.false_ne_true)]
  rfl

/-- A model that is linked counts as visited from then on. -/
theorem linkTargets_visit (h : (name == e.name || visited.contains name) = false) :
    e.linkTargets visited (name :: names) = name :: e.linkTargets (name :: visited) names := by
  have hvisited : ∀ n, (!(n == name) && !(n == e.name || visited.contains n)) =
      !(n == e.name || (name :: visited).contains n) := by
    intro n
    rw [List.contains_cons]
    cases n == name <;> cases n == e.name <;> simp
  rw [linkTargets, List.filter_cons_of_pos (by rw [h]; rfl), distinct, filter_distinct,
    List.filter_filter]
  simp only [hvisited]
  rfl

theorem linkTargets_nil : e.linkTargets [] names = distinct (names.filter fun n => n != e.name) := by
  simp [linkTargets, bne]

end Targets

/-- The walk through names that are known, then perhaps one that is not.  The induction is on the
names; what has been visited is known, so the walk never stops at it. -/
theorem linkedInstances_eq (names : List String) : ∀ visited : List String,
    (∀ n ∈ visited, n ∈ Assoc.keys models) → ∀ s : Entity,
      let known := names.takeWhile fun n => decide (e.Knows models n)
      let targets := e.linkTargets visited known
      linkedInstances models e visited names s =
        ⟨.ok (targets.filterMap models.linkedClass?), s,
          (targets.filter fun n => (models.linkedClass? n).isNone).map
              (fun n => .missingInstance n e.describe) ++
            ((names.drop known.length).take 1).map fun n => .unknownImport n e.describe⟩ := by
  induction names with
  | nil => exact fun _ _ _ => rfl
  | cons name names ih =>
    intro visited hvisited s
    dsimp only
    cases hskip : name == e.name || visited.contains name with
    | true =>
      have hknows : e.Knows models name := by
        rcases Bool.or_eq_true_iff.mp hskip with hown | hseen
        · exact .inl (beq_iff_eq.mp hown)
        · exact .inr (hvisited name (List.contains_iff_mem.mp hseen))
      rw [linkedInstances, if_pos hskip, ih visited hvisited s,
        List.takeWhile_cons_of_pos (p := fun n => decide (e.Knows models n)) (decide_eq_true hknows),
        linkTargets_skip hskip]
      rfl
    | false =>
      obtain ⟨hown, hnew⟩ := Bool.or_eq_false_iff.mp hskip
      rw [linkedInstances, if_neg (ne_true_of_eq_false hskip)]
      cases hget : Assoc.get? name models with
      | none =>
        have hunknown : ¬e.Knows models name := by
          rintro (heq | hmem)
          · simp [heq] at hown
          · exact Assoc.get?_eq_none_iff.mp hget hmem
        rw [List.takeWhile_cons_of_neg (p := fun n => decide (e.Knows models n)) (by simpa using hunknown)]
        rfl
      | some target =>
        have hmem : name ∈ Assoc.keys models := List.mem_map_of_mem (Assoc.mem_of_get?_eq_some hget)
        have hrest := ih (name :: visited) (List.forall_mem_cons.mpr ⟨hmem, hvisited⟩) s
        have hclass : models.linkedClass? name = target.declarations.instanceClass := by
          rw [Models.linkedClass?, hget]
          rfl
        rw [List.takeWhile_cons_of_pos (p := fun n => decide (e.Knows models n))
          (decide_eq_true (Or.inr hmem)), linkTargets_visit hskip]
        dsimp only at hrest ⊢
        cases hinstance : target.declarations.instanceClass with
        | none =>
          rw [hinstance] at hclass
          dsimp only
          rw [Act.notify_bind, hrest, List.filterMap_cons_none hclass,
            List.filter_cons_of_pos (by simp [hclass])]
          rfl
        | some text =>
          rw [hinstance] at hclass
          dsimp only
          rw [Act.bind_of_ok (by rw [hrest]), hrest, List.filterMap_cons_some hclass,
            List.filter_cons_of_neg (by simp [hclass])]
          simp

/-- **What linking collects.**  Of the longest prefix of the imports whose names are all known, the
distinct models but the entity itself are linked in the order of their first occurrences.  Those
without an instance class are left out with a notice each, and there is one more notice if the prefix
is not all of the imports, about the name behind it. -/
theorem collectInstances_eq : ∃ known rest, e.imports = known ++ rest ∧
    IsLongestPrefix (e.Knows models) known e.imports ∧
    let targets := distinct (known.filter fun n => n != e.name)
    collectInstances models e =
      ⟨.ok (targets.filterMap models.linkedClass?), e,
        (targets.filter fun n => (models.linkedClass? n).isNone).map
            (fun n => .missingInstance n e.describe) ++
          (rest.take 1).map fun n => .unknownImport n e.describe⟩ := by
  have hlongest := isLongestPrefix_takeWhile (e.Knows models) e.imports
  refine ⟨_, _, (List.prefix_iff_eq_append.mp hlongest.isPrefix).symm, hlongest, ?_⟩
  rw [← linkTargets_nil]
  exact linkedInstances_eq models e e.imports [] (List.forall_mem_nil _) e

end Entity

end Rigging
