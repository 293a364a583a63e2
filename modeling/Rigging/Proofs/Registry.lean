import Rigging.Proofs.Assoc
import Rigging.Registry

/-!
# What a registry names

A registry built from a pool names every entity once, under its own name: `Registry.ofPool_eq`
gives the two lists of names with their places, models and services apart and each in the order of
the pool.  There is one exactly when no two names are equal but for case (`exists_ofPool_iff`), so an
identity means at most one model (`withIdentity?_modelsIn`).  Names and kinds are all that a registry
takes from a pool (`Entity.label`), so it names the entities of every later pool with the same labels
as well, and `modelsIn_eq` says which.
-/

namespace Rigging

namespace Entity

/-- What a registry takes from an entity. -/
def label (e : Entity) : String × EntityKind := (e.name, e.kind)

theorem names_of_labels {es es' : List Entity} (h : es.map label = es'.map label) :
    es.map name = es'.map name := by
  have hfst := congrArg (List.map Prod.fst) h
  rwa [List.map_map, List.map_map] at hfst

end Entity

namespace Pool

/-- The names of the models of a pool. -/
def modelNames (pool : Pool) : List String :=
  (pool.filter Entity.isModel).map Entity.name

theorem mem_modelNames {pool : Pool} {name : String} :
    name ∈ pool.modelNames ↔ ∃ e ∈ pool, e.isModel = true ∧ e.name = name := by
  simp only [modelNames, List.mem_map, List.mem_filter, and_assoc]

end Pool

namespace Models

/-- Every model is known under its own name. -/
def Keyed (models : Models) : Prop :=
  ∀ m ∈ models, m.2.name = m.1

variable {models : Models}

theorem Keyed.lower_name (keyed : models.Keyed) {identity : String} {model : Entity}
    (h : models.withIdentity? identity = some model) :
    Text.lower model.name = Text.lower identity := by
  obtain ⟨m, hm, rfl⟩ := Option.map_eq_some_iff.mp h
  have hfound := List.find?_some hm
  rw [beq_iff_eq] at hfound
  rw [keyed m (List.mem_of_find?_eq_some hm), hfound]

/-- The name of the model that an identity means is an identity of the same model. -/
theorem Keyed.withIdentity?_name (keyed : models.Keyed) {identity : String} {model : Entity}
    (h : models.withIdentity? identity = some model) :
    models.withIdentity? model.name = some model := by
  rw [withIdentity?, keyed.lower_name h, ← withIdentity?]
  exact h

end Models

namespace Registry

/-- The names of the entities of one kind with their places, the first of the pool at place `i`. -/
def named (kind : EntityKind) (i : Nat) (pool : Pool) : List (String × Nat) :=
  ((pool.zipIdx i).filter fun p => p.1.kind == kind).map fun p => (p.1.name, p.2)

theorem named_cons_self (e : Entity) (i : Nat) (pool : Pool) :
    named e.kind i (e :: pool) = (e.name, i) :: named e.kind (i + 1) pool := by
  simp [named, List.zipIdx_cons]

theorem named_cons_of_ne {kind : EntityKind} {e : Entity} (h : e.kind ≠ kind) (i : Nat)
    (pool : Pool) : named kind i (e :: pool) = named kind (i + 1) pool := by
  simp [named, List.zipIdx_cons, h]

/-- Naming one more entity, whose name is new, puts it behind the others of its kind. -/
theorem add_eq {r : Registry} {e : Entity} (i : Nat) (hm : e.name ∉ Assoc.keys r.models)
    (hs : e.name ∉ Assoc.keys r.services) :
    r.add e.kind e.name i =
      ⟨r.models ++ named .model i [e], r.services ++ named .service i [e]⟩ := by
  cases hk : e.kind with
  | model => simp [add, Assoc.put_of_not_mem hm, named, hk]
  | service => simp [add, Assoc.put_of_not_mem hs, named, hk]

theorem named_cons (kind : EntityKind) (e : Entity) (i : Nat) (pool : Pool) :
    named kind i (e :: pool) = named kind i [e] ++ named kind (i + 1) pool := by
  by_cases h : e.kind = kind
  · subst h
    rw [named_cons_self, named_cons_self]
    rfl
  · rw [named_cons_of_ne h, named_cons_of_ne h]
    rfl

theorem keys_named_mem {kind : EntityKind} {i : Nat} {pool : Pool} {k : String}
    (h : k ∈ Assoc.keys (named kind i pool)) : ∃ e ∈ pool, e.name = k ∧ e.kind = kind := by
  simp only [Assoc.keys, named, List.map_map, List.mem_map, List.mem_filter, beq_iff_eq,
    Function.comp_apply] at h
  obtain ⟨p, ⟨hp, hk⟩, rfl⟩ := h
  exact ⟨p.1, List.fst_mem_of_mem_zipIdx hp, rfl, hk⟩

/-- Names are different from each other and from those seen if the first one is new and the others
are so with it among those seen. -/
theorem fresh_cons {seen : List (String × Entity)} {e : Entity} {rest : Pool} :
    (((e :: rest).map fun e => Text.lower e.name).Nodup ∧
        ∀ e' ∈ e :: rest, Text.lower e'.name ∉ Assoc.keys seen) ↔
      Text.lower e.name ∉ Assoc.keys seen ∧ (rest.map fun e => Text.lower e.name).Nodup ∧
        ∀ e' ∈ rest, Text.lower e'.name ∉ Assoc.keys ((Text.lower e.name, e) :: seen) := by
  rw [List.map_cons, List.nodup_cons]
  constructor
  · rintro ⟨⟨hnew, hnodup⟩, hseen⟩
    refine ⟨hseen e List.mem_cons_self, hnodup, fun e' he' hmem => ?_⟩
    rcases List.mem_cons.mp hmem with heq | hmem
    · exact hnew (List.mem_map.mpr ⟨e', he', heq⟩)
    · exact hseen e' (List.mem_cons_of_mem _ he') hmem
  · rintro ⟨hnew, hnodup, hseen⟩
    refine ⟨⟨?_, hnodup⟩, ?_⟩
    · intro hmem
      obtain ⟨e', he', hname⟩ := List.mem_map.mp hmem
      exact hseen e' he' (hname ▸ List.mem_cons_self)
    · intro e' he'
      rcases List.mem_cons.mp he' with rfl | he'
      · exact hnew
      · exact fun hk => hseen e' he' (List.mem_cons_of_mem _ hk)

/-- What naming a whole pool has done when it succeeds.  The induction carries that all names so far
have their lower-case form among those seen. -/
theorem addAll_ok {pool : Pool} : ∀ {r r' : Registry} {seen : List (String × Entity)} {i : Nat},
    (∀ k, k ∈ Assoc.keys r.models ∨ k ∈ Assoc.keys r.services → Text.lower k ∈ Assoc.keys seen) →
    r.addAll seen i pool = .ok r' →
    r' = ⟨r.models ++ named .model i pool, r.services ++ named .service i pool⟩ ∧
      (pool.map fun e => Text.lower e.name).Nodup ∧
      ∀ e ∈ pool, Text.lower e.name ∉ Assoc.keys seen := by
  induction pool with
  | nil =>
    intro r r' seen i _ h
    rw [addAll] at h
    cases h
    simp [named]
  | cons e rest ih =>
    intro r r' seen i hseen h
    rw [addAll] at h
    split at h
    · cases h
    · rename_i hfresh
      have hnew := Assoc.get?_eq_none_iff.mp hfresh
      have hm : e.name ∉ Assoc.keys r.models := fun hk => hnew (hseen _ (Or.inl hk))
      have hs : e.name ∉ Assoc.keys r.services := fun hk => hnew (hseen _ (Or.inr hk))
      rw [add_eq i hm hs] at h
      have hseen' : ∀ k, k ∈ Assoc.keys (r.models ++ named .model i [e]) ∨
          k ∈ Assoc.keys (r.services ++ named .service i [e]) →
          Text.lower k ∈ Assoc.keys ((Text.lower e.name, e) :: seen) := by
        intro k hk
        simp only [Assoc.keys, List.map_append, List.mem_append] at hk
        rcases hk with (hk | hk) | (hk | hk)
        · exact List.mem_cons_of_mem _ (hseen k (Or.inl hk))
        · obtain ⟨e', he', rfl, _⟩ := keys_named_mem hk
          rw [List.mem_singleton.mp he']
          exact List.mem_cons_self
        · exact List.mem_cons_of_mem _ (hseen k (Or.inr hk))
        · obtain ⟨e', he', rfl, _⟩ := keys_named_mem hk
          rw [List.mem_singleton.mp he']
          exact List.mem_cons_self
      obtain ⟨hr, hnodup, hrest⟩ := ih hseen' h
      refine ⟨?_, fresh_cons.mpr ⟨hnew, hnodup, hrest⟩⟩
      rw [hr, named_cons .model e i rest, named_cons .service e i rest,
        List.append_assoc, List.append_assoc]

/-- **The registry of a pool.**  It names every entity at its place, and no two names are equal but
for case. -/
theorem ofPool_eq {pool : Pool} {r : Registry} (h : ofPool pool = .ok r) :
    r = ⟨named .model 0 pool, named .service 0 pool⟩ ∧
      (pool.map fun e => Text.lower e.name).Nodup := by
  have hnone : ∀ k, k ∈ Assoc.keys empty.models ∨ k ∈ Assoc.keys empty.services →
      Text.lower k ∈ Assoc.keys ([] : List (String × Entity)) := by
    intro k hk
    simp [empty, Assoc.keys] at hk
  obtain ⟨hr, hnodup, _⟩ := addAll_ok hnone h
  exact ⟨by simpa [empty] using hr, hnodup⟩

theorem exists_addAll_ok {pool : Pool} : ∀ {r : Registry} {seen : List (String × Entity)} {i : Nat},
    (pool.map fun e => Text.lower e.name).Nodup →
    (∀ e ∈ pool, Text.lower e.name ∉ Assoc.keys seen) → ∃ r', r.addAll seen i pool = .ok r' := by
  induction pool with
  | nil => exact fun _ _ => ⟨_, rfl⟩
  | cons e rest ih =>
    intro r seen i hnodup hseen
    obtain ⟨hnew, hnodup', hseen'⟩ := fresh_cons.mp ⟨hnodup, hseen⟩
    simp only [addAll, Assoc.get?_eq_none_iff.mpr hnew]
    exact ih hnodup' hseen'

/-- **A pool has a registry** exactly when no two of its names are equal but for case. -/
theorem exists_ofPool_iff {pool : Pool} :
    (∃ r, ofPool pool = .ok r) ↔ (pool.map fun e => Text.lower e.name).Nodup := by
  constructor
  · rintro ⟨r, hr⟩
    exact (ofPool_eq hr).2
  · intro hnodup
    exact exists_addAll_ok hnodup fun _ _ => List.not_mem_nil

theorem named_congr {pool pool' : Pool} (h : pool.map Entity.label = pool'.map Entity.label)
    (kind : EntityKind) : named kind 0 pool = named kind 0 pool' := by
  have hlabel : ∀ p : Pool, named kind 0 p =
      (((p.map Entity.label).zipIdx 0).filter fun q => q.1.2 == kind).map
        fun q => (q.1.1, q.2) := by
    intro p
    rw [List.zipIdx_map, List.filter_map, List.map_map]
    rfl
  rw [hlabel, hlabel, h]

theorem filter_kind_eq (kind : EntityKind) (pool : Pool) :
    (pool.filter fun e => e.kind == kind) =
      ((pool.zipIdx 0).filter fun p => p.1.kind == kind).map Prod.fst := by
  conv_lhs => rw [← List.zipIdx_map_fst 0 pool, List.filter_map]
  rfl

theorem keys_named (kind : EntityKind) (pool : Pool) :
    Assoc.keys (named kind 0 pool) = (pool.filter fun e => e.kind == kind).map Entity.name := by
  rw [filter_kind_eq, Assoc.keys, named, List.map_map, List.map_map]
  rfl

theorem entitiesOf_named (kind : EntityKind) (pool : Pool) :
    entitiesOf pool (named kind 0 pool) =
      (pool.filter fun e => e.kind == kind).map fun e => (e.name, e) := by
  have hplace : ∀ p ∈ (pool.zipIdx 0).filter fun p => p.1.kind == kind,
      (pool[p.2]?.map fun e => (p.1.name, e)) = some (p.1.name, p.1) := by
    intro p hp
    rw [List.mem_zipIdx_iff_getElem?.mp (List.mem_filter.mp hp).1]
    rfl
  rw [entitiesOf, named, List.filterMap_map, filter_kind_eq, List.map_map]
  refine (List.filterMap_congr hplace).trans ?_
  exact congrFun List.filterMap_eq_map' _

section Built

variable {pool pool' : Pool} {r : Registry} (h : ofPool pool = .ok r)
  (hlabel : pool'.map Entity.label = pool.map Entity.label)

include h hlabel

/-- **The models that a registry names** in a pool with the labels of the one it was built from. -/
theorem modelsIn_eq : r.modelsIn pool' = (pool'.filter Entity.isModel).map fun e => (e.name, e) := by
  rw [modelsIn, (ofPool_eq h).1, ← named_congr hlabel]
  exact entitiesOf_named .model pool'

theorem servicesIn_eq :
    r.servicesIn pool' = (pool'.filter fun e => e.kind == .service).map fun e => (e.name, e) := by
  rw [servicesIn, (ofPool_eq h).1]
  dsimp only
  rw [← named_congr hlabel]
  exact entitiesOf_named .service pool'

/-- The names of a registry are those of the entities that it names, models and services apart. -/
theorem keys_eq : Assoc.keys r.models = (pool'.filter Entity.isModel).map Entity.name ∧
    Assoc.keys r.services = (pool'.filter fun e => e.kind == .service).map Entity.name := by
  rw [(ofPool_eq h).1, ← named_congr hlabel, ← named_congr hlabel]
  exact ⟨keys_named .model pool', keys_named .service pool'⟩

theorem names_nodup : (pool'.map Entity.name).Nodup := by
  rw [Entity.names_of_labels hlabel]
  have hlower := (ofPool_eq h).2
  rw [show (fun e : Entity => Text.lower e.name) = Text.lower ∘ Entity.name from rfl,
    ← List.map_map] at hlower
  exact List.Nodup.of_map _ hlower

theorem mem_modelsIn {name : String} {e : Entity} :
    (name, e) ∈ r.modelsIn pool' ↔ e ∈ pool' ∧ e.isModel ∧ e.name = name := by
  rw [modelsIn_eq h hlabel]
  simp only [List.mem_map, List.mem_filter, Prod.mk.injEq]
  constructor
  · rintro ⟨e', ⟨hmem, hmodel⟩, hname, rfl⟩
    exact ⟨hmem, hmodel, hname⟩
  · rintro ⟨hmem, hmodel, hname⟩
    exact ⟨e, ⟨hmem, hmodel⟩, hname, rfl⟩

theorem keyed_modelsIn : (r.modelsIn pool').Keyed := by
  rintro ⟨name, model⟩ hm
  exact ((mem_modelsIn h hlabel).mp hm).2.2

theorem keys_modelsIn_nodup : (Assoc.keys (r.modelsIn pool')).Nodup := by
  rw [modelsIn_eq h hlabel, Assoc.keys, List.map_map]
  exact List.Nodup.sublist (List.filter_sublist.map _) (names_nodup h hlabel)

/-- Looking up a model by its name finds the model of that name. -/
theorem get?_modelsIn {name : String} {e : Entity} :
    Assoc.get? name (r.modelsIn pool') = some e ↔ e ∈ pool' ∧ e.isModel ∧ e.name = name := by
  rw [← mem_modelsIn h hlabel]
  exact ⟨Assoc.mem_of_get?_eq_some, Assoc.get?_eq_some_of_mem (keys_modelsIn_nodup h hlabel)⟩

end Built

/-! ### The names of the models -/

section ModelNames

variable {pool : Pool} {r : Registry} (h : ofPool pool = .ok r)

include h

theorem knows_modelsIn {name : String} :
    (r.modelsIn pool).knows name = true ↔ name ∈ pool.modelNames := by
  rw [Models.knows, List.any_eq_true, Pool.mem_modelNames]
  constructor
  · rintro ⟨m, hm, hname⟩
    obtain ⟨hmem, hmodel, hkey⟩ := (mem_modelsIn h rfl).mp hm
    exact ⟨m.2, hmem, hmodel, hkey.trans (beq_iff_eq.mp hname)⟩
  · rintro ⟨e, hmem, hmodel, rfl⟩
    exact ⟨(e.name, e), (mem_modelsIn h rfl).mpr ⟨hmem, hmodel, rfl⟩, beq_self_eq_true _⟩

theorem mem_of_withIdentity? {identity : String} {e : Entity}
    (he : (r.modelsIn pool).withIdentity? identity = some e) :
    e ∈ pool ∧ e.isModel = true ∧ Text.lower e.name = Text.lower identity := by
  have hlower := (keyed_modelsIn h rfl).lower_name he
  obtain ⟨m, hm, rfl⟩ := Option.map_eq_some_iff.mp he
  obtain ⟨hpool, hmodel, _⟩ := (mem_modelsIn h rfl).mp (List.mem_of_find?_eq_some hm)
  exact ⟨hpool, hmodel, hlower⟩

/-- **An identity means the one model** whose name it is but for case. -/
theorem withIdentity?_modelsIn {identity name : String} :
    ((r.modelsIn pool).withIdentity? identity).map Entity.name = some name ↔
      name ∈ pool.modelNames ∧ Text.lower name = Text.lower identity := by
  rw [Pool.mem_modelNames, Option.map_eq_some_iff]
  constructor
  · rintro ⟨e, he, rfl⟩
    obtain ⟨hpool, hmodel, hlower⟩ := mem_of_withIdentity? h he
    exact ⟨⟨e, hpool, hmodel, rfl⟩, hlower⟩
  · rintro ⟨⟨e, hpool, hmodel, rfl⟩, hlower⟩
    have hmem := (mem_modelsIn h rfl).mpr ⟨hpool, hmodel, rfl⟩
    have hsome : ((r.modelsIn pool).find?
        fun m => Text.lower m.1 == Text.lower identity).isSome = true :=
      List.find?_isSome.mpr ⟨(e.name, e), hmem, beq_iff_eq.mpr hlower⟩
    obtain ⟨m, hm⟩ := Option.isSome_iff_exists.mp hsome
    have hfirst : (r.modelsIn pool).withIdentity? identity = some m.2 := by
      rw [Models.withIdentity?, hm]
      rfl
    -- the model that comes first is the only one with this name
    obtain ⟨hpool', _, hlower'⟩ := mem_of_withIdentity? h hfirst
    have hsame : m.2 = e :=
      List.inj_on_of_nodup_map (ofPool_eq h).2 hpool' hpool (hlower'.trans hlower.symm)
    exact ⟨m.2, hfirst, congrArg Entity.name hsame⟩

end ModelNames

/-- The places of a registry are those of the pool it was built from, each once. -/
theorem places_of_ofPool {pool : Pool} {r : Registry} (h : ofPool pool = .ok r) :
    r.places.Nodup ∧ ∀ i, i ∈ r.places ↔ i < pool.length := by
  have hmem : ∀ kind i, i ∈ (named kind 0 pool).map Prod.snd ↔
      ∃ e, pool[i]? = some e ∧ e.kind = kind := by
    intro kind i
    simp only [named, List.map_map, List.mem_map, List.mem_filter, beq_iff_eq,
      Function.comp_apply]
    constructor
    · rintro ⟨p, ⟨hp, hk⟩, rfl⟩
      exact ⟨p.1, List.mem_zipIdx_iff_getElem?.mp hp, hk⟩
    · rintro ⟨e, he, hk⟩
      exact ⟨(e, i), ⟨List.mem_zipIdx_iff_getElem?.mpr he, hk⟩, rfl⟩
  have hnodup : ∀ kind, ((named kind 0 pool).map Prod.snd).Nodup := by
    intro kind
    have hall : ((pool.zipIdx 0).map Prod.snd).Nodup := by
      rw [List.zipIdx_map_snd]
      exact List.nodup_range'
    rw [named, List.map_map]
    exact List.Nodup.sublist (List.filter_sublist.map _) hall
  rw [places, (ofPool_eq h).1, List.map_append]
  refine ⟨List.nodup_append'.mpr ⟨hnodup _, hnodup _, ?_⟩, ?_⟩
  · intro i hm hs
    obtain ⟨e, he, hk⟩ := (hmem _ i).mp hm
    obtain ⟨e', he', hk'⟩ := (hmem _ i).mp hs
    rw [he] at he'
    rw [← Option.some.inj he', hk] at hk'
    cases hk'
  · intro i
    rw [List.mem_append, hmem, hmem]
    constructor
    · rintro (⟨e, he, _⟩ | ⟨e, he, _⟩) <;> exact (List.getElem?_eq_some_iff.mp he).1
    · intro hi
      cases hk : pool[i].kind with
      | model => exact Or.inl ⟨pool[i], List.getElem?_eq_getElem hi, hk⟩
      | service => exact Or.inr ⟨pool[i], List.getElem?_eq_getElem hi, hk⟩

end Registry

end Rigging
