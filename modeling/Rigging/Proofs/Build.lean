import Rigging.Proofs.Declaration.Standalone
import Rigging.Proofs.Registry

/-!
# What a build does to a pool

A build goes through the places of a registry twice.  Both times the work at a place depends on the
other entities only through something that the work never changes: names and kinds in the first
round (`prepareAt`), instance classes in the second (`linkAt`).  So each round does one fixed thing to
every entity (`outcome`), and a build is read off entity by entity: `build_ok_iff` for when it
succeeds, `build_ok` for the pool it leaves, `build_error` and `build_notices` for where its errors and
notices come from.
-/

namespace Rigging

namespace Entity

/-- The first round's work on one entity. -/
def prepare (models : Models) : Act Entity Unit := do
  resolve models
  declareStandalone

theorem keeps_label_declareStandalone : Act.Keeps label declareStandalone :=
  keeps_declareStandalone fun _ _ => rfl

theorem label_of_frame {e e' : Entity} (h : e.frame = e'.frame) : e.label = e'.label := by
  simp only [frame, Prod.mk.injEq] at h
  simp only [label, h.1, h.2.2.1]

theorem keeps_label_prepare (models : Models) : Act.Keeps label (prepare models) :=
  Act.keeps_bind (fun e => label_of_frame (keeps_resolve models e)) fun _ =>
    keeps_label_declareStandalone

/-- What the second round takes from an entity. -/
def linkView (e : Entity) : (String × EntityKind) × Option String :=
  (e.label, e.declarations.instanceClass)

end Entity

namespace Models

/-- The instance class of the model that is known under a name. -/
def instanceClass? (models : Models) (name : String) : Option (Option String) :=
  (Assoc.get? name models).map fun e => e.declarations.instanceClass

end Models

namespace Entity

theorem linkedInstances_congr {models models' : Models} (e : Entity) {names : List String}
    (h : ∀ name ∈ names, models.instanceClass? name = models'.instanceClass? name) : ∀ visited,
    linkedInstances models e visited names = linkedInstances models' e visited names := by
  induction names with
  | nil => exact fun _ => rfl
  | cons name names ih =>
    intro visited
    have hname := h name List.mem_cons_self
    simp only [Models.instanceClass?] at hname
    simp only [linkedInstances, ih fun n hn => h n (List.mem_cons_of_mem _ hn)]
    split
    · rfl
    · cases hm : Assoc.get? name models <;> cases hm' : Assoc.get? name models'
      · rfl
      · rw [hm, hm'] at hname; cases hname
      · rw [hm, hm'] at hname; cases hname
      · rename_i target target'
        rw [hm, hm'] at hname
        have hclass : target.declarations.instanceClass = target'.declarations.instanceClass :=
          Option.some.inj hname
        simp only [hclass]

/-- Linking sees nothing of the models but the instance classes of the entity's imports. -/
theorem declareLinked_congr {models models' : Models} {e : Entity}
    (h : ∀ name ∈ e.imports, models.instanceClass? name = models'.instanceClass? name) :
    declareLinked models e = declareLinked models' e := by
  have hcollect : collectInstances models e = collectInstances models' e := by
    simp only [collectInstances, Act.state_bind, linkedInstances_congr e h]
  rw [declareLinked, declareLinked, Act.state_bind, Act.state_bind]
  cases e.declarations.staticClass with
  | none => rfl
  | some text => exact Act.bind_congr_left hcollect _

/-- The entity without its linked text. -/
def unlinked (e : Entity) : Entity :=
  { e with declarations := { e.declarations with linked := none } }

/-- Linking changes nothing but the linked text. -/
theorem keeps_unlinked_declareLinked (models : Models) :
    Act.Keeps unlinked (declareLinked models) := by
  have hinstances : ∀ (e : Entity) (names visited : List String),
      Act.Keeps unlinked (linkedInstances models e visited names) := by
    intro e names
    induction names with
    | nil => exact fun _ => Act.keeps_pure _
    | cons name names ih =>
      intro visited
      simp only [linkedInstances]
      split
      · exact ih visited
      · split
        · exact Act.keeps_bind (Act.keeps_notify _) fun _ => Act.keeps_pure _
        · split
          · exact Act.keeps_bind (Act.keeps_notify _) fun _ => ih _
          · exact Act.keeps_bind (ih _) fun _ => Act.keeps_pure _
  refine Act.keeps_bind Act.keeps_state fun e => ?_
  dsimp only
  split
  · exact Act.keeps_fail _
  · refine Act.keeps_bind (Act.keeps_bind Act.keeps_state fun e => hinstances e _ _) fun texts => ?_
    have hlast : ∀ text : String, Act.Keeps unlinked (Act.modify fun e : Entity =>
        { e with declarations := { e.declarations with linked := some text } }) :=
      fun _ => Act.keeps_modify fun _ => rfl
    split
    · split
      · exact hlast _
      · exact Act.keeps_fail _
    · exact hlast _

theorem keeps_linkView_declareLinked (models : Models) :
    Act.Keeps linkView (declareLinked models) := by
  intro e
  have hview : ∀ e : Entity, e.linkView = e.unlinked.linkView := fun _ => rfl
  rw [hview, keeps_unlinked_declareLinked, ← hview]

theorem imports_declareLinked (models : Models) (e : Entity) :
    (declareLinked models e).state.imports = e.imports := by
  have himports : ∀ e : Entity, e.imports = e.unlinked.imports := fun _ => rfl
  rw [himports, keeps_unlinked_declareLinked, ← himports]

end Entity

namespace Pool

/-! ### Work at one place -/

theorem atPlace_of_some {pool : Pool} {i : Nat} {e : Entity} (h : pool[i]? = some e)
    (a : Act Entity Unit) :
    atPlace i a pool = ⟨(a e).result, pool.set i (a e).state, (a e).notices⟩ := by
  simp only [atPlace, h]

theorem atPlace_of_none {pool : Pool} {i : Nat} (h : pool[i]? = none) (a : Act Entity Unit) :
    atPlace i a pool = ⟨.ok (), pool, []⟩ := by
  simp only [atPlace, h]

theorem keeps_atPlace {γ : Type} {view : Entity → γ} {a : Act Entity Unit}
    (h : Act.Keeps view a) (i : Nat) : Act.Keeps (List.map view) (atPlace i a) := by
  intro pool
  cases hi : pool[i]? with
  | none => rw [atPlace_of_none hi]
  | some e =>
    rw [atPlace_of_some hi]
    show (pool.set i (a e).state).map view = pool.map view
    rw [List.map_set, h e]
    apply List.ext_getElem?
    intro j
    rw [List.getElem?_set, List.length_map, List.getElem?_map]
    split
    · rename_i hij
      subst hij
      rw [hi, if_pos (List.getElem?_eq_some_iff.mp hi).1]
      rfl
    · rfl

theorem atPlace_bind (a b : Act Entity Unit) (i : Nat) (pool : Pool) :
    (atPlace i a >>= fun _ => atPlace i b) pool = atPlace i (a >>= fun _ => b) pool := by
  cases hi : pool[i]? with
  | none =>
    have ha := atPlace_of_none hi a
    rw [Act.bind_of_ok (congrArg Outcome.result ha), ha, atPlace_of_none hi, atPlace_of_none hi]
    rfl
  | some e =>
    have ha := atPlace_of_some hi a
    rw [atPlace_of_some hi]
    cases hx : (a e).result with
    | error err =>
      have hr : (atPlace i a pool).result = .error err := by rw [ha]; exact hx
      rw [Act.bind_of_error hr, ha, Act.bind_of_error hx]
    | ok u =>
      have hr : (atPlace i a pool).result = .ok u := by rw [ha]; exact hx
      have hset : (pool.set i (a e).state)[i]? = some (a e).state :=
        List.getElem?_set_self (List.getElem?_eq_some_iff.mp hi).1
      rw [Act.bind_of_ok hr, ha, Act.bind_of_ok hx, atPlace_of_some hset]
      simp only [List.set_set]

/-! ### The same work at many places -/

/-- The same work at several places, one after the other. -/
def atPlaces (a : Act Entity Unit) (places : List Nat) : Act Pool Unit :=
  Act.forEach (fun i => atPlace i a) places

theorem atPlaces_cons (a : Act Entity Unit) (i : Nat) (places : List Nat) :
    atPlaces a (i :: places) = (atPlace i a >>= fun _ => atPlaces a places) := rfl

section Rounds

variable {a : Act Entity Unit} {places : List Nat}

/-- Work at one place leaves the entities at all other places as they are. -/
theorem getElem?_atPlace_of_ne {i j : Nat} (h : i ≠ j) (pool : Pool) :
    (atPlace i a pool).state[j]? = pool[j]? := by
  cases hi : pool[i]? with
  | none => rw [atPlace_of_none hi]
  | some e => rw [atPlace_of_some hi]; exact List.getElem?_set_ne h

theorem getElem?_atPlace_self (i : Nat) (pool : Pool) :
    (atPlace i a pool).state[i]? = pool[i]?.map fun e => (a e).state := by
  cases hi : pool[i]? with
  | none => rw [atPlace_of_none hi, hi]; rfl
  | some e =>
    rw [atPlace_of_some hi]
    exact List.getElem?_set_self (List.getElem?_eq_some_iff.mp hi).1

/-- When the work succeeds everywhere, each entity is what the work makes of it. -/
theorem atPlaces_ok (hnodup : places.Nodup) : ∀ {pool : Pool},
    (atPlaces a places pool).result = .ok () →
    (∀ i ∈ places, ∀ e, pool[i]? = some e → (a e).result = .ok ()) ∧
      ∀ i, (atPlaces a places pool).state[i]? =
        if i ∈ places then pool[i]?.map fun e => (a e).state else pool[i]? := by
  induction places with
  | nil => exact fun _ => ⟨fun _ hi => (nomatch hi), fun _ => rfl⟩
  | cons i places ih =>
    intro pool h
    obtain ⟨hfresh, hnodup⟩ := List.nodup_cons.mp hnodup
    rw [atPlaces_cons] at h ⊢
    obtain ⟨u, hu, h, hstate⟩ := Act.bind_result_ok h
    obtain ⟨hrest, hst⟩ := ih hnodup h
    -- what stands at a later place has not been touched yet
    have hlater : ∀ j ∈ places, (atPlace i a pool).state[j]? = pool[j]? := fun j hj =>
      getElem?_atPlace_of_ne (ne_of_mem_of_not_mem hj hfresh).symm pool
    refine ⟨?_, ?_⟩
    · intro j hj e he
      rcases List.mem_cons.mp hj with rfl | hj
      · rw [atPlace_of_some he] at hu
        exact hu
      · exact hrest j hj e ((hlater j hj).trans he)
    · intro j
      rw [hstate, hst j]
      by_cases hj : j ∈ places
      · rw [if_pos hj, if_pos (List.mem_cons_of_mem _ hj), hlater j hj]
      · rw [if_neg hj]
        by_cases hij : j = i
        · subst hij
          rw [if_pos List.mem_cons_self, getElem?_atPlace_self]
        · have hnot : j ∉ i :: places := fun hm => (List.mem_cons.mp hm).elim hij hj
          rw [if_neg hnot, getElem?_atPlace_of_ne (Ne.symm hij)]

/-- An error comes from the work on one of the entities. -/
theorem atPlaces_error (hnodup : places.Nodup) {err : Error} : ∀ {pool : Pool},
    (atPlaces a places pool).result = .error err →
    ∃ i ∈ places, ∃ e, pool[i]? = some e ∧ (a e).result = .error err := by
  induction places with
  | nil => exact fun h => nomatch h
  | cons i places ih =>
    intro pool h
    obtain ⟨hfresh, hnodup⟩ := List.nodup_cons.mp hnodup
    rw [atPlaces_cons] at h
    rcases Act.bind_result_error h with ⟨herr, _⟩ | ⟨u, _, h, _⟩
    · cases he : pool[i]? with
      | none => rw [atPlace_of_none he] at herr; cases herr
      | some e =>
        rw [atPlace_of_some he] at herr
        exact ⟨i, List.mem_cons_self, e, he, herr⟩
    · obtain ⟨j, hj, e, he, herr⟩ := ih hnodup h
      rw [getElem?_atPlace_of_ne (ne_of_mem_of_not_mem hj hfresh).symm] at he
      exact ⟨j, List.mem_cons_of_mem _ hj, e, he, herr⟩

/-- A notice comes from the work on one of the entities. -/
theorem atPlaces_notices (hnodup : places.Nodup) {n : Notice} : ∀ {pool : Pool},
    n ∈ (atPlaces a places pool).notices →
    ∃ i ∈ places, ∃ e, pool[i]? = some e ∧ n ∈ (a e).notices := by
  induction places with
  | nil => exact fun h => nomatch h
  | cons i places ih =>
    intro pool h
    obtain ⟨hfresh, hnodup⟩ := List.nodup_cons.mp hnodup
    rw [atPlaces_cons] at h
    rcases Act.bind_notices h with hn | ⟨u, _, hn⟩
    · cases he : pool[i]? with
      | none => rw [atPlace_of_none he] at hn; cases hn
      | some e =>
        rw [atPlace_of_some he] at hn
        exact ⟨i, List.mem_cons_self, e, he, hn⟩
    · obtain ⟨j, hj, e, he, hn⟩ := ih hnodup hn
      rw [getElem?_atPlace_of_ne (ne_of_mem_of_not_mem hj hfresh).symm] at he
      exact ⟨j, List.mem_cons_of_mem _ hj, e, he, hn⟩

/-- Work at all places of a pool that succeeds. -/
theorem atPlaces_all {pool : Pool} (hnodup : places.Nodup)
    (hall : ∀ i, i ∈ places ↔ i < pool.length)
    (h : (atPlaces a places pool).result = .ok ()) :
    (∀ e ∈ pool, (a e).result = .ok ()) ∧
      (atPlaces a places pool).state = pool.map fun e => (a e).state := by
  obtain ⟨hok, hstate⟩ := atPlaces_ok hnodup h
  refine ⟨?_, ?_⟩
  · intro e he
    obtain ⟨i, hi⟩ := List.mem_iff_getElem?.mp he
    exact hok i ((hall i).mpr (List.getElem?_eq_some_iff.mp hi).1) e hi
  · apply List.ext_getElem?
    intro i
    rw [hstate i, List.getElem?_map]
    split
    · rfl
    · rename_i hi
      rw [List.getElem?_eq_none (Nat.le_of_not_lt fun hlt => hi ((hall i).mpr hlt))]
      rfl

end Rounds

/-! ### The two rounds of a build -/

theorem entitiesOf_map {γ : Type} (f : Entity → γ) (pool : Pool) (names : List (String × Nat)) :
    (Registry.entitiesOf pool names).map (fun m => (m.1, f m.2)) =
      names.filterMap fun n => (pool.map f)[n.2]?.map fun v => (n.1, v) := by
  rw [Registry.entitiesOf, List.map_filterMap]
  congr 1
  funext n
  rw [List.getElem?_map, Option.map_map, Option.map_map]
  rfl

section Views

variable {pool pool' : Pool} (r : Registry)

theorem signature_modelsIn_congr (h : pool.map Entity.label = pool'.map Entity.label) :
    (r.modelsIn pool).signature = (r.modelsIn pool').signature := by
  rw [Models.signature, Models.signature, Registry.modelsIn, Registry.modelsIn,
    entitiesOf_map, entitiesOf_map, Entity.names_of_labels h]

theorem instanceClass?_modelsIn_congr (h : pool.map Entity.linkView = pool'.map Entity.linkView)
    (name : String) :
    (r.modelsIn pool).instanceClass? name = (r.modelsIn pool').instanceClass? name := by
  have hclass : pool.map (fun e => e.declarations.instanceClass) =
      pool'.map fun e => e.declarations.instanceClass := by
    have := congrArg (List.map Prod.snd) h
    rwa [List.map_map, List.map_map] at this
  rw [Models.instanceClass?, Models.instanceClass?, ← Assoc.get?_map, ← Assoc.get?_map,
    Registry.modelsIn, Registry.modelsIn, entitiesOf_map (fun e => e.declarations.instanceClass),
    entitiesOf_map (fun e => e.declarations.instanceClass), hclass]

end Views

/-- The first round does one fixed thing to every entity: names and kinds stay as they are. -/
theorem forEach_prepareAt (r : Registry) (places : List Nat) (pool : Pool) :
    Act.forEach (prepareAt r) places pool =
      atPlaces (Entity.prepare (r.modelsIn pool)) places pool := by
  refine Act.forEach_congr (fun p => p.map Entity.label = pool.map Entity.label) ?_ ?_ places
    pool rfl
  · intro i p hp
    show (atPlace i (Entity.resolve (r.modelsIn p)) >>= fun _ =>
      atPlace i Entity.declareStandalone) p = _
    rw [atPlace_bind, Entity.resolve_congr (signature_modelsIn_congr r hp)]
    rfl
  · intro i p hp
    exact (keeps_atPlace (Entity.keeps_label_prepare _) i p).trans hp

/-- The second round does one fixed thing to every entity: instance classes stay as they are. -/
theorem forEach_linkAt (r : Registry) (places : List Nat) (pool : Pool) :
    Act.forEach (linkAt r) places pool =
      atPlaces (Entity.declareLinked (r.modelsIn pool)) places pool := by
  refine Act.forEach_congr (fun p => p.map Entity.linkView = pool.map Entity.linkView) ?_ ?_ places
    pool rfl
  · intro i p hp
    have hlink : Entity.declareLinked (r.modelsIn p) = Entity.declareLinked (r.modelsIn pool) :=
      funext fun e => Entity.declareLinked_congr fun name _ => instanceClass?_modelsIn_congr r hp name
    show atPlace i (Entity.declareLinked (r.modelsIn p)) p = _
    rw [hlink]
  · intro i p hp
    exact (keeps_atPlace (Entity.keeps_linkView_declareLinked _) i p).trans hp

/-- The pool behind the first round. -/
def prepared (r : Registry) (pool : Pool) : Pool :=
  pool.map fun e => (Entity.prepare (r.modelsIn pool) e).state

/-- The model that is known under a name, behind the first round. -/
theorem get?_modelsIn_prepared (r : Registry) (pool : Pool) (name : String) :
    Assoc.get? name (r.modelsIn (prepared r pool)) =
      (Assoc.get? name (r.modelsIn pool)).map fun e =>
        (Entity.prepare (r.modelsIn pool) e).state := by
  have hmodels : r.modelsIn (prepared r pool) = (r.modelsIn pool).map fun m =>
      (m.1, (Entity.prepare (r.modelsIn pool) m.2).state) :=
    (entitiesOf_map (fun e => (Entity.prepare (r.modelsIn pool) e).state) pool r.models).symm
  rw [hmodels]
  exact Assoc.get?_map (fun e => (Entity.prepare (r.modelsIn pool) e).state) name (r.modelsIn pool)

/-- What the two rounds make of an entity. -/
def outcome (r : Registry) (pool : Pool) (e : Entity) : Outcome Entity Unit :=
  Entity.declareLinked (r.modelsIn (prepared r pool)) (Entity.prepare (r.modelsIn pool) e).state

theorem labels_prepared (r : Registry) (pool : Pool) :
    (prepared r pool).map Entity.label = pool.map Entity.label := by
  rw [prepared, List.map_map]
  exact List.map_congr_left fun e _ => Entity.keeps_label_prepare _ e

section Builds

variable {pool : Pool} {r : Registry} (hr : Registry.ofPool pool = .ok r)

include hr

/-- The first round on all entities of the registry's pool. -/
theorem prepareRound_ok (h : (Act.forEach (prepareAt r) r.places pool).result = .ok ()) :
    (∀ e ∈ pool, (Entity.prepare (r.modelsIn pool) e).result = .ok ()) ∧
      (Act.forEach (prepareAt r) r.places pool).state = prepared r pool := by
  obtain ⟨hnodup, hall⟩ := Registry.places_of_ofPool hr
  rw [forEach_prepareAt] at h ⊢
  exact atPlaces_all hnodup hall h

/-- Both rounds on all entities of the registry's pool. -/
theorem rounds_ok (h : (build r pool).result = .ok ()) :
    (∀ e ∈ pool, (Entity.prepare (r.modelsIn pool) e).result = .ok ()) ∧
      (∀ e ∈ pool, (outcome r pool e).result = .ok ()) ∧
      (build r pool).state = pool.map fun e => (outcome r pool e).state := by
  obtain ⟨hnodup, hall⟩ := Registry.places_of_ofPool hr
  obtain ⟨u, hu, h, hstate⟩ := Act.bind_result_ok h
  obtain ⟨hok, hst⟩ := prepareRound_ok hr hu
  rw [hst, forEach_linkAt] at h hstate
  have hlength : ∀ i, i ∈ r.places ↔ i < (prepared r pool).length := by
    intro i
    rw [hall i, prepared, List.length_map]
  obtain ⟨hlink, hlinked⟩ := atPlaces_all hnodup hlength h
  refine ⟨hok, fun e he => hlink _ (List.mem_map_of_mem he), hstate.trans (hlinked.trans ?_)⟩
  rw [prepared, List.map_map]
  rfl

/-- **What a build leaves** when it succeeds: every entity prepared, then linked against the
prepared models. -/
theorem build_ok (h : (build r pool).result = .ok ()) :
    (∀ e ∈ pool, (Entity.prepare (r.modelsIn pool) e).result = .ok ()) ∧
      (build r pool).state = (prepared r pool).map fun e =>
        (Entity.declareLinked (r.modelsIn (prepared r pool)) e).state := by
  obtain ⟨hok, _, hstate⟩ := rounds_ok hr h
  refine ⟨hok, hstate.trans ?_⟩
  rw [prepared, List.map_map]
  rfl

/-- An error of a build comes from preparing an entity, or from linking one when all are
prepared. -/
theorem build_error {err : Error} (h : (build r pool).result = .error err) :
    (∃ e ∈ pool, (Entity.prepare (r.modelsIn pool) e).result = .error err) ∨
      (∀ e ∈ pool, (Entity.prepare (r.modelsIn pool) e).result = .ok ()) ∧
        ∃ e ∈ prepared r pool,
          (Entity.declareLinked (r.modelsIn (prepared r pool)) e).result = .error err := by
  obtain ⟨hnodup, _⟩ := Registry.places_of_ofPool hr
  rcases Act.bind_result_error h with ⟨herr, _⟩ | ⟨u, hu, herr, _⟩
  · rw [forEach_prepareAt] at herr
    obtain ⟨i, _, e, he, herr⟩ := atPlaces_error hnodup herr
    exact Or.inl ⟨e, List.mem_of_getElem? he, herr⟩
  · obtain ⟨hok, hst⟩ := prepareRound_ok hr hu
    rw [hst, forEach_linkAt] at herr
    obtain ⟨i, _, e, he, herr⟩ := atPlaces_error hnodup herr
    exact Or.inr ⟨hok, e, List.mem_of_getElem? he, herr⟩

/-- **When a build succeeds**: every entity can be prepared, and then linked. -/
theorem build_ok_iff :
    (build r pool).result = .ok () ↔
      ∀ e ∈ pool, (Entity.prepare (r.modelsIn pool) e).result = .ok () ∧
        (outcome r pool e).result = .ok () := by
  constructor
  · intro h e he
    obtain ⟨hprepare, hlink, _⟩ := rounds_ok hr h
    exact ⟨hprepare e he, hlink e he⟩
  · intro h
    cases hbuild : (build r pool).result with
    | ok u => rfl
    | error err =>
      rcases build_error hr hbuild with ⟨e, he, herr⟩ | ⟨_, e, he, herr⟩
      · rw [(h e he).1] at herr
        cases herr
      · obtain ⟨e, hmem, rfl⟩ := List.mem_map.mp he
        rw [← outcome, (h e hmem).2] at herr
        cases herr

/-- A notice of a build comes from preparing an entity, or from linking one when all are
prepared. -/
theorem build_notices {n : Notice} (h : n ∈ (build r pool).notices) :
    (∃ e ∈ pool, n ∈ (Entity.prepare (r.modelsIn pool) e).notices) ∨
      (∀ e ∈ pool, (Entity.prepare (r.modelsIn pool) e).result = .ok ()) ∧
        ∃ e ∈ prepared r pool,
          n ∈ (Entity.declareLinked (r.modelsIn (prepared r pool)) e).notices := by
  obtain ⟨hnodup, _⟩ := Registry.places_of_ofPool hr
  rcases Act.bind_notices h with hn | ⟨u, hu, hn⟩
  · rw [forEach_prepareAt] at hn
    obtain ⟨i, _, e, he, hn⟩ := atPlaces_notices hnodup hn
    exact Or.inl ⟨e, List.mem_of_getElem? he, hn⟩
  · obtain ⟨hok, hst⟩ := prepareRound_ok hr hu
    rw [hst, forEach_linkAt] at hn
    obtain ⟨i, _, e, he, hn⟩ := atPlaces_notices hnodup hn
    exact Or.inr ⟨hok, e, List.mem_of_getElem? he, hn⟩

end Builds

end Pool

end Rigging
