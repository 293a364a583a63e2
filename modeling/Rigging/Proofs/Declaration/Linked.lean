import Rigging.Proofs.Declaration.Collected
import Rigging.Proofs.Declaration.Member

/-!
# Linking is closed

When a build of freshly read entities succeeds, no entity is left with a dangling type: every
instance that its members mention is an imported model, its file holds the instance class of
every import but its own, each once and in order, and linking had nothing to complain about.  All of
this is one invariant, `Entity.LinkClosed`, which `Pool.build_linkClosed` proves of every entity.
-/

namespace Rigging

namespace Entity

/-- An entity as it is read from a module. -/
structure Fresh (e : Entity) : Prop where
  no_imports : e.imports = []
  no_declarations : e.declarations = .none

/-- An entity that is declared standing alone: it imports what it mentions, each model once, and its
classes are written from what it is. -/
structure StandsAlone (e : Entity) : Prop where
  mentioned : ∀ m, e.Mentions m → m ∈ e.imports
  nodup : e.imports.Nodup
  instance_class : e.isModel = true →
    (Declaration.instanceClass e).map some = .ok e.declarations.instanceClass
  no_instance_class : e.isModel = false → e.declarations.instanceClass = none
  static_class : e.declarations.staticClass = some (Declaration.ownClass e)

/-- The classes are the instance classes of an entity's imports but itself, in order. -/
def Links (models : Models) (e : Entity) (classes : List String) : Prop :=
  (e.imports.filter fun m => m ≠ e.name).map models.instanceClass? =
    classes.map fun c => some (some c)

/-- An entity that is linked: its imports are known, and its text is made of the instance classes
that it links to and of its own classes. -/
structure LinkClosed (models : Models) (e : Entity) : Prop extends StandsAlone e where
  known : ∀ m ∈ e.imports, m ∈ Assoc.keys models
  linked : ∃ classes, e.Links models classes ∧
    e.declarations.linked = some (fileText
      (sections e.isModel classes e.declarations.instanceClass (Declaration.ownClass e)))

/-! ### Standing alone -/

theorem prepare_ok {models : Models} {e : Entity} (h : (prepare models e).result = .ok ()) :
    (resolve models e).result = .ok () ∧ ∃ text, (resolve models e).state.instances = .ok text ∧
      (prepare models e).state = (resolve models e).state.standing text := by
  obtain ⟨_, hresolve, hdeclare, hstate⟩ := Act.bind_result_ok h
  obtain ⟨text, htext, heq⟩ := declareStandalone_ok hdeclare
  rw [heq] at hstate
  exact ⟨hresolve, text, htext, hstate⟩

/-- Resolving an entity that is fresh and declaring it makes it stand alone. -/
theorem standsAlone_prepare {models : Models} {e : Entity} (fresh : e.Fresh)
    (h : (prepare models e).result = .ok ()) : (prepare models e).state.StandsAlone := by
  obtain ⟨hresolve, text, htext, hstate⟩ := prepare_ok h
  have hmentions : ∀ m, (resolve models e).state.Mentions m → m ∈ (resolve models e).state.imports :=
    fun _ hm => mentions_resolved hresolve hm
  have hframe := keeps_resolve models e
  obtain ⟨as', ts, hall, hres⟩ := resolve_ok hresolve
  have hnodup : (resolve models e).state.imports.Nodup := by
    rw [hres, fresh.no_imports]
    exact nodup_foldl_addNew List.nodup_nil _
  have hdecl : (resolve models e).state.declarations.instanceClass = none := by
    simp only [frame, Prod.mk.injEq] at hframe
    rw [hframe.2.2.2.2, fresh.no_declarations]
    rfl
  rw [hstate]
  generalize (resolve models e).state = e' at hmentions hnodup hdecl htext
  refine ⟨fun m hm => hmentions m ?_, hnodup, fun hmodel => ?_, fun hservice => ?_, rfl⟩
  · cases hm with
    | ofAttribute mem typed leaf => exact .ofAttribute mem typed leaf
    | ofParameter mem is_param leaf => exact .ofParameter mem is_param leaf
    | ofResult mem leaf => exact .ofResult mem leaf
  · exact Act.map_eq_ok_iff.mpr ((instances_model (e := e') hmodel).mp htext)
  · rw [instances_service (e := e') hservice] at htext
    exact (Except.ok.inj htext).symm.trans hdecl

theorem notes_prepare (models : Models) : Act.Notes Attribute.IsSpellingNotice (prepare models) :=
  Act.notes_bind (notes_resolve models) fun _ => notes_declareStandalone

theorem fails_prepare (models : Models) :
    Act.Fails Error.StopsResolution (prepare models) :=
  Act.fails_bind (fails_resolve models) fun _ e err herr => .inr (fails_declareStandalone e err herr)

/-! ### Linking -/

theorem exists_map_eq_map_some {names : List String} {f : String → Option (Option String)}
    (h : ∀ n ∈ names, ∃ c, f n = some (some c)) :
    ∃ classes : List String, names.map f = classes.map fun c => some (some c) := by
  induction names with
  | nil => exact ⟨[], rfl⟩
  | cons n names ih =>
    obtain ⟨c, hc⟩ := h n List.mem_cons_self
    obtain ⟨cs, hcs⟩ := ih fun m hm => h m (List.mem_cons_of_mem _ hm)
    exact ⟨c :: cs, by rw [List.map_cons, List.map_cons, hc, hcs]⟩

/-- Collecting the classes of imports that all have one. -/
theorem collectInstances_of_links {models : Models} {e : Entity} {classes : List String}
    (hlinks : e.Links models classes) (hnodup : e.imports.Nodup) :
    collectInstances models e = ⟨.ok classes, e, []⟩ := by
  have hclass : ∀ n ∈ e.imports.filter fun m => m ≠ e.name, ∃ c, models.linkedClass? n = some c := by
    intro n hn
    obtain ⟨c, _, hc⟩ := List.mem_map.mp (hlinks ▸ List.mem_map_of_mem hn)
    exact ⟨c, by rw [Models.linkedClass?_eq_join, ← hc]; rfl⟩
  have hknows : ∀ n ∈ e.imports, decide (e.Knows models n) = true := by
    intro n hn
    rw [decide_eq_true_eq]
    by_cases hown : n = e.name
    · exact .inl hown
    · obtain ⟨c, hc⟩ := hclass n (List.mem_filter.mpr ⟨hn, by simpa using hown⟩)
      obtain ⟨target, htarget, _⟩ := Option.bind_eq_some_iff.mp hc
      exact .inr (List.mem_map_of_mem (Assoc.mem_of_get?_eq_some htarget))
  have htargets : e.linkTargets [] e.imports = e.imports.filter fun m => m ≠ e.name := by
    rw [linkTargets_nil, distinct_of_nodup (hnodup.sublist List.filter_sublist)]
    exact List.filter_congr fun n _ => by rw [Bool.eq_iff_iff]; simp
  have hfound : (e.imports.filter fun m => m ≠ e.name).filterMap models.linkedClass? = classes := by
    have hjoin : models.linkedClass? = Option.join ∘ models.instanceClass? :=
      funext models.linkedClass?_eq_join
    rw [hjoin, ← List.filterMap_map, hlinks, List.filterMap_map]
    exact List.filterMap_some
  have hnone : (e.imports.filter fun m => m ≠ e.name).filter
      (fun n => (models.linkedClass? n).isNone) = [] := by
    refine List.filter_eq_nil_iff.mpr fun n hn => ?_
    obtain ⟨c, hc⟩ := hclass n hn
    simp [hc]
  have hcollect := linkedInstances_eq models e e.imports [] (List.forall_mem_nil _) e
  rw [List.takeWhile_eq_self_iff.mpr hknows] at hcollect
  simp only [htargets, hfound, hnone, List.drop_length] at hcollect
  exact hcollect

/-- Linking an entity whose imports all have an instance class. -/
theorem declareLinked_ok {models : Models} {e : Entity} {classes : List String}
    (hlinks : e.Links models classes) (halone : e.StandsAlone) :
    declareLinked models e =
      ⟨.ok (), { e with declarations := { e.declarations with
        linked := some (fileText (sections e.isModel classes e.declarations.instanceClass
          (Declaration.ownClass e))) } }, []⟩ := by
  have hcollect := collectInstances_of_links hlinks halone.nodup
  rw [declareLinked, Act.state_bind]
  simp only [halone.static_class]
  rw [Act.bind_of_ok (by rw [hcollect]), hcollect]
  cases hmodel : e.isModel with
  | true =>
    obtain ⟨text, _, hinstance⟩ := Act.map_eq_ok_iff.mp (halone.instance_class hmodel)
    simp [← hinstance, halone.static_class]
  | false => simp [halone.no_instance_class hmodel, halone.static_class]

/-- Linking such an entity leaves it closed. -/
theorem linkClosed_declareLinked {models : Models} {e : Entity} (halone : e.StandsAlone)
    (hknown : ∀ m ∈ e.imports, ∃ c, models.instanceClass? m = some (some c)) :
    ∃ e', declareLinked models e = ⟨.ok (), e', []⟩ ∧ e'.LinkClosed models := by
  obtain ⟨classes, hlinks⟩ : ∃ classes, e.Links models classes :=
    exists_map_eq_map_some fun n hn => hknown n (List.mem_filter.mp hn).1
  refine ⟨_, declareLinked_ok hlinks halone, ⟨⟨?_, halone.nodup, halone.instance_class,
    halone.no_instance_class, halone.static_class⟩, ?_, classes, hlinks, rfl⟩⟩
  · intro m hm
    refine halone.mentioned m ?_
    cases hm with
    | ofAttribute mem typed leaf => exact .ofAttribute mem typed leaf
    | ofParameter mem is_param leaf => exact .ofParameter mem is_param leaf
    | ofResult mem leaf => exact .ofResult mem leaf
  · intro m hm
    obtain ⟨c, hc⟩ := hknown m hm
    obtain ⟨target, htarget, _⟩ := Option.map_eq_some_iff.mp hc
    exact List.mem_map_of_mem (Assoc.mem_of_get?_eq_some htarget)

end Entity

/-! ### All entities of a pool -/

namespace Pool

section Closure

variable {pool : Pool} {r : Registry} (fresh : ∀ e ∈ pool, e.Fresh)
  (hr : Registry.ofPool pool = .ok r)
  (hprepare : ∀ e ∈ pool, (Entity.prepare (r.modelsIn pool) e).result = .ok ())

include hr hprepare

/-- Every model of the pool has an instance class once all entities are prepared. -/
theorem instanceClass?_prepared {m : Entity} (hm : m ∈ pool) (hmodel : m.isModel = true) :
    ∃ c, (r.modelsIn (prepared r pool)).instanceClass? m.name = some (some c) := by
  have hmem : (Entity.prepare (r.modelsIn pool) m).state ∈ prepared r pool :=
    List.mem_map_of_mem hm
  have hlabel := Entity.keeps_label_prepare (r.modelsIn pool) m
  simp only [Entity.label, Prod.mk.injEq] at hlabel
  have hmodel' : (Entity.prepare (r.modelsIn pool) m).state.isModel = true := by
    rw [Entity.isModel, hlabel.2]
    exact hmodel
  have hget := (Registry.get?_modelsIn hr (labels_prepared r pool)).mpr ⟨hmem, hmodel', hlabel.1⟩
  rw [Models.instanceClass?, hget]
  obtain ⟨_, text, htext, hstate⟩ := Entity.prepare_ok (hprepare m hm)
  rw [hstate] at hmodel' ⊢
  obtain ⟨c, _, hc⟩ := (Entity.instances_model (e := (Entity.resolve (r.modelsIn pool) m).state)
    hmodel').mp htext
  exact ⟨c, congrArg some hc.symm⟩

include fresh

/-- Every import of a prepared entity is a model with an instance class. -/
theorem import_known {e : Entity} (he : e ∈ pool) :
    ∀ n ∈ (Entity.prepare (r.modelsIn pool) e).state.imports,
      ∃ c, (r.modelsIn (prepared r pool)).instanceClass? n = some (some c) := by
  intro n hn
  obtain ⟨hresolve, _, _, hstate⟩ := Entity.prepare_ok (hprepare e he)
  rw [hstate] at hn
  obtain ⟨m, hm, hmodel, rfl⟩ : ∃ m ∈ pool, m.isModel = true ∧ m.name = n := by
    rcases Entity.imports_resolved hresolve hn with hn | hn | ⟨m, hm, hname⟩
    · rw [(fresh e he).no_imports] at hn
      cases hn
    · obtain ⟨m, hm, hname⟩ := List.any_eq_true.mp hn
      obtain ⟨hpool, hmodel, hkey⟩ := (Registry.mem_modelsIn hr rfl).mp hm
      exact ⟨m.2, hpool, hmodel, hkey.trans (beq_iff_eq.mp hname)⟩
    · obtain ⟨hpool, hmodel, _⟩ := (Registry.mem_modelsIn hr rfl).mp hm
      exact ⟨m.2, hpool, hmodel, hname⟩
  exact instanceClass?_prepared hr hprepare hm hmodel

/-- Linking a prepared entity succeeds in silence and leaves it closed. -/
theorem link_prepared {e : Entity} (he : e ∈ prepared r pool) :
    ∃ e', Entity.declareLinked (r.modelsIn (prepared r pool)) e = ⟨.ok (), e', []⟩ ∧
      e'.LinkClosed (r.modelsIn (prepared r pool)) := by
  obtain ⟨e, hmem, rfl⟩ := List.mem_map.mp he
  exact Entity.linkClosed_declareLinked (Entity.standsAlone_prepare (fresh e hmem) (hprepare e hmem))
    (import_known fresh hr hprepare hmem)

end Closure

/-- Being linked depends on the other entities through their instance classes only. -/
theorem linkClosed_congr {pool pool' : Pool} (r : Registry)
    (h : pool.map Entity.linkView = pool'.map Entity.linkView) {e : Entity}
    (he : e.LinkClosed (r.modelsIn pool)) : e.LinkClosed (r.modelsIn pool') := by
  have hclass := instanceClass?_modelsIn_congr r h
  refine ⟨he.toStandsAlone, ?_, ?_⟩
  · have hlabel : pool.map Entity.label = pool'.map Entity.label := by
      have hfst := congrArg (List.map Prod.fst) h
      rwa [List.map_map, List.map_map] at hfst
    rw [← Models.keys_congr (signature_modelsIn_congr r hlabel)]
    exact he.known
  · obtain ⟨classes, hlinks, hlinked⟩ := he.linked
    exact ⟨classes, (List.map_congr_left fun n _ => (hclass n).symm).trans hlinks, hlinked⟩

/-- **Linking is closed.**  A build of fresh entities gives no other notice than about spelling and
fails only where resolution stops, never because linking comes too early.  When it succeeds, every
entity is linked: what it mentions is imported and known, and its text holds the instance classes of
its imports. -/
theorem build_linkClosed {pool : Pool} {r : Registry} (fresh : ∀ e ∈ pool, e.Fresh)
    (hr : Registry.ofPool pool = .ok r) :
    (∀ n ∈ (build r pool).notices, Attribute.IsSpellingNotice n) ∧
      (∀ err, (build r pool).result = .error err → err.StopsResolution) ∧
      ((build r pool).result = .ok () →
        List.Forall₂ (fun e e' => e'.label = e.label ∧
          e'.LinkClosed (r.modelsIn (build r pool).state)) pool (build r pool).state) := by
  refine ⟨?_, ?_, ?_⟩
  · intro n hn
    rcases build_notices hr hn with ⟨e, _, hn⟩ | ⟨hprepare, e, he, hn⟩
    · exact Entity.notes_prepare _ e n hn
    · obtain ⟨e', hlink, _⟩ := link_prepared fresh hr hprepare he
      rw [hlink] at hn
      cases hn
  · intro err herr
    rcases build_error hr herr with ⟨e, _, herr⟩ | ⟨hprepare, e, he, herr⟩
    · exact Entity.fails_prepare _ e err herr
    · obtain ⟨e', hlink, _⟩ := link_prepared fresh hr hprepare he
      rw [hlink] at herr
      cases herr
  · intro hok
    obtain ⟨hprepare, hstate⟩ := build_ok hr hok
    have hview : (prepared r pool).map Entity.linkView = (build r pool).state.map Entity.linkView := by
      rw [hstate, List.map_map]
      exact List.map_congr_left fun e _ => (Entity.keeps_linkView_declareLinked _ e).symm
    have hall : ∀ e ∈ pool, (Entity.declareLinked (r.modelsIn (prepared r pool))
        (Entity.prepare (r.modelsIn pool) e).state).state.label = e.label ∧
        (Entity.declareLinked (r.modelsIn (prepared r pool))
          (Entity.prepare (r.modelsIn pool) e).state).state.LinkClosed
            (r.modelsIn (build r pool).state) := by
      intro e he
      have hmem : (Entity.prepare (r.modelsIn pool) e).state ∈ prepared r pool :=
        List.mem_map_of_mem he
      refine ⟨?_, ?_⟩
      · have hlink := Entity.keeps_linkView_declareLinked (r.modelsIn (prepared r pool))
          (Entity.prepare (r.modelsIn pool) e).state
        exact (congrArg Prod.fst hlink).trans (Entity.keeps_label_prepare _ e)
      · obtain ⟨e', hlink, hclosed⟩ := link_prepared fresh hr hprepare hmem
        rw [hlink]
        exact linkClosed_congr r hview hclosed
    have hmap : (build r pool).state = pool.map fun e =>
        (Entity.declareLinked (r.modelsIn (prepared r pool))
          (Entity.prepare (r.modelsIn pool) e).state).state := by
      rw [hstate]
      exact List.map_map
    generalize (build r pool).state = out at hall hmap
    subst hmap
    rw [List.forall₂_map_right_iff]
    exact List.forall₂_same.mpr hall

/-- Two models and a service whose types name both, and one that nobody knows. -/
theorem build_linkClosed_pets :
    let pool : Pool :=
      [{ Entity.blank "Owner" "Owner.js" .model Entity.rootOwner with
          attributes := [⟨"pet", [("model", .string "pet")], none⟩] },
        Entity.blank "Pet" "Pet.js" .model Entity.rootOwner,
        { Entity.blank "Walks" "Walks.js" .service Entity.rootOwner with
          functions := [⟨"next", ["pet"], true,
            some ⟨"", [], [⟨"pet", ["$PetInstance"], none, false⟩],
              some ⟨["$OwnerInstance[]", "$CatInstance"], none⟩⟩, []⟩] }]
    ∃ r, Registry.ofPool pool = .ok r ∧ (build r pool).result = .ok () ∧
      (build r pool).state.map Entity.imports = [["Pet"], [], ["Pet", "Owner"]] ∧
      List.Forall₂ (fun e e' => e'.label = e.label ∧
        e'.LinkClosed (r.modelsIn (build r pool).state)) pool (build r pool).state := by
  intro pool
  have fresh : ∀ e ∈ pool, e.Fresh := by
    intro e he
    simp only [pool, List.mem_cons, List.not_mem_nil, or_false] at he
    rcases he with rfl | rfl | rfl <;> exact ⟨rfl, rfl⟩
  have hr : Registry.ofPool pool = .ok ⟨[("Owner", 0), ("Pet", 1)], [("Walks", 2)]⟩ := by
    decide
  have hok : (build ⟨[("Owner", 0), ("Pet", 1)], [("Walks", 2)]⟩ pool).result = .ok () := by
    decide
  exact ⟨_, hr, hok, by decide, (build_linkClosed fresh hr).2.2 hok⟩

end Pool

end Rigging
