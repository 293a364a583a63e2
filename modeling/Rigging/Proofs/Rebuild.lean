import Rigging.Proofs.Agreement
import Rigging.Proofs.Declaration.Linked
import Rigging.Proofs.TypeExpr.Known

/-!
# Building again

A build rewrites what it reads: types are normalised where they stand, and an association is left
with the name of its model in place of the identity it was written with.  The second build reads the
first one's output, so that output has to be a fixed point of every step.  For resolution this is
`Entity.Settled`: every function is already resolved, every attribute resolves to itself, and all
that either mentions is imported.  For the declarations it is what `Entity.LinkClosed` says: the
classes are those that the entity would get again.  `Pool.builds_again` puts the two together.
-/

namespace Rigging

/-! ### Resolving again -/

namespace Text

theorem lower_eq_empty {s : String} (h : lower s = "") : s = "" := by
  have hlist : lowerFrom [] s.toList = [] := by
    rw [← String.toList_ofList (l := lowerFrom [] s.toList), ← lower, h]
    rfl
  cases hs : s.toList with
  | nil => exact String.toList_eq_nil_iff.mp hs
  | cons c cs =>
    -- every character has a lower-case form of one character or two
    rw [hs, lowerFrom] at hlist
    split at hlist
    · cases hlist
    · split at hlist <;> cases hlist

end Text

namespace Attribute

variable {models : Models} {a a' : Attribute} {ts : List String}

theorem naming_naming (a : Attribute) (key name : String) :
    (a.naming key name).naming key name = a.naming key name := by
  simp only [naming, Assoc.put_put]

theorem ne_empty_of_given? {ps : Properties} {key s : String}
    (h : ps.given? key = some (.string s)) : s ≠ "" :=
  bne_iff_ne.mp (Option.filter_eq_some_iff.mp h).2

/-- What an attribute has been resolved to resolves to itself, and imports the same. -/
theorem Resolves.again (keyed : models.Keyed) (h : Resolves models a a' ts) :
    Resolves models a' a' ts := by
  cases h with
  | typed given valid only => exact .typed given valid only
  | through none_given goes => exact .through none_given goes
  | @association key identity model is_key given only found =>
    -- the identity counts as given, and a name that equals it but for case is no more empty than it
    have hname : model.name ≠ "" := by
      intro hempty
      have hlower : Text.lower identity = "" := by
        rw [← keyed.lower_name found, hempty]
        rfl
      exact ne_empty_of_given? given (Text.lower_eq_empty hlower)
    have hagain : Resolves models (a.naming key model.name)
        ((a.naming key model.name).naming key model.name) [model.name] := by
      refine .association is_key ?_ (given?_naming_other only _) (keyed.withIdentity?_name found)
      rw [given?_naming_self, if_neg hname]
    rwa [naming_naming] at hagain

theorem ResolvesAll.again (keyed : models.Keyed) {as as' : List Attribute}
    (h : ResolvesAll models as as' ts) : ResolvesAll models as' as' ts := by
  induction h with
  | nil => exact .nil
  | cons head _ ih => exact .cons (head.again keyed) ih

end Attribute

namespace Function

theorem normalizedDoc_normalizedDoc (known : String → Bool) (doc : Doc) :
    normalizedDoc known (normalizedDoc known doc) = normalizedDoc known doc := by
  have hagain := TypeExpr.normalizeAll_normalizeAll (fun m (hm : known m = true) => hm)
  simp only [normalizedDoc, List.map_map, Option.map_map, Function.comp_def, hagain]

theorem resolved_resolved (known : String → Bool) (f : Function) :
    (f.resolved known).resolved known = f.resolved known := by
  have hdoc : (f.doc.map (normalizedDoc known)).map (normalizedDoc known) =
      f.doc.map (normalizedDoc known) := by
    rw [Option.map_map]
    refine Option.map_congr fun doc _ => ?_
    exact normalizedDoc_normalizedDoc known doc
  simp only [resolved, hdoc]

end Function

theorem foldl_addNew_of_subset {ns names : List String} (h : ∀ n ∈ ns, n ∈ names) :
    ns.foldl addNew names = names := by
  induction ns with
  | nil => rfl
  | cons n ns ih =>
    rw [List.foldl_cons, addNew, if_pos (h n List.mem_cons_self)]
    exact ih fun m hm => h m (List.mem_cons_of_mem _ hm)

namespace Entity

variable {models : Models} {e e' : Entity}

/-- What resolution works on. -/
def body (e : Entity) : List Function × List Attribute × List String :=
  (e.functions, e.attributes, e.imports)

/-- An entity that resolution leaves as it is. -/
structure Settled (models : Models) (e : Entity) : Prop where
  functions : ∀ f ∈ e.functions, f.resolved models.knows = f
  mentioned : ∀ f ∈ e.functions, ∀ m ∈ f.mentionedModels, m ∈ e.imports
  attributes : ∃ ts, Attribute.ResolvesAll models e.attributes e.attributes ts ∧
    ∀ t ∈ ts, t ∈ e.imports

theorem settled_congr (h : e.body = e'.body) (hs : e.Settled models) : e'.Settled models := by
  obtain ⟨hfunctions, hattributes, himports⟩ :
      e.functions = e'.functions ∧ e.attributes = e'.attributes ∧ e.imports = e'.imports := by
    simpa only [body, Prod.mk.injEq] using h
  obtain ⟨hresolved, hmentioned, ts, hall, hts⟩ := hs
  rw [hfunctions] at hresolved hmentioned
  rw [hattributes] at hall
  rw [himports] at hmentioned hts
  exact ⟨hresolved, hmentioned, ts, hall, hts⟩

/-- Resolution leaves an entity settled. -/
theorem settled_resolve (keyed : models.Keyed) (h : (resolve models e).result = .ok ()) :
    (resolve models e).state.Settled models := by
  obtain ⟨as', ts, hall, hstate⟩ := resolve_ok h
  rw [hstate]
  refine ⟨?_, ?_, ts, hall.again keyed, ?_⟩
  · intro f hf
    obtain ⟨g, _, rfl⟩ := List.mem_map.mp hf
    exact Function.resolved_resolved _ g
  · intro f hf m hm
    refine mem_foldl_addNew.mpr (Or.inr (List.mem_append_left _ ?_))
    exact List.mem_flatMap.mpr ⟨f, hf, hm⟩
  · intro t ht
    exact mem_foldl_addNew.mpr (Or.inr (List.mem_append_right _ ht))

/-- **Resolution leaves a settled entity as it is.** -/
theorem Settled.resolve_eq (h : e.Settled models) :
    ∃ notices, resolve models e = ⟨.ok (), e, notices⟩ := by
  obtain ⟨hresolved, hmentioned, ts, hall, hts⟩ := h
  obtain ⟨notices, hresolve⟩ := Entity.resolve_eq hall
  have hfunctions : e.functions.map (Function.resolved models.knows) = e.functions :=
    (List.map_congr_left hresolved).trans (List.map_id _)
  have himports : (e.functions.flatMap Function.mentionedModels ++ ts).foldl addNew e.imports =
      e.imports := by
    refine foldl_addNew_of_subset fun n hn => ?_
    rcases List.mem_append.mp hn with hn | hn
    · obtain ⟨f, hf, hn⟩ := List.mem_flatMap.mp hn
      exact hmentioned f hf n hn
    · exact hts n hn
  rw [hfunctions, himports] at hresolve
  exact ⟨notices, hresolve⟩

/-! ### Declaring again -/

theorem StandsAlone.declareStandalone_eq (h : e.StandsAlone) :
    declareStandalone e = ⟨.ok (), e, []⟩ := by
  have hinstances : e.instances = .ok e.declarations.instanceClass := by
    cases hmodel : e.isModel with
    | true => rw [instances, if_pos hmodel, h.instance_class hmodel]
    | false => exact instances_service hmodel
  rw [declareStandalone_of_ok hinstances, standing, ← h.static_class]

theorem LinkClosed.declareLinked_eq (h : e.LinkClosed models) :
    declareLinked models e = ⟨.ok (), e, []⟩ := by
  obtain ⟨classes, hlinks, hlinked⟩ := h.linked
  rw [declareLinked_ok hlinks h.toStandsAlone, ← hlinked]

/-- Preparing a settled entity that stands alone leaves it as it is. -/
theorem Settled.prepare_eq (h : e.Settled models) (halone : e.StandsAlone) :
    ∃ notices, prepare models e = ⟨.ok (), e, notices⟩ := by
  obtain ⟨notices, hresolve⟩ := h.resolve_eq
  refine ⟨notices ++ [], ?_⟩
  rw [prepare, Act.bind_of_ok (congrArg Outcome.result hresolve), hresolve]
  dsimp only
  rw [halone.declareStandalone_eq]

end Entity

namespace Pool

/-! ### Rounds that change nothing -/

theorem atPlace_fixed {a : Act Entity Unit} {pool : Pool}
    (h : ∀ e ∈ pool, ∃ notices, a e = ⟨.ok (), e, notices⟩) (i : Nat) :
    ∃ notices, atPlace i a pool = ⟨.ok (), pool, notices⟩ := by
  cases hi : pool[i]? with
  | none => exact ⟨[], atPlace_of_none hi a⟩
  | some e =>
    obtain ⟨notices, ha⟩ := h e (List.mem_of_getElem? hi)
    obtain ⟨hlt, hget⟩ := List.getElem?_eq_some_iff.mp hi
    refine ⟨notices, ?_⟩
    rw [atPlace_of_some hi, ha, ← hget, List.set_getElem_self]

/-- Work that leaves every entity as it is leaves the pool as it is. -/
theorem atPlaces_fixed {a : Act Entity Unit} {pool : Pool}
    (h : ∀ e ∈ pool, ∃ notices, a e = ⟨.ok (), e, notices⟩) (places : List Nat) :
    ∃ notices, atPlaces a places pool = ⟨.ok (), pool, notices⟩ := by
  induction places with
  | nil => exact ⟨[], rfl⟩
  | cons i places ih =>
    obtain ⟨notices, hi⟩ := atPlace_fixed h i
    obtain ⟨more, hrest⟩ := ih
    refine ⟨notices ++ more, ?_⟩
    rw [atPlaces_cons, Act.bind_of_ok (congrArg Outcome.result hi), hi, hrest]

section Again

variable {pool out : Pool} {r : Registry}

theorem Builds.labels_eq (h : Builds pool r out) : out.map Entity.label = pool.map Entity.label := by
  obtain ⟨_, _, hstate⟩ := rounds_ok h.registry h.succeeds
  rw [← h.leaves, hstate, List.map_map]
  refine List.map_congr_left fun e _ => ?_
  have hlink := Entity.keeps_linkView_declareLinked (r.modelsIn (prepared r pool))
    (Entity.prepare (r.modelsIn pool) e).state
  exact (congrArg Prod.fst hlink).trans (Entity.keeps_label_prepare _ e)

/-- What a build leaves of an entity is what resolution leaves of one, but for the declarations. -/
theorem Builds.exists_resolved (h : Builds pool r out) : ∀ d ∈ out, ∃ e ∈ pool,
    (Entity.resolve (r.modelsIn pool) e).result = .ok () ∧
      (Entity.resolve (r.modelsIn pool) e).state.body = d.body := by
  obtain ⟨hprepare, _, hstate⟩ := rounds_ok h.registry h.succeeds
  rw [← h.leaves, hstate]
  intro d hd
  obtain ⟨e, he, rfl⟩ := List.mem_map.mp hd
  obtain ⟨hresolve, _, _, hprepared⟩ := Entity.prepare_ok (hprepare e he)
  refine ⟨e, he, hresolve, ?_⟩
  -- neither step of declaring touches what resolution works on
  have hunlinked : ∀ d : Entity, d.body = d.unlinked.body := fun _ => rfl
  rw [outcome, hunlinked (Entity.declareLinked _ _).state, Entity.keeps_unlinked_declareLinked,
    ← hunlinked, hprepared]
  rfl

/-- A build leaves every entity settled. -/
theorem Builds.settled (h : Builds pool r out) : ∀ d ∈ out, d.Settled (r.modelsIn pool) := by
  intro d hd
  obtain ⟨e, _, hresolve, hbody⟩ := h.exists_resolved d hd
  exact Entity.settled_congr hbody
    (Entity.settled_resolve (Registry.keyed_modelsIn h.registry rfl) hresolve)

/-- A build of fresh entities leaves every entity linked. -/
theorem Builds.linkClosed (h : Builds pool r out) (fresh : ∀ e ∈ pool, e.Fresh) :
    ∀ d ∈ out, d.LinkClosed (r.modelsIn out) := by
  obtain ⟨hprepare, hstate⟩ := build_ok h.registry h.succeeds
  rw [h.leaves] at hstate
  have hview : (prepared r pool).map Entity.linkView = out.map Entity.linkView := by
    rw [hstate, List.map_map]
    exact List.map_congr_left fun e _ => (Entity.keeps_linkView_declareLinked _ e).symm
  intro d hd
  rw [hstate] at hd
  obtain ⟨e, he, rfl⟩ := List.mem_map.mp hd
  obtain ⟨e', hlink, hclosed⟩ := link_prepared fresh h.registry hprepare he
  rw [hlink]
  exact linkClosed_congr r hview hclosed

end Again

/-- **Building again changes nothing.**  What a build of fresh entities leaves can be resolved again,
entity by entity, and built again as a whole, and both leave every entity exactly as it is. -/
theorem builds_again {pool out : Pool} {r : Registry} (fresh : ∀ e ∈ pool, e.Fresh)
    (h : Builds pool r out) :
    (∀ i, ∃ notices, atPlace i (Entity.resolve (r.modelsIn out)) out = ⟨.ok (), out, notices⟩) ∧
      ∃ notices, build r out = ⟨.ok (), out, notices⟩ := by
  -- a build keeps names and kinds, and these are all that resolution sees of the other entities
  have hsame : Entity.resolve (r.modelsIn out) = Entity.resolve (r.modelsIn pool) :=
    Entity.resolve_congr (signature_modelsIn_congr r h.labels_eq)
  have hresolve : ∀ d ∈ out, ∃ notices, Entity.resolve (r.modelsIn out) d = ⟨.ok (), d, notices⟩ := by
    intro d hd
    rw [hsame]
    exact (h.settled d hd).resolve_eq
  have hprepare : ∀ d ∈ out, ∃ notices, Entity.prepare (r.modelsIn out) d = ⟨.ok (), d, notices⟩ := by
    intro d hd
    rw [Entity.prepare, hsame]
    exact (h.settled d hd).prepare_eq (h.linkClosed fresh d hd).toStandsAlone
  have hlink : ∀ d ∈ out, ∃ notices,
      Entity.declareLinked (r.modelsIn out) d = ⟨.ok (), d, notices⟩ :=
    fun d hd => ⟨[], (h.linkClosed fresh d hd).declareLinked_eq⟩
  refine ⟨atPlace_fixed hresolve, ?_⟩
  obtain ⟨notices, hfirst⟩ := atPlaces_fixed hprepare r.places
  obtain ⟨more, hsecond⟩ := atPlaces_fixed hlink r.places
  rw [← forEach_prepareAt] at hfirst
  rw [← forEach_linkAt] at hsecond
  refine ⟨notices ++ more, ?_⟩
  rw [build, Act.bind_of_ok (congrArg Outcome.result hfirst), hfirst, hsecond]

/-- An identity in capitals that the first build spells out, and a promise whose repeated and unknown
members it folds. -/
theorem builds_again_shelter :
    let pool : Pool :=
      [{ Entity.blank "Owner" "Owner.js" .model Entity.rootOwner with
          attributes := [⟨"pets", [("collection", .string "PET")], none⟩] },
        Entity.blank "Pet" "Pet.js" .model Entity.rootOwner,
        { Entity.blank "Shelter" "Shelter.js" .service Entity.rootOwner with
          functions := [⟨"adopt", ["pet"], false,
            some ⟨"", [], [⟨"pet", [" $PetInstance "], none, false⟩],
              some ⟨["Promise<$OwnerInstance| $OwnerInstance |$CatInstance>"], none⟩⟩, []⟩] }]
    ∃ r out, (∀ e ∈ pool, e.Fresh) ∧ Builds pool r out ∧
      out.map Entity.imports = [["Pet"], [], ["Pet", "Owner"]] ∧
      (out.flatMap Entity.attributes).map Attribute.properties = [[("collection", .string "Pet")]] ∧
      (out.flatMap Entity.functions).map (fun f => f.doc.bind Doc.result) =
        [some ⟨["Promise<$OwnerInstance|any>"], none⟩] ∧
      (∀ i, ∃ notices, atPlace i (Entity.resolve (r.modelsIn out)) out = ⟨.ok (), out, notices⟩) ∧
      ∃ notices, build r out = ⟨.ok (), out, notices⟩ := by
  intro pool
  have fresh : ∀ e ∈ pool, e.Fresh := by
    intro e he
    simp only [pool, List.mem_cons, List.not_mem_nil, or_false] at he
    rcases he with rfl | rfl | rfl <;> exact ⟨rfl, rfl⟩
  have h : Builds pool ⟨[("Owner", 0), ("Pet", 1)], [("Shelter", 2)]⟩ _ :=
    ⟨by decide, by decide, rfl⟩
  exact ⟨_, _, fresh, h, by decide, by decide, by decide,
    builds_again fresh h⟩

end Pool

end Rigging
