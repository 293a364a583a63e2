import Rigging.Proofs.Build

/-!
# Where two builds agree

What a build makes of an entity depends on the entity, on the names of the models, and on the models
that the entity imports; nothing else of the pool comes in (`Pool.outcome_congr`).  The first round
uses the other models only to tell which names are known and which model an identity means
(`Models.SameNames`); no two names of a registry are equal but for case, so both are questions about
the set of names and not about its order.  The second round takes over the instance classes of the
imports, and each of these was made in the first round.

So the order of a pool does not matter (`Pool.builds_perm`), and a change of models and services that
an entity does not import is not seen in what becomes of it (`Pool.builds_local`).
-/

namespace Rigging

/-! ### Resolution and the set of names -/

namespace Models

/-- Two collections of models know the same names, and mean models of the same name by an identity. -/
structure SameNames (models models' : Models) : Prop where
  knows : models.knows = models'.knows
  identity : ∀ s, (models.withIdentity? s).map Entity.name = (models'.withIdentity? s).map Entity.name

end Models

section Resolution

variable {models models' : Models} (h : models.SameNames models')

include h

namespace Attribute

/-- The same model is found under both, or none; the errors list the names in their own order. -/
theorem toOption_target (e : Entity) (a : Attribute) (key : String) (identity : Scalar) :
    ((target models e a key identity).map Entity.name).toOption =
      ((target models' e a key identity).map Entity.name).toOption := by
  cases identity with
  | string s =>
    have hfound := h.identity s
    simp only [target]
    cases hm : models.withIdentity? s <;> cases hm' : models'.withIdentity? s
    · rfl
    · rw [hm, hm'] at hfound; cases hfound
    · rw [hm, hm'] at hfound; cases hfound
    · rw [hm, hm'] at hfound
      exact hfound
  | _ => simp only [target, Except.map, Except.toOption]

theorem alike_resolveAssociation (a : Attribute) (key : String) :
    Act.Alike (resolveAssociation models a key) (resolveAssociation models' a key) := by
  cases hgiven : a.properties.given? key with
  | none =>
    rw [resolveAssociation_none hgiven, resolveAssociation_none hgiven]
    exact Act.alike_refl _
  | some identity =>
    rw [resolveAssociation_named hgiven, resolveAssociation_named hgiven]
    refine Act.alike_bind (Act.alike_refl _) fun e => ?_
    refine Act.alike_bind (Act.alike_ofExcept (toOption_target h e a key identity)) fun name => ?_
    exact Act.alike_refl _

theorem alike_resolve (a : Attribute) : Act.Alike (a.resolve models) (a.resolve models') := by
  refine Act.alike_bind (Act.alike_refl _) fun e => ?_
  dsimp only
  split
  · exact Act.alike_refl _
  · split
    · exact Act.alike_refl _
    · split
      · exact Act.alike_refl _
      · exact Act.alike_bind (alike_resolveAssociation h _ _) fun b =>
          alike_resolveAssociation h b _

end Attribute

namespace Entity

theorem alike_resolveAttributes (as : List Attribute) :
    ∀ i, Act.Alike (resolveAttributes models i as) (resolveAttributes models' i as) := by
  induction as with
  | nil => exact fun _ => Act.alike_refl _
  | cons a as ih =>
    intro i
    refine Act.alike_bind (Attribute.alike_resolve h a) fun a' => ?_
    exact Act.alike_bind (Act.alike_refl _) fun _ => ih (i + 1)

/-- **Resolution sees the set of names, not its order.** -/
theorem alike_resolve : Act.Alike (resolve models) (resolve models') := by
  have hfunctions : resolveFunctions models = resolveFunctions models' := by
    funext e
    simp only [resolveFunctions, h.knows]
  rw [resolve, resolve, hfunctions]
  refine Act.alike_bind (Act.alike_refl _) fun _ => ?_
  exact Act.alike_bind (Act.alike_refl _) fun e => alike_resolveAttributes h e.attributes 0

theorem alike_prepare : Act.Alike (prepare models) (prepare models') :=
  Act.alike_bind (alike_resolve h) fun _ => Act.alike_refl _

end Entity

end Resolution

namespace Pool

/-! ### Two pools -/

section Two

variable {pool pool' : Pool} {r r' : Registry}

/-- Pools with the same names of models mean the same by all names and identities. -/
theorem sameNames_modelsIn (hr : Registry.ofPool pool = .ok r) (hr' : Registry.ofPool pool' = .ok r')
    (hnames : ∀ name, name ∈ pool.modelNames ↔ name ∈ pool'.modelNames) :
    (r.modelsIn pool).SameNames (r'.modelsIn pool') := by
  refine ⟨funext fun name => ?_, fun s => Option.ext fun name => ?_⟩
  · rw [Bool.eq_iff_iff, Registry.knows_modelsIn hr, Registry.knows_modelsIn hr', hnames]
  · rw [Registry.withIdentity?_modelsIn hr, Registry.withIdentity?_modelsIn hr', hnames]

/-- **What becomes of an entity** is the same in two pools with the same names of models and the same
models under the names that it imports. -/
theorem outcome_congr (hsame : (r.modelsIn pool).SameNames (r'.modelsIn pool')) {e : Entity}
    (himports : ∀ name ∈ (Entity.prepare (r.modelsIn pool) e).state.imports,
      Assoc.get? name (r.modelsIn pool) = Assoc.get? name (r'.modelsIn pool')) :
    outcome r pool e = outcome r' pool' e := by
  have hprepare : ∀ m, (Entity.prepare (r.modelsIn pool) m).state =
      (Entity.prepare (r'.modelsIn pool') m).state := fun m => (Entity.alike_prepare hsame m).2
  rw [outcome, outcome, ← hprepare]
  refine Entity.declareLinked_congr fun name hname => ?_
  -- an import stands for the same model in both, and the first round has made the same of it
  rw [Models.instanceClass?, Models.instanceClass?, get?_modelsIn_prepared, get?_modelsIn_prepared,
    himports name hname]
  simp only [hprepare]

end Two

/-- A pool has a registry, and a build of it succeeds and leaves another pool. -/
structure Builds (pool : Pool) (r : Registry) (out : Pool) : Prop where
  registry : Registry.ofPool pool = .ok r
  succeeds : (build r pool).result = .ok ()
  leaves : (build r pool).state = out

theorem Builds.zip_eq {pool out : Pool} {r : Registry} (h : Builds pool r out) :
    pool.zip out = pool.map fun e => (e, (outcome r pool e).state) := by
  obtain ⟨_, _, hstate⟩ := rounds_ok h.registry h.succeeds
  have hzip : (pool.map id).zip (pool.map fun e => (outcome r pool e).state) =
      pool.map fun e => (e, (outcome r pool e).state) := List.zip_map'
  rw [List.map_id] at hzip
  rw [← h.leaves, hstate, hzip]

theorem Builds.mem_zip {pool out : Pool} {r : Registry} (h : Builds pool r out) {e done : Entity} :
    (e, done) ∈ pool.zip out ↔ e ∈ pool ∧ done = (outcome r pool e).state := by
  rw [h.zip_eq, List.mem_map]
  constructor
  · rintro ⟨e', he', heq⟩
    obtain ⟨rfl, rfl⟩ := Prod.mk.inj heq
    exact ⟨he', rfl⟩
  · rintro ⟨he, rfl⟩
    exact ⟨e, he, rfl⟩

/-! ### The order of a pool -/

section Order

variable {pool pool' : Pool} (hperm : pool.Perm pool') {r r' : Registry}

include hperm

theorem modelNames_perm (name : String) : name ∈ pool.modelNames ↔ name ∈ pool'.modelNames :=
  ((hperm.filter Entity.isModel).map Entity.name).mem_iff

theorem exists_ofPool_perm (h : ∃ r, Registry.ofPool pool = .ok r) :
    ∃ r', Registry.ofPool pool' = .ok r' := by
  rw [Registry.exists_ofPool_iff] at h ⊢
  exact (hperm.map _).nodup_iff.mp h

theorem outcome_perm (hr : Registry.ofPool pool = .ok r) (hr' : Registry.ofPool pool' = .ok r')
    (e : Entity) : outcome r pool e = outcome r' pool' e := by
  refine outcome_congr (sameNames_modelsIn hr hr' (modelNames_perm hperm)) fun name _ => ?_
  refine Option.ext fun m => ?_
  rw [Registry.get?_modelsIn hr rfl, Registry.get?_modelsIn hr' rfl, hperm.mem_iff]

theorem exists_builds_perm (h : ∃ r out, Builds pool r out) : ∃ r out, Builds pool' r out := by
  obtain ⟨r, out, hr, hok, _⟩ := h
  obtain ⟨r', hr'⟩ := exists_ofPool_perm hperm ⟨r, hr⟩
  have hsame := sameNames_modelsIn hr hr' (modelNames_perm hperm)
  refine ⟨r', _, hr', ?_, rfl⟩
  rw [build_ok_iff hr] at hok
  rw [build_ok_iff hr']
  intro e he
  obtain ⟨hprepare, hlink⟩ := hok e (hperm.mem_iff.mpr he)
  refine ⟨(Entity.alike_prepare hsame).result_ok_iff.mp hprepare, ?_⟩
  rw [← outcome_perm hperm hr hr' e]
  exact hlink

end Order

/-- **The order of a pool does not matter.**  A build succeeds on one order exactly when it succeeds on
the other, and then it makes the same of every entity. -/
theorem builds_perm {pool pool' : Pool} (hperm : pool.Perm pool') :
    ((∃ r out, Builds pool r out) ↔ ∃ r out, Builds pool' r out) ∧
      ∀ r out r' out', Builds pool r out → Builds pool' r' out' →
        (pool.zip out).Perm (pool'.zip out') := by
  refine ⟨⟨exists_builds_perm hperm, exists_builds_perm hperm.symm⟩, ?_⟩
  intro r out r' out' h h'
  rw [h.zip_eq, h'.zip_eq]
  simp only [outcome_perm hperm h.registry h'.registry]
  exact hperm.map _

/-- Two models that name each other, one of them with a capital, and a service, in both directions. -/
theorem builds_perm_reverse :
    let pool : Pool :=
      [{ Entity.blank "Owner" "Owner.js" .model Entity.rootOwner with
          attributes := [⟨"pets", [("collection", .string "PET")], none⟩] },
        { Entity.blank "Pet" "Pet.js" .model Entity.rootOwner with
          attributes := [⟨"owner", [("model", .string "owner")], none⟩] },
        { Entity.blank "Walks" "Walks.js" .service Entity.rootOwner with
          functions := [⟨"next", ["pet"], true,
            some ⟨"", [], [⟨"pet", ["$PetInstance"], none, false⟩], none⟩, []⟩] }]
    pool.Perm pool.reverse ∧ ∃ r out r' out', Builds pool r out ∧ Builds pool.reverse r' out' ∧
      (pool.zip out).Perm (pool.reverse.zip out') := by
  intro pool
  have hperm : pool.Perm pool.reverse := (List.reverse_perm pool).symm
  have h : ∃ r out, Builds pool r out :=
    ⟨⟨[("Owner", 0), ("Pet", 1)], [("Walks", 2)]⟩, _, by decide, by decide, rfl⟩
  obtain ⟨hiff, hsame⟩ := builds_perm hperm
  obtain ⟨r', out', h'⟩ := hiff.mp h
  obtain ⟨r, out, h⟩ := h
  exact ⟨hperm, r, out, r', out', h, h', hsame r out r' out' h h'⟩

/-! ### What an entity does not import -/

/-- **Only the imports of an entity matter to it.**  Two pools with the same names of models may differ
in all else: an entity of both comes out the same if the models that it imports are the same. -/
theorem builds_local {pool pool' out out' : Pool} {r r' : Registry} (h : Builds pool r out)
    (h' : Builds pool' r' out')
    (hnames : ∀ name, name ∈ pool.modelNames ↔ name ∈ pool'.modelNames) {e done done' : Entity}
    (hdone : (e, done) ∈ pool.zip out) (hdone' : (e, done') ∈ pool'.zip out')
    (himports : ∀ m ∈ pool, m.isModel = true → m.name ∈ done.imports → m ∈ pool') :
    done = done' := by
  have hr := h.registry
  have hr' := h'.registry
  obtain ⟨_, rfl⟩ := h.mem_zip.mp hdone
  obtain ⟨_, rfl⟩ := h'.mem_zip.mp hdone'
  rw [outcome_congr (sameNames_modelsIn hr hr' hnames) fun name hname => ?_]
  rw [outcome, Entity.imports_declareLinked] at himports
  refine Option.ext fun m => ?_
  rw [Registry.get?_modelsIn hr rfl, Registry.get?_modelsIn hr' rfl]
  constructor
  · rintro ⟨hm, hmodel, rfl⟩
    exact ⟨himports m hm hmodel hname, hmodel, rfl⟩
  · rintro ⟨hm, hmodel, rfl⟩
    -- the model of this name in the first pool is in the second as well, where there is only one
    obtain ⟨m', hm', hmodel', hname'⟩ :=
      mem_modelNames.mp ((hnames m.name).mpr (mem_modelNames.mpr ⟨m, hm, hmodel, rfl⟩))
    have hsame : m' = m := List.inj_on_of_nodup_map (Registry.names_nodup hr' rfl)
      (himports m' hm' hmodel' (hname'.symm ▸ hname)) hm hname'
    exact ⟨hsame ▸ hm', hmodel, rfl⟩

/-- An owner of pets in two pools.  They differ in the order, in a model that the pet refers to, and in
a service; the owner imports the pet alone. -/
theorem builds_local_owner :
    let owner : Entity := { Entity.blank "Owner" "Owner.js" .model Entity.rootOwner with
      attributes := [⟨"pets", [("collection", .string "pet")], none⟩] }
    let pet : Entity := { Entity.blank "Pet" "Pet.js" .model Entity.rootOwner with
      attributes := [⟨"vet", [("model", .string "vet")], none⟩] }
    let vet : Entity := Entity.blank "Vet" "Vet.js" .model Entity.rootOwner
    let otherVet : Entity := { Entity.blank "Vet" "Vets.js" .model "clinic" with
      attributes := [⟨"pets", [("collection", .string "pet")], none⟩] }
    let walks : Entity := Entity.blank "Walks" "Walks.js" .service Entity.rootOwner
    ∃ r out r' out' done, Builds [owner, pet, vet, walks] r out ∧
      Builds [otherVet, pet, owner] r' out' ∧ done.imports = ["Pet"] ∧
      (owner, done) ∈ [owner, pet, vet, walks].zip out ∧ (owner, done) ∈ [otherVet, pet, owner].zip out' := by
  intro owner pet vet otherVet walks
  have h : Builds [owner, pet, vet, walks]
      ⟨[("Owner", 0), ("Pet", 1), ("Vet", 2)], [("Walks", 3)]⟩ _ :=
    ⟨by decide, by decide, rfl⟩
  have h' : Builds [otherVet, pet, owner] ⟨[("Vet", 0), ("Pet", 1), ("Owner", 2)], []⟩ _ :=
    ⟨by decide, by decide, rfl⟩
  have hdone := h.mem_zip.mpr ⟨show owner ∈ [owner, pet, vet, walks] by decide, rfl⟩
  have hdone' := h'.mem_zip.mpr ⟨show owner ∈ [otherVet, pet, owner] by decide, rfl⟩
  have hnames : ∀ name, name ∈ modelNames [owner, pet, vet, walks] ↔
      name ∈ modelNames [otherVet, pet, owner] := by
    intro name
    have hfirst : modelNames [owner, pet, vet, walks] = ["Owner", "Pet", "Vet"] := by decide
    have hsecond : modelNames [otherVet, pet, owner] = ["Vet", "Pet", "Owner"] := by decide
    rw [hfirst, hsecond]
    exact (List.reverse_perm ["Owner", "Pet", "Vet"]).mem_iff.symm
  have hsame := builds_local h h' hnames hdone hdone' (by decide)
  refine ⟨_, _, _, _, _, h, h', by decide, hdone, ?_⟩
  rw [hsame]
  exact hdone'

end Pool

end Rigging
