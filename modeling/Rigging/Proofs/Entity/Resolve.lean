import Rigging.Entity.Resolve
import Rigging.Proofs.Act
import Rigging.Proofs.Assoc

/-!
# What resolution does to an entity

`Attribute.Resolves` says once what resolving an attribute can come to.  Whenever all attributes of an
entity can be resolved, resolving it succeeds (`Entity.resolve_eq`), and it does so in no other case
(`Entity.resolve_ok`): functions are normalised, every attribute is resolved, and the imports grow by
the models that either mentions.  Whether it succeeds or not, the entity keeps its name, kind and
declarations, every error is a structural one or one about a number too long to be shown, and of the
other models only the names matter (`Entity.resolve_congr`).
-/

namespace Rigging

/-! ### Imports -/

/-- A list of names with one more, unless it is there. -/
def addNew (names : List String) (name : String) : List String :=
  if name ∈ names then names else names ++ [name]

theorem mem_addNew {names : List String} {name n : String} :
    n ∈ addNew names name ↔ n ∈ names ∨ n = name := by
  unfold addNew
  split
  · rename_i h
    exact ⟨Or.inl, fun hn => hn.elim id fun he => he ▸ h⟩
  · simp

theorem nodup_addNew {names : List String} (h : names.Nodup) (name : String) :
    (addNew names name).Nodup := by
  unfold addNew
  split
  · exact h
  · rename_i hn
    refine List.nodup_append.mpr ⟨h, List.nodup_singleton _, ?_⟩
    intro a ha b hb hab
    exact hn (List.mem_singleton.mp hb ▸ hab ▸ ha)

theorem mem_foldl_addNew {ns names : List String} {n : String} :
    n ∈ ns.foldl addNew names ↔ n ∈ names ∨ n ∈ ns := by
  induction ns generalizing names with
  | nil => simp
  | cons m ns ih => rw [List.foldl_cons, ih, mem_addNew, List.mem_cons, or_assoc]

theorem nodup_foldl_addNew {names : List String} (h : names.Nodup) (ns : List String) :
    (ns.foldl addNew names).Nodup := by
  induction ns generalizing names with
  | nil => exact h
  | cons m ns ih => exact ih (nodup_addNew h m)

namespace Entity

theorem addImport_eq (e : Entity) (name : String) :
    e.addImport name = { e with imports := addNew e.imports name } := by
  unfold addImport addNew
  by_cases h : name ∈ e.imports <;> simp [h]

theorem foldl_addImport (ns : List String) (e : Entity) :
    ns.foldl addImport e = { e with imports := ns.foldl addNew e.imports } := by
  induction ns generalizing e with
  | nil => rfl
  | cons n ns ih => rw [List.foldl_cons, ih, addImport_eq]; rfl

/-- What resolution never touches: everything but attributes, functions and imports. -/
def frame (e : Entity) : String × String × EntityKind × String × Declarations :=
  (e.name, e.filename, e.kind, e.owner, e.declarations)

theorem frame_addImport (e : Entity) (name : String) : (e.addImport name).frame = e.frame := by
  rw [addImport_eq]; rfl

end Entity

/-! ### Errors -/

namespace Error

/-- What can stop resolution: a structural error, or a value in it that has too many digits to be
shown. -/
def StopsResolution (err : Error) : Prop :=
  err.family = .structural ∨ err = system .tooManyDigits

theorem stopsResolution_showing (v : Scalar) {error : String → Error}
    (h : ∀ shown, (error shown).family = .structural) : (showing v error).StopsResolution := by
  unfold showing
  split
  · exact Or.inl (h _)
  · exact Or.inr rfl

end Error

/-! ### Attributes -/

namespace Attribute

variable {models : Models} {a a' : Attribute} {e : Entity}

/-- The attribute with the model of an association spelled out. -/
def naming (a : Attribute) (key name : String) : Attribute :=
  { a with properties := Assoc.put key (.string name) a.properties }

theorem given?_naming_of_ne (a : Attribute) {key k : String} (h : key ≠ k) (name : String) :
    (a.naming key name).properties.given? k = a.properties.given? k := by
  rw [Properties.given?, Properties.given?, naming, Assoc.get?_put_of_ne h]

/-- A model with an empty name does not count as given. -/
theorem given?_naming_self (a : Attribute) (key name : String) :
    (a.naming key name).properties.given? key = if name = "" then none else some (.string name) := by
  have htruthy : Scalar.truthy (.string name) = (name != "") := rfl
  rw [Properties.given?, naming, Assoc.get?_put_self, Option.filter_some, htruthy]
  by_cases hname : name = "" <;> simp [hname]

/-- Naming a model gives no other kind. -/
theorem given?_naming_other {key : String}
    (h : ∀ k ∈ kindKeys, k ≠ key → a.properties.given? k = none) (name : String) :
    ∀ k ∈ kindKeys, k ≠ key → (a.naming key name).properties.given? k = none := by
  intro k hk hne
  rw [given?_naming_of_ne a (Ne.symm hne), h k hk hne]

/-- What an attribute can be resolved to, with the names of the models that it imports: one with a
valid type stays as it is, so does one that only goes through another model, and an association
has its model spelled out. -/
inductive Resolves (models : Models) (a : Attribute) : Attribute → List String → Prop
  | typed {type : Scalar} (given : a.properties.given? "type" = some type)
      (valid : (Error.attributeTypes.map Scalar.string).contains type = true)
      (only : ∀ k ∈ kindKeys, k ≠ "type" → a.properties.given? k = none) : Resolves models a a []
  | through (none_given : ∀ k ∈ kindKeys, a.properties.given? k = none)
      (goes : (a.properties.given? "through").isSome = true) : Resolves models a a []
  | association {key identity : String} {model : Entity} (is_key : key ∈ associationKeys)
      (given : a.properties.given? key = some (.string identity))
      (only : ∀ k ∈ kindKeys, k ≠ key → a.properties.given? k = none)
      (found : models.withIdentity? identity = some model) :
      Resolves models a (a.naming key model.name) [model.name]

theorem target_ok {key : String} {identity : Scalar} {model : Entity}
    (h : target models e a key identity = .ok model) :
    ∃ s, identity = .string s ∧ models.withIdentity? s = some model := by
  cases identity with
  | string s =>
    simp only [target] at h
    split at h
    · rename_i found hfound
      cases h
      exact ⟨s, rfl, hfound⟩
    · cases h
  | _ => simp [target] at h

theorem target_error {key : String} {identity : Scalar} {err : Error}
    (h : target models e a key identity = .error err) : err.StopsResolution := by
  unfold target at h
  dsimp only at h
  split at h
  · cases h
  · cases h
    exact Error.stopsResolution_showing identity fun _ => rfl

/-- The notice about an identity that is not in lower case. -/
def noteSpelling (a : Attribute) (identity : Scalar) (e : Entity) : Act Entity Unit :=
  if !isLowerCase identity then Act.notify (.mixedCaseIdentity identity.display a.name e.describe)
  else pure ()

/-- Resolving the association under a given key, step by step. -/
theorem resolveAssociation_given {key : String} {identity : Scalar}
    (h : a.properties.given? key = some identity) :
    resolveAssociation models a key =
      (Act.state >>= fun e => Act.ofExcept (target models e a key identity) >>= fun model =>
        noteSpelling a identity e >>= fun _ =>
          Act.modify (fun e => e.addImport model.name) >>= fun _ =>
            pure (a.naming key model.name)) := by
  simp only [resolveAssociation, h, noteSpelling]
  congr 1
  funext e
  congr 1
  funext model
  split <;> rfl

/-- Of the model that an association means, only the name is used. -/
theorem resolveAssociation_named {key : String} {identity : Scalar}
    (h : a.properties.given? key = some identity) :
    resolveAssociation models a key =
      (Act.state >>= fun e =>
        Act.ofExcept ((target models e a key identity).map Entity.name) >>= fun name =>
          noteSpelling a identity e >>= fun _ =>
            Act.modify (fun e => e.addImport name) >>= fun _ => pure (a.naming key name)) := by
  rw [resolveAssociation_given h]
  refine congrArg (Act.state >>= ·) (funext fun e => ?_)
  exact Act.ofExcept_bind_view Entity.name (target models e a key identity) fun name =>
    noteSpelling a identity e >>= fun _ =>
      Act.modify (fun e => e.addImport name) >>= fun _ => pure (a.naming key name)

/-- Resolving the association under a key that is given. -/
theorem resolveAssociation_ok {key : String} {identity : Scalar}
    (hgiven : a.properties.given? key = some identity)
    (h : (resolveAssociation models a key e).result = .ok a') :
    ∃ s model, identity = .string s ∧ models.withIdentity? s = some model ∧
      a' = a.naming key model.name ∧
      (resolveAssociation models a key e).state = e.addImport model.name := by
  rw [resolveAssociation_given hgiven, Act.state_bind] at h ⊢
  cases hmodel : target models e a key identity with
  | error err =>
    rw [hmodel] at h
    cases h
  | ok model =>
    obtain ⟨s, rfl, hs⟩ := target_ok hmodel
    refine ⟨s, model, rfl, hs, ?_⟩
    rw [hmodel, Act.ofExcept_ok, Act.pure_bind] at h
    rw [Act.ofExcept_ok, Act.pure_bind]
    unfold noteSpelling at h ⊢
    split at h <;> simp_all

theorem resolveAssociation_none {key : String} (h : a.properties.given? key = none) :
    resolveAssociation models a key = pure a := by
  simp only [resolveAssociation, h]

/-- At most one kind is given when a given kind is the only one in the list. -/
theorem given_unique {j k : String} (hj : j ∈ kindKeys) (hk : k ∈ kindKeys) (hne : j ≠ k)
    (hjg : (a.properties.given? j).isSome) (hlen : ¬1 < a.givenKinds.length) :
    a.properties.given? k = none := by
  by_contra hkg
  have hjm : j ∈ a.givenKinds := List.mem_filter.mpr ⟨hj, hjg⟩
  have hkm : k ∈ a.givenKinds := List.mem_filter.mpr ⟨hk, Option.isSome_iff_ne_none.mpr hkg⟩
  match hks : a.givenKinds with
  | [] => rw [hks] at hjm; cases hjm
  | [x] =>
    rw [hks, List.mem_singleton] at hjm hkm
    exact hne (hjm.trans hkm.symm)
  | _ :: _ :: _ => rw [hks] at hlen; simp at hlen

theorem givenKinds_eq_nil (h : ∀ k ∈ kindKeys, a.properties.given? k = none) :
    a.givenKinds = [] := by
  refine List.filter_eq_nil_iff.mpr fun k hk => ?_
  rw [h k hk]
  exact Bool.false_ne_true

theorem givenKinds_eq_singleton {key : String} (hkey : key ∈ kindKeys)
    (hgiven : (a.properties.given? key).isSome = true)
    (honly : ∀ k ∈ kindKeys, k ≠ key → a.properties.given? k = none) : a.givenKinds = [key] := by
  have hkeep : ∀ k ∈ kindKeys, (a.properties.given? k).isSome = (k == key) := by
    intro k hk
    by_cases heq : k = key
    · simp [heq, hgiven]
    · simp [heq, honly k hk heq]
  rw [givenKinds, List.filter_congr hkeep]
  simp only [kindKeys, List.mem_cons, List.not_mem_nil, or_false] at hkey
  rcases hkey with rfl | rfl | rfl <;> decide

/-- **What resolving an attribute does** when it succeeds. -/
theorem resolve_ok (h : (a.resolve models e).result = .ok a') :
    ∃ targets, Resolves models a a' targets ∧
      (a.resolve models e).state = targets.foldl Entity.addImport e := by
  simp only [resolve, Act.state_bind] at h ⊢
  split at h
  · cases h
  · split at h
    · cases h
    · rename_i hthrough hlen
      rw [if_neg hthrough, if_neg hlen]
      -- the kind that is given is the only one
      have honly : ∀ {key : String} {v : Scalar}, key ∈ kindKeys → a.properties.given? key = some v →
          ∀ k ∈ kindKeys, k ≠ key → a.properties.given? k = none := by
        intro key v hkey hv k hk hne
        exact given_unique hkey hk (Ne.symm hne) (by rw [hv]; rfl) hlen
      cases htype : a.properties.given? "type" with
      | some type =>
        simp only [htype] at h ⊢
        split at h
        · rename_i hvalid
          cases h
          rw [if_pos hvalid]
          exact ⟨[], .typed htype hvalid (honly (by decide) htype), rfl⟩
        · cases h
      | none =>
        simp only [htype] at h ⊢
        cases hmodel : a.properties.given? "model" with
        | some identity =>
          have hcoll : a.properties.given? "collection" = none :=
            honly (by decide) hmodel _ (by decide) (by decide)
          obtain ⟨b, hb, hrest, hstate⟩ := Act.bind_result_ok h
          obtain ⟨s, model, rfl, hs, rfl, hst⟩ := resolveAssociation_ok hmodel hb
          -- the second key is not given, and naming the model does not change that
          have hnone : resolveAssociation models (a.naming "model" model.name) "collection" =
              pure (a.naming "model" model.name) :=
            resolveAssociation_none ((given?_naming_of_ne a (by decide) model.name).trans hcoll)
          rw [hnone] at hrest hstate
          cases hrest
          refine ⟨[model.name], .association (by decide) hmodel (honly (by decide) hmodel) hs, ?_⟩
          rw [hstate, Act.pure_apply, hst]
          rfl
        | none =>
          rw [resolveAssociation_none hmodel, Act.pure_bind] at h ⊢
          cases hcoll : a.properties.given? "collection" with
          | some identity =>
            obtain ⟨s, model, rfl, hs, rfl, hst⟩ := resolveAssociation_ok hcoll h
            exact ⟨[model.name], .association (by decide) hcoll (honly (by decide) hcoll) hs, hst⟩
          | none =>
            rw [resolveAssociation_none hcoll] at h ⊢
            cases h
            have hnone : ∀ k ∈ kindKeys, a.properties.given? k = none := by
              intro k hk
              simp only [kindKeys, List.mem_cons, List.not_mem_nil, or_false] at hk
              rcases hk with rfl | rfl | rfl
              · exact htype
              · exact hmodel
              · exact hcoll
            refine ⟨[], .through hnone ?_, rfl⟩
            simpa [givenKinds_eq_nil hnone, Option.isSome_iff_ne_none] using hthrough

/-- An association whose model is found is resolved, whatever entity it stands in. -/
theorem resolveAssociation_found {key identity : String} {model : Entity}
    (hgiven : a.properties.given? key = some (.string identity))
    (hfound : models.withIdentity? identity = some model) (e : Entity) :
    ∃ notices, resolveAssociation models a key e =
      ⟨.ok (a.naming key model.name), e.addImport model.name, notices⟩ := by
  have htarget : target models e a key (.string identity) = .ok model := by
    simp only [target, hfound]
  rw [resolveAssociation_given hgiven, Act.state_bind, htarget, Act.ofExcept_ok, Act.pure_bind]
  unfold noteSpelling
  split
  · exact ⟨_, rfl⟩
  · exact ⟨_, rfl⟩

/-- **Whatever an attribute can be resolved to, resolving it gives.** -/
theorem Resolves.resolve_eq {targets : List String} (h : Resolves models a a' targets)
    (e : Entity) :
    ∃ notices, a.resolve models e = ⟨.ok a', targets.foldl Entity.addImport e, notices⟩ := by
  cases h with
  | typed given valid only =>
    have hkinds := givenKinds_eq_singleton (by decide) (by rw [given]; rfl) only
    refine ⟨[], ?_⟩
    simp only [resolve, Act.state_bind, hkinds, given, valid]
    rfl
  | through none_given goes =>
    have hkinds := givenKinds_eq_nil none_given
    obtain ⟨through, hthrough⟩ := Option.isSome_iff_exists.mp goes
    refine ⟨[], ?_⟩
    simp only [resolve, Act.state_bind, hkinds, hthrough, none_given "type" (by decide),
      resolveAssociation_none (none_given "model" (by decide)), Act.pure_bind,
      resolveAssociation_none (none_given "collection" (by decide))]
    rfl
  | @association key identity model is_key given only found =>
    have hkey : key ∈ kindKeys := List.mem_cons_of_mem _ is_key
    have hkinds := givenKinds_eq_singleton hkey (by rw [given]; rfl) only
    obtain ⟨notices, hfound⟩ := resolveAssociation_found given found e
    have hrun : a.resolve models e = (resolveAssociation models a "model" >>= fun b =>
        resolveAssociation models b "collection") e := by
      have htype : "type" ≠ key := by
        rintro rfl
        exact absurd is_key (by decide)
      simp only [resolve, Act.state_bind, hkinds, only "type" (by decide) htype]
      rfl
    simp only [associationKeys, List.mem_cons, List.not_mem_nil, or_false] at is_key
    rcases is_key with rfl | rfl
    · have hnone : resolveAssociation models (a.naming "model" model.name) "collection" =
          pure (a.naming "model" model.name) :=
        resolveAssociation_none ((given?_naming_of_ne a (by decide) model.name).trans
          (only _ (by decide) (by decide)))
      refine ⟨notices ++ [], ?_⟩
      rw [hrun, Act.bind_of_ok (congrArg Outcome.result hfound), hfound, hnone]
      rfl
    · refine ⟨notices, ?_⟩
      rw [hrun, resolveAssociation_none (only "model" (by decide) (by decide)), Act.pure_bind, hfound]
      rfl

/-- The only notice of resolution. -/
def IsSpellingNotice (n : Notice) : Prop :=
  ∃ identity attr entity, n = .mixedCaseIdentity identity attr entity

/-- What one more import does not spoil, resolving an association does not spoil. -/
theorem preserves_resolveAssociation {I : Entity → Prop}
    (himport : ∀ e name, I e → I (e.addImport name)) (models : Models) (a : Attribute)
    (key : String) : Act.Preserves I (resolveAssociation models a key) := by
  cases h : a.properties.given? key with
  | none => rw [resolveAssociation_none h]; exact Act.preserves_of_keeps (Act.keeps_pure _)
  | some identity =>
    rw [resolveAssociation_given h]
    refine Act.preserves_bind (Act.preserves_of_keeps Act.keeps_state) fun e => ?_
    refine Act.preserves_bind (Act.preserves_of_keeps (Act.keeps_ofExcept _)) fun model => ?_
    refine Act.preserves_bind (Act.preserves_of_keeps ?_) fun _ => ?_
    · unfold noteSpelling
      split
      · exact Act.keeps_notify _
      · exact Act.keeps_pure _
    · exact Act.preserves_bind (Act.preserves_modify fun e he => himport e _ he)
        fun _ => Act.preserves_of_keeps (Act.keeps_pure _)

theorem notes_resolveAssociation (models : Models) (a : Attribute) (key : String) :
    Act.Notes IsSpellingNotice (resolveAssociation models a key) := by
  cases h : a.properties.given? key with
  | none => rw [resolveAssociation_none h]; exact Act.notes_pure _
  | some identity =>
    rw [resolveAssociation_given h]
    refine Act.notes_bind Act.notes_state fun e => ?_
    refine Act.notes_bind (Act.notes_ofExcept _) fun model => ?_
    refine Act.notes_bind ?_ fun _ => Act.notes_bind (Act.notes_modify _) fun _ => Act.notes_pure _
    unfold noteSpelling
    split
    · exact Act.notes_notify ⟨_, _, _, rfl⟩
    · exact Act.notes_pure _

theorem fails_resolveAssociation (models : Models) (a : Attribute) (key : String) :
    Act.Fails Error.StopsResolution (resolveAssociation models a key) := by
  cases h : a.properties.given? key with
  | none => rw [resolveAssociation_none h]; exact Act.fails_pure _
  | some identity =>
    rw [resolveAssociation_given h]
    refine Act.fails_bind Act.fails_state fun e => ?_
    refine Act.fails_bind (Act.fails_ofExcept fun _ => target_error) fun model => ?_
    refine Act.fails_bind ?_ fun _ => Act.fails_bind (Act.fails_modify _) fun _ => Act.fails_pure _
    unfold noteSpelling
    split
    · exact Act.fails_notify _
    · exact Act.fails_pure _

theorem preserves_resolve {I : Entity → Prop} (himport : ∀ e name, I e → I (e.addImport name))
    (models : Models) (a : Attribute) : Act.Preserves I (a.resolve models) := by
  refine Act.preserves_bind (Act.preserves_of_keeps Act.keeps_state) fun e => ?_
  dsimp only
  split
  · exact Act.preserves_of_keeps (Act.keeps_fail _)
  · split
    · exact Act.preserves_of_keeps (Act.keeps_fail _)
    · split
      · split
        · exact Act.preserves_of_keeps (Act.keeps_pure _)
        · exact Act.preserves_of_keeps (Act.keeps_fail _)
      · exact Act.preserves_bind (preserves_resolveAssociation himport _ _ _)
          fun _ => preserves_resolveAssociation himport _ _ _

theorem notes_resolve (models : Models) (a : Attribute) :
    Act.Notes IsSpellingNotice (a.resolve models) := by
  refine Act.notes_bind Act.notes_state fun e => ?_
  dsimp only
  split
  · exact Act.notes_fail _
  · split
    · exact Act.notes_fail _
    · split
      · split
        · exact Act.notes_pure _
        · exact Act.notes_fail _
      · exact Act.notes_bind (notes_resolveAssociation _ _ _)
          fun _ => notes_resolveAssociation _ _ _

theorem fails_resolve (models : Models) (a : Attribute) :
    Act.Fails Error.StopsResolution (a.resolve models) := by
  refine Act.fails_bind Act.fails_state fun e => ?_
  dsimp only
  split
  · exact Act.fails_fail (Or.inl rfl)
  · split
    · exact Act.fails_fail (Or.inl rfl)
    · split
      · rename_i type _
        split
        · exact Act.fails_pure _
        · exact Act.fails_fail (Error.stopsResolution_showing type fun _ => rfl)
      · exact Act.fails_bind (fails_resolveAssociation _ _ _)
          fun _ => fails_resolveAssociation _ _ _

/-- Attributes resolved one by one, with all that they import. -/
inductive ResolvesAll (models : Models) : List Attribute → List Attribute → List String → Prop
  | nil : ResolvesAll models [] [] []
  | cons {a a' : Attribute} {as as' : List Attribute} {ts us : List String}
      (head : Resolves models a a' ts) (tail : ResolvesAll models as as' us) :
      ResolvesAll models (a :: as) (a' :: as') (ts ++ us)

theorem Resolves.target_known {ts : List String} (h : Resolves models a a' ts) :
    ∀ t ∈ ts, ∃ m ∈ models, m.2.name = t := by
  cases h with
  | typed _ => exact fun _ ht => nomatch ht
  | through _ => exact fun _ ht => nomatch ht
  | association _ _ _ found =>
    intro t ht
    obtain ⟨m, hm, rfl⟩ := Option.map_eq_some_iff.mp found
    exact ⟨m, List.mem_of_find?_eq_some hm, (List.mem_singleton.mp ht).symm⟩

theorem ResolvesAll.target_known {as as' : List Attribute} {ts : List String}
    (h : ResolvesAll models as as' ts) : ∀ t ∈ ts, ∃ m ∈ models, m.2.name = t := by
  induction h with
  | nil => exact fun _ ht => nomatch ht
  | cons head _ ih =>
    intro t ht
    rcases List.mem_append.mp ht with ht | ht
    · exact head.target_known t ht
    · exact ih t ht

theorem ResolvesAll.resolves {as as' : List Attribute} {ts : List String}
    (h : ResolvesAll models as as' ts) :
    ∀ a' ∈ as', ∃ a us, Resolves models a a' us ∧ ∀ u ∈ us, u ∈ ts := by
  induction h with
  | nil => exact fun _ ha => nomatch ha
  | cons head _ ih =>
    intro b hb
    rcases List.mem_cons.mp hb with rfl | hb
    · exact ⟨_, _, head, fun u hu => List.mem_append_left _ hu⟩
    · obtain ⟨a, us, ha, hus⟩ := ih b hb
      exact ⟨a, us, ha, fun u hu => List.mem_append_right _ (hus u hu)⟩

end Attribute

/-! ### Entities -/

namespace Entity

variable {models : Models} {e : Entity}

theorem resolveFunctions_eq (models : Models) (e : Entity) :
    resolveFunctions models e =
      { e with
        functions := e.functions.map (Function.resolved models.knows)
        imports := ((e.functions.map (Function.resolved models.knows)).flatMap
          Function.mentionedModels).foldl addNew e.imports } := by
  rw [resolveFunctions, foldl_addImport]

theorem exists_resolvesAll {as : List Attribute} : ∀ {i : Nat} {e : Entity},
    (resolveAttributes models i as e).result = .ok () →
    ∃ as' ts, Attribute.ResolvesAll models as as' ts := by
  induction as with
  | nil => exact fun _ => ⟨[], [], .nil⟩
  | cons a as ih =>
    intro i e h
    obtain ⟨a', ha, h, _⟩ := Act.bind_result_ok h
    obtain ⟨ts, hresolves, _⟩ := Attribute.resolve_ok ha
    rw [Act.modify_bind] at h
    obtain ⟨as', us, hall⟩ := ih h
    exact ⟨a' :: as', ts ++ us, .cons hresolves hall⟩

/-- Resolving goes through attributes that can be resolved and on to the rest.  The induction is on the
attributes in front; they and the rest are those of the entity from a place on. -/
theorem resolveAttributes_append {as as' : List Attribute} {ts : List String}
    (hall : Attribute.ResolvesAll models as as' ts) (rest : List Attribute) :
    ∀ {i : Nat} {e : Entity}, e.attributes.drop i = as ++ rest →
      ∃ notices, ∀ o, resolveAttributes models (i + as.length) rest { e with
          attributes := e.attributes.take i ++ (as' ++ rest)
          imports := ts.foldl addNew e.imports } = o →
        resolveAttributes models i (as ++ rest) e = ⟨o.result, o.state, notices ++ o.notices⟩ := by
  induction hall with
  | nil =>
    intro i e hdrop
    refine ⟨[], ?_⟩
    rintro o rfl
    rw [List.nil_append] at hdrop
    rw [List.nil_append, ← hdrop, List.take_append_drop]
    rfl
  | @cons a a' as as' ts us hresolves _ ih =>
    intro i e hdrop
    obtain ⟨notices, ha⟩ := hresolves.resolve_eq e
    rw [foldl_addImport] at ha
    have hi : i < e.attributes.length := by
      by_contra hi
      rw [List.drop_eq_nil_of_le (Nat.le_of_not_lt hi)] at hdrop
      cases hdrop
    have hdrop' : (e.attributes.set i a').drop (i + 1) = as ++ rest := by
      rw [List.drop_set_of_lt (Nat.lt_succ_self i), ← List.tail_drop, hdrop]
      rfl
    have htake : (e.attributes.set i a').take (i + 1) = e.attributes.take i ++ [a'] := by
      rw [List.take_add_one, List.take_set_of_le (Nat.le_refl i), List.getElem?_set_self hi]
      rfl
    obtain ⟨more, hrest⟩ := ih (e := setAttribute i a'
      { e with imports := ts.foldl addNew e.imports }) hdrop'
    refine ⟨notices ++ more, ?_⟩
    rintro o rfl
    have hplace : i + 1 + as.length = i + (a :: as).length := by
      rw [List.length_cons]
      omega
    rw [List.cons_append, resolveAttributes, Act.bind_of_ok (congrArg Outcome.result ha), ha,
      Act.modify_bind, hrest _ rfl, hplace]
    simp only [setAttribute, htake, List.append_assoc, List.cons_append, List.nil_append,
      List.foldl_append]

/-- Resolving the attributes from a place on, all of which can be resolved. -/
theorem resolveAttributes_eq {as as' : List Attribute} {ts : List String}
    (hall : Attribute.ResolvesAll models as as' ts) {i : Nat} {e : Entity}
    (hdrop : e.attributes.drop i = as) :
    ∃ notices, resolveAttributes models i as e =
      ⟨.ok (), { e with
        attributes := e.attributes.take i ++ as', imports := ts.foldl addNew e.imports },
        notices⟩ := by
  obtain ⟨notices, hrun⟩ := resolveAttributes_append hall [] (hdrop.trans (List.append_nil as).symm)
  refine ⟨notices ++ [], ?_⟩
  have hend := hrun _ rfl
  rwa [List.append_nil, List.append_nil] at hend

/-- **Resolving an entity whose attributes can be resolved.** -/
theorem resolve_eq {as' : List Attribute} {ts : List String}
    (hall : Attribute.ResolvesAll models e.attributes as' ts) :
    ∃ notices, resolve models e =
      ⟨.ok (), { e with
        functions := e.functions.map (Function.resolved models.knows)
        attributes := as'
        imports := (((e.functions.map (Function.resolved models.knows)).flatMap
          Function.mentionedModels) ++ ts).foldl addNew e.imports }, notices⟩ := by
  rw [resolve, Act.modify_bind, Act.state_bind, resolveFunctions_eq]
  obtain ⟨notices, hrest⟩ := resolveAttributes_eq hall (i := 0) (e := { e with
    functions := e.functions.map (Function.resolved models.knows)
    imports := ((e.functions.map (Function.resolved models.knows)).flatMap
      Function.mentionedModels).foldl addNew e.imports }) rfl
  refine ⟨notices, hrest.trans ?_⟩
  simp only [List.take_zero, List.nil_append, List.foldl_append]

/-- **What resolving an entity does** when it succeeds. -/
theorem resolve_ok (h : (resolve models e).result = .ok ()) :
    ∃ as' ts, Attribute.ResolvesAll models e.attributes as' ts ∧
      (resolve models e).state =
        { e with
          functions := e.functions.map (Function.resolved models.knows)
          attributes := as'
          imports := (((e.functions.map (Function.resolved models.knows)).flatMap
            Function.mentionedModels) ++ ts).foldl addNew e.imports } := by
  have hattributes := h
  rw [resolve, Act.modify_bind, Act.state_bind, resolveFunctions_eq] at hattributes
  obtain ⟨as', ts, hall⟩ := exists_resolvesAll hattributes
  obtain ⟨notices, hresolve⟩ := resolve_eq (e := e) hall
  exact ⟨as', ts, hall, congrArg Outcome.state hresolve⟩

section Preserves

variable {I : Entity → Prop} (himport : ∀ e name, I e → I (e.addImport name))
  (hset : ∀ i a e, I e → I (setAttribute i a e))

include himport hset

theorem preserves_resolveAttributes (models : Models) (as : List Attribute) :
    ∀ i, Act.Preserves I (resolveAttributes models i as) := by
  induction as with
  | nil => exact fun _ => Act.preserves_of_keeps (Act.keeps_pure _)
  | cons a as ih =>
    intro i
    exact Act.preserves_bind (Attribute.preserves_resolve himport models a) fun a' =>
      Act.preserves_bind (Act.preserves_modify (hset i a')) fun _ => ih (i + 1)

/-- **Resolving spoils nothing that its single steps do not spoil**, also when it ends early: the
functions are resolved, imports are added, attributes are replaced. -/
theorem preserves_resolve {models : Models} (hfunctions : ∀ e, I e → I (e.resolveFunctions models)) :
    Act.Preserves I (resolve models) :=
  Act.preserves_bind (Act.preserves_modify hfunctions) fun _ =>
    Act.preserves_bind (Act.preserves_of_keeps Act.keeps_state) fun _ =>
      preserves_resolveAttributes himport hset models _ 0

end Preserves

theorem notes_resolveAttributes (models : Models) (as : List Attribute) :
    ∀ i, Act.Notes Attribute.IsSpellingNotice (resolveAttributes models i as) := by
  induction as with
  | nil => exact fun _ => Act.notes_pure _
  | cons a as ih =>
    intro i
    exact Act.notes_bind (Attribute.notes_resolve models a) fun a' =>
      Act.notes_bind (Act.notes_modify _) fun _ => ih (i + 1)

theorem fails_resolveAttributes (models : Models) (as : List Attribute) :
    ∀ i, Act.Fails Error.StopsResolution (resolveAttributes models i as) := by
  induction as with
  | nil => exact fun _ => Act.fails_pure _
  | cons a as ih =>
    intro i
    exact Act.fails_bind (Attribute.fails_resolve models a) fun a' =>
      Act.fails_bind (Act.fails_modify _) fun _ => ih (i + 1)

theorem keeps_resolve (models : Models) : Act.Keeps frame (resolve models) := by
  intro e
  refine preserves_resolve (I := fun e' => e'.frame = e.frame) (fun e' name h => ?_)
    (fun _ _ _ h => h) (fun e' h => ?_) e rfl
  · rw [frame_addImport, h]
  · rw [resolveFunctions_eq]
    exact h

theorem notes_resolve (models : Models) : Act.Notes Attribute.IsSpellingNotice (resolve models) :=
  Act.notes_bind (Act.notes_modify _) fun _ =>
    Act.notes_bind Act.notes_state fun _ => notes_resolveAttributes models _ 0

theorem fails_resolve (models : Models) :
    Act.Fails Error.StopsResolution (resolve models) :=
  Act.fails_bind (Act.fails_modify _) fun _ =>
    Act.fails_bind Act.fails_state fun _ => fails_resolveAttributes models _ 0

end Entity

/-! ### Only the names of the other models matter -/

namespace Models

variable {models models' : Models}

/-- The names that models are known under, with the names they bear. -/
def signature (models : Models) : List (String × String) :=
  models.map fun m => (m.1, m.2.name)

theorem knows_congr (h : models.signature = models'.signature) : models.knows = models'.knows := by
  have hknows : ∀ ms : Models, ms.knows = fun name => ms.signature.any fun p => p.1 == name := by
    intro ms
    funext name
    rw [knows, signature, List.any_map]
    rfl
  rw [hknows, hknows, h]

theorem keys_congr (h : models.signature = models'.signature) :
    Assoc.keys models = Assoc.keys models' := by
  have hkeys : ∀ ms : Models, Assoc.keys ms = ms.signature.map Prod.fst := by
    intro ms
    rw [Assoc.keys, signature, List.map_map]
    rfl
  rw [hkeys, hkeys, h]

theorem withIdentity?_congr (h : models.signature = models'.signature) (identity : String) :
    (models.withIdentity? identity).map Entity.name =
      (models'.withIdentity? identity).map Entity.name := by
  have hfind : ∀ ms : Models, (ms.withIdentity? identity).map Entity.name =
      (ms.signature.find? fun p => Text.lower p.1 == Text.lower identity).map Prod.snd := by
    intro ms
    rw [withIdentity?, signature, List.find?_map, Option.map_map, Option.map_map]
    rfl
  rw [hfind, hfind, h]

end Models

namespace Attribute

variable {models models' : Models}

theorem target_congr (h : models.signature = models'.signature) (e : Entity) (a : Attribute)
    (key : String) (identity : Scalar) :
    (target models e a key identity).map Entity.name =
      (target models' e a key identity).map Entity.name := by
  cases identity with
  | string s =>
    have hfound := Models.withIdentity?_congr h s
    simp only [target]
    cases hm : models.withIdentity? s <;> cases hm' : models'.withIdentity? s
    · rw [Models.keys_congr h]
    · rw [hm, hm'] at hfound; cases hfound
    · rw [hm, hm'] at hfound; cases hfound
    · rw [hm, hm'] at hfound
      exact congrArg Except.ok (Option.some.inj hfound)
  | _ => simp only [target, Models.keys_congr h]

theorem resolveAssociation_congr (h : models.signature = models'.signature) (a : Attribute)
    (key : String) : resolveAssociation models a key = resolveAssociation models' a key := by
  cases hg : a.properties.given? key with
  | none => rw [resolveAssociation_none hg, resolveAssociation_none hg]
  | some identity =>
    rw [resolveAssociation_named hg, resolveAssociation_named hg]
    simp only [target_congr h]

theorem resolve_congr (h : models.signature = models'.signature) (a : Attribute) :
    a.resolve models = a.resolve models' := by
  simp only [resolve, resolveAssociation_congr h]

end Attribute

namespace Entity

variable {models models' : Models}

/-- **Resolution sees only the names of the models.** -/
theorem resolve_congr (h : models.signature = models'.signature) :
    resolve models = resolve models' := by
  have hattributes : ∀ (as : List Attribute) (i : Nat),
      resolveAttributes models i as = resolveAttributes models' i as := by
    intro as
    induction as with
    | nil => exact fun _ => rfl
    | cons a as ih =>
      intro i
      rw [resolveAttributes, resolveAttributes, Attribute.resolve_congr h, ih]
  have hfunctions : resolveFunctions models = resolveFunctions models' := by
    funext e
    simp only [resolveFunctions, Models.knows_congr h]
  simp only [resolve, hfunctions, hattributes]

end Entity

end Rigging
