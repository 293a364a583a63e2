import Mathlib.Data.List.Induction
import Rigging.Proofs.Declaration.Linked
import Rigging.Proofs.Project.Prepare
import Rigging.Session

/-!
# Phases in a session

An entity is read, then declared standing alone, then linked.  The steps of a session come in any
order and may fail half way, but none of them leaves an entity between two phases:
`Session.preserves_perform` says so of one step for the invariant `Entity.InPhase`, so that it holds in
every state that a session reaches.  Which entities stand alone can be told from the steps that have
been done (`Session.Declared`), and linking fails for the others only (`Session.run_inPhase`).
-/

namespace Rigging

namespace Entity

/-- An entity that is in one phase: it imports no model twice, it is linked only when it is declared,
and of the two classes that are declared standing alone a model has both or none, a service just the
one. -/
structure InPhase (e : Entity) : Prop where
  imports : e.imports.Nodup
  linked : e.declarations.linked.isSome = true → e.declarations.staticClass.isSome = true
  model : e.kind = .model →
    (e.declarations.instanceClass.isSome = true ↔ e.declarations.staticClass.isSome = true)
  service : e.kind = .service → e.declarations.instanceClass = none

theorem Fresh.inPhase {e : Entity} (h : e.Fresh) : e.InPhase := by
  constructor
  · rw [h.no_imports]
    exact List.nodup_nil
  · simp [h.no_declarations, Declarations.none]
  · simp [h.no_declarations, Declarations.none]
  · simp [h.no_declarations, Declarations.none]

/-! ### Resolving -/

theorem InPhase.of_frame {e e' : Entity} (h : e.InPhase) (hframe : e'.frame = e.frame)
    (himports : e'.imports.Nodup) : e'.InPhase := by
  simp only [frame, Prod.mk.injEq] at hframe
  obtain ⟨_, _, hkind, _, hdeclarations⟩ := hframe
  refine ⟨himports, ?_, ?_, ?_⟩
  · rw [hdeclarations]
    exact h.linked
  · rw [hkind, hdeclarations]
    exact h.model
  · rw [hkind, hdeclarations]
    exact h.service

theorem static_of_frame {e e' : Entity} (h : e'.frame = e.frame) :
    e'.declarations.staticClass = e.declarations.staticClass := by
  simp only [frame, Prod.mk.injEq] at h
  rw [h.2.2.2.2]

theorem nodup_imports_addImport {e : Entity} (h : e.imports.Nodup) (name : String) :
    (e.addImport name).imports.Nodup := by
  rw [addImport_eq]
  exact nodup_addNew h name

theorem InPhase.addImport {e : Entity} (h : e.InPhase) (name : String) :
    (e.addImport name).InPhase :=
  h.of_frame (frame_addImport e name) (nodup_imports_addImport h.imports name)

theorem InPhase.resolveFunctions {e : Entity} (h : e.InPhase) (models : Models) :
    (e.resolveFunctions models).InPhase := by
  rw [resolveFunctions_eq]
  exact h.of_frame rfl (nodup_foldl_addNew h.imports _)

/-- Resolving that ends early has added some imports, but none twice. -/
theorem preserves_inPhase_resolve (models : Models) : Act.Preserves InPhase (resolve models) :=
  preserves_resolve (fun _ name h => h.addImport name) (fun _ _ _ h => h.of_frame rfl h.imports)
    fun _ h => h.resolveFunctions models

/-! ### Declaring -/

/-- Declaring writes both classes of a model or none, and of a service its own class only. -/
theorem preserves_inPhase_declareStandalone : Act.Preserves InPhase declareStandalone := by
  intro e h
  rcases declareStandalone_cases e with ⟨text, htext, heq⟩ | ⟨_, _, heq⟩
  · rw [heq]
    refine ⟨h.imports, fun _ => rfl, fun hkind => ?_, fun hkind => ?_⟩
    · have hmodel : e.isModel = true := by rw [isModel, show e.kind = .model from hkind]; rfl
      obtain ⟨c, _, rfl⟩ := (instances_model hmodel).mp htext
      exact iff_of_true rfl rfl
    · have hservice : e.isModel = false := by rw [isModel, show e.kind = .service from hkind]; rfl
      rw [instances_service hservice] at htext
      exact (Except.ok.inj htext).symm.trans (h.service hkind)
  · rw [heq]
    exact h

/-- An entity has its own class if it had it before, and if declaring it succeeds. -/
theorem static_declareStandalone (e : Entity) :
    (declareStandalone e).state.declarations.staticClass.isSome = true ↔
      e.declarations.staticClass.isSome = true ∨ (declareStandalone e).result = .ok () := by
  rcases declareStandalone_cases e with ⟨_, _, heq⟩ | ⟨_, _, heq⟩
  · rw [heq]
    exact iff_of_true rfl (.inr rfl)
  · rw [heq]
    simp

theorem declareLinked_of_none {e : Entity} (h : e.declarations.staticClass = none)
    (models : Models) :
    declareLinked models e = ⟨.error (.notStandalone e.describe), e, []⟩ := by
  rw [declareLinked, Act.state_bind, h]
  rfl

/-- Linking changes only the linked text, and only if the entity is declared. -/
theorem preserves_inPhase_declareLinked (models : Models) : Act.Preserves InPhase (declareLinked models) := by
  intro e h
  cases hstatic : e.declarations.staticClass with
  | none =>
    rw [declareLinked_of_none hstatic]
    exact h
  | some text =>
    have hkept := keeps_unlinked_declareLinked models e
    generalize (declareLinked models e).state = e' at hkept
    simp only [unlinked, Entity.mk.injEq, Declarations.mk.injEq, and_true] at hkept
    obtain ⟨_, _, hkind, _, _, _, himports, hinstance, hsame⟩ := hkept
    refine ⟨himports ▸ h.imports, fun _ => ?_, ?_, ?_⟩
    · rw [hsame, hstatic]
      rfl
    · rw [hkind, hinstance, hsame]
      exact h.model
    · rw [hkind, hinstance]
      exact h.service

theorem keeps_static_declareLinked (models : Models) :
    Act.Keeps (fun e : Entity => e.declarations.staticClass) (declareLinked models) := by
  intro e
  show (declareLinked models e).state.unlinked.declarations.staticClass = e.declarations.staticClass
  rw [keeps_unlinked_declareLinked]
  rfl

/-- **Linking an entity that is in one phase** fails when the entity is not declared, and in no
other way. -/
theorem InPhase.result_declareLinked {e : Entity} (h : e.InPhase) (models : Models) :
    (declareLinked models e).result =
      if e.declarations.staticClass.isSome then .ok () else .error (.notStandalone e.describe) := by
  cases hstatic : e.declarations.staticClass with
  | none =>
    rw [declareLinked_of_none hstatic]
    rfl
  | some text =>
    obtain ⟨texts, htexts⟩ : ∃ texts, (collectInstances models e).result = .ok texts :=
      ⟨_, congrArg Outcome.result (linkedInstances_eq models e e.imports [] (List.forall_mem_nil _) e)⟩
    rw [declareLinked, Act.state_bind, hstatic]
    dsimp only
    rw [Act.bind_of_ok htexts]
    cases hkind : e.kind with
    | service =>
      have hmodel : e.isModel = false := by rw [isModel, hkind]; rfl
      rw [hmodel]
      rfl
    | model =>
      have hmodel : e.isModel = true := by rw [isModel, hkind]; rfl
      have hinstance : e.declarations.instanceClass.isSome = true :=
        (h.model hkind).mpr (by rw [hstatic]; rfl)
      obtain ⟨instanceText, hinstance⟩ := Option.isSome_iff_exists.mp hinstance
      rw [hmodel, hinstance]
      rfl

end Entity

namespace Pool

/-! ### Work on a pool -/

theorem preserves_atPlace {P : Entity → Prop} {a : Act Entity Unit} (h : Act.Preserves P a)
    (i : Nat) : Act.Preserves (fun pool : Pool => ∀ e ∈ pool, P e) (atPlace i a) := by
  intro pool hpool
  cases hi : pool[i]? with
  | none =>
    rw [atPlace_of_none hi]
    exact hpool
  | some e =>
    rw [atPlace_of_some hi]
    intro e' he'
    rcases List.mem_or_eq_of_mem_set he' with he' | rfl
    · exact hpool e' he'
    · exact h e (hpool e (List.mem_of_getElem? hi))

/-- A build leaves every entity in one phase, wherever it ends. -/
theorem preserves_build (r : Registry) :
    Act.Preserves (fun pool : Pool => ∀ e ∈ pool, e.InPhase) (build r) := by
  have hstate : Act.Preserves (fun pool : Pool => ∀ e ∈ pool, e.InPhase) Act.state :=
    Act.preserves_of_keeps Act.keeps_state
  refine Act.preserves_bind (Act.preserves_forEach fun i _ => ?_) fun _ =>
    Act.preserves_forEach fun i _ => ?_
  · refine Act.preserves_bind hstate fun pool => ?_
    refine Act.preserves_bind (preserves_atPlace (Entity.preserves_inPhase_resolve _) i) fun _ => ?_
    exact preserves_atPlace Entity.preserves_inPhase_declareStandalone i
  · exact Act.preserves_bind hstate fun pool =>
      preserves_atPlace (Entity.preserves_inPhase_declareLinked _) i

/-- The own classes that are declared, by place. -/
def statics (pool : Pool) : List (Option String) :=
  pool.map fun e => e.declarations.staticClass

/-- The entity at a place has been declared standing alone. -/
def DeclaredAt (pool : Pool) (i : Nat) : Prop :=
  ∃ text, pool.statics[i]? = some (some text)

theorem declaredAt_congr {pool pool' : Pool} (h : pool.statics = pool'.statics) (i : Nat) :
    pool.DeclaredAt i ↔ pool'.DeclaredAt i := by
  rw [DeclaredAt, h, DeclaredAt]

theorem not_declaredAt_of_le {pool : Pool} {i : Nat} (h : pool.length ≤ i) : ¬pool.DeclaredAt i := by
  rintro ⟨text, htext⟩
  rw [statics, List.getElem?_map, List.getElem?_eq_none h] at htext
  cases htext

theorem declaredAt_iff {pool : Pool} {i : Nat} {e : Entity} (h : pool[i]? = some e) :
    pool.DeclaredAt i ↔ e.declarations.staticClass.isSome = true := by
  rw [DeclaredAt, statics, List.getElem?_map, h, Option.isSome_iff_exists]
  simp

/-- An entity that is put into the pool undeclared changes nothing for the others. -/
theorem declaredAt_concat {pool : Pool} {e : Entity} (h : e.declarations.staticClass = none)
    (i : Nat) : DeclaredAt (pool ++ [e]) i ↔ pool.DeclaredAt i := by
  have hstatics : statics (pool ++ [e]) = pool.statics ++ [none] := by simp [statics, h]
  rw [DeclaredAt, DeclaredAt, hstatics]
  refine exists_congr fun text => ?_
  by_cases hi : i < pool.statics.length
  · rw [List.getElem?_append_left hi]
  · rw [List.getElem?_append_right (Nat.le_of_not_lt hi), List.getElem?_singleton,
      List.getElem?_eq_none (Nat.le_of_not_lt hi)]
    split <;> simp

theorem length_atPlace (i : Nat) (a : Act Entity Unit) (pool : Pool) :
    (atPlace i a pool).state.length = pool.length := by
  cases hi : pool[i]? with
  | none => rw [atPlace_of_none hi]
  | some e => rw [atPlace_of_some hi]; exact List.length_set

/-- What declares an entity: work at its own place that writes its class. -/
theorem declaredAt_atPlace_self {a : Act Entity Unit} {i : Nat} {pool : Pool} {e : Entity}
    (h : pool[i]? = some e) : (atPlace i a pool).state.DeclaredAt i ↔
      (a e).state.declarations.staticClass.isSome = true := by
  have hget : (atPlace i a pool).state[i]? = some (a e).state := by
    rw [getElem?_atPlace_self, h]
    rfl
  exact declaredAt_iff hget

/-- Work at another place declares nothing here. -/
theorem declaredAt_atPlace_of_ne {a : Act Entity Unit} {i j : Nat} {pool : Pool} (h : i ≠ j) :
    (atPlace j a pool).state.DeclaredAt i ↔ pool.DeclaredAt i := by
  simp only [DeclaredAt, statics, List.getElem?_map, getElem?_atPlace_of_ne (Ne.symm h)]

/-- Preparing declares the entity at its place, if it succeeds. -/
theorem declaredAt_prepareAt {r : Registry} {i j : Nat} {pool : Pool} (hi : i < pool.length) :
    (prepareAt r j pool).state.DeclaredAt i ↔
      pool.DeclaredAt i ∨ i = j ∧ (prepareAt r j pool).result = .ok () := by
  have hprepare : prepareAt r j pool = atPlace j (Entity.prepare (r.modelsIn pool)) pool :=
    atPlace_bind _ _ j pool
  rw [hprepare]
  by_cases hij : i = j
  · subst hij
    have hget := List.getElem?_eq_getElem hi
    rw [declaredAt_atPlace_self hget, declaredAt_iff hget, atPlace_of_some hget]
    have hresolve := Entity.static_of_frame (Entity.keeps_resolve (r.modelsIn pool) pool[i])
    cases hresult : (Entity.resolve (r.modelsIn pool) pool[i]).result with
    | ok u =>
      rw [Entity.prepare, Act.bind_of_ok hresult]
      dsimp only
      rw [Entity.static_declareStandalone, hresolve, and_iff_right rfl]
    | error err =>
      rw [Entity.prepare, Act.bind_of_error hresult]
      dsimp only
      rw [hresolve]
      simp
  · rw [declaredAt_atPlace_of_ne hij]
    simp [hij]

theorem length_prepareAt (r : Registry) (i : Nat) (pool : Pool) :
    (prepareAt r i pool).state.length = pool.length := by
  have hprepare : prepareAt r i pool = atPlace i (Entity.prepare (r.modelsIn pool)) pool :=
    atPlace_bind _ _ i pool
  rw [hprepare, length_atPlace]

/-- The first round of a build declares the entities that it comes past. -/
theorem declaredAt_prepareRound {r : Registry} {places : List Nat} {i : Nat} :
    ∀ {pool : Pool}, i < pool.length →
      ((Act.forEach (prepareAt r) places pool).state.DeclaredAt i ↔
        pool.DeclaredAt i ∨ ∃ front back, places = front ++ i :: back ∧
          (Act.forEach (prepareAt r) (front ++ [i]) pool).result = .ok ()) := by
  induction places with
  | nil => simp
  | cons j places ih =>
    intro pool hi
    have hstep := declaredAt_prepareAt (r := r) (j := j) hi
    rw [Act.forEach_cons]
    cases hresult : (prepareAt r j pool).result with
    | error err =>
      -- the round ends here, and nothing behind this place is reached
      rw [Act.bind_of_error hresult, hstep, hresult]
      have hnone : ¬∃ front back, j :: places = front ++ i :: back ∧
          (Act.forEach (prepareAt r) (front ++ [i]) pool).result = .ok () := by
        rintro ⟨front, back, hplaces, hfront⟩
        cases front with
        | nil =>
          obtain ⟨rfl, _⟩ := List.cons.inj hplaces
          rw [List.nil_append, Act.forEach_cons, Act.bind_of_error hresult] at hfront
          cases hfront
        | cons k front =>
          obtain ⟨rfl, _⟩ := List.cons.inj hplaces
          rw [List.cons_append, Act.forEach_cons, Act.bind_of_error hresult] at hfront
          cases hfront
      exact or_congr_right (iff_of_false (by simp) hnone)
    | ok u =>
      rw [Act.bind_of_ok hresult]
      rw [ih (by rw [length_prepareAt]; exact hi), hstep, hresult, or_assoc]
      refine or_congr_right ?_
      constructor
      · rintro (⟨rfl, _⟩ | ⟨front, back, rfl, hfront⟩)
        · exact ⟨[], places, rfl, by rw [List.nil_append, Act.forEach_cons, Act.bind_of_ok hresult]; rfl⟩
        · refine ⟨j :: front, back, rfl, ?_⟩
          rw [List.cons_append, Act.forEach_cons, Act.bind_of_ok hresult]
          exact hfront
      · rintro ⟨front, back, hplaces, hfront⟩
        cases front with
        | nil =>
          obtain ⟨rfl, _⟩ := List.cons.inj hplaces
          exact Or.inl ⟨rfl, rfl⟩
        | cons k front =>
          obtain ⟨rfl, rfl⟩ := List.cons.inj hplaces
          rw [List.cons_append, Act.forEach_cons, Act.bind_of_ok hresult] at hfront
          exact Or.inr ⟨front, back, rfl, hfront⟩

theorem keeps_statics_linkAt (r : Registry) (i : Nat) : Act.Keeps statics (linkAt r i) :=
  Act.keeps_bind Act.keeps_state fun _ => keeps_atPlace (Entity.keeps_static_declareLinked _) i

theorem length_build (r : Registry) (pool : Pool) : (build r pool).state.length = pool.length := by
  have hnames := congrArg List.length (keeps_names_build r pool)
  rwa [List.length_map, List.length_map] at hnames

/-- A build declares the entities that its first round comes past. -/
theorem declaredAt_build (r : Registry) (i : Nat) (pool : Pool) :
    (build r pool).state.DeclaredAt i ↔
      pool.DeclaredAt i ∨ i < pool.length ∧ ∃ front back, r.places = front ++ i :: back ∧
        (Act.forEach (prepareAt r) (front ++ [i]) pool).result = .ok () := by
  by_cases hi : i < pool.length
  · rw [and_iff_right hi, ← declaredAt_prepareRound hi, build]
    cases hresult : (Act.forEach (prepareAt r) r.places pool).result with
    | error err => rw [Act.bind_of_error hresult]
    | ok u =>
      rw [Act.bind_of_ok hresult]
      exact declaredAt_congr (Act.keeps_forEach (fun i _ => keeps_statics_linkAt r i) _) i
  · have hle := Nat.le_of_not_lt hi
    refine iff_of_false (not_declaredAt_of_le (by rwa [length_build])) ?_
    exact not_or.mpr ⟨not_declaredAt_of_le hle, fun h => hi h.1⟩

end Pool

namespace Session

/-! ### Steps and runs -/

/-- The session behind some steps, failing ones included. -/
def run (steps : List Step) : Session :=
  steps.foldl (fun s step => (perform step s).state) start

theorem run_concat (steps : List Step) (step : Step) :
    run (steps ++ [step]) = (perform step (run steps)).state := by
  rw [run, List.foldl_append]
  rfl

/-- A step declares the entity at a place standing alone.  A step that asks for it does so unless it
fails, and a build when its first round comes past the place. -/
def Declares (s : Session) (i : Nat) : Step → Prop
  | .declareStandalone j => j = i ∧ ∃ e, s.pool[i]? = some e ∧
      (Entity.declareStandalone e).result = .ok ()
  | .build => i < s.pool.length ∧ ∃ front back, s.registry.places = front ++ i :: back ∧
      (Act.forEach (Pool.prepareAt s.registry) (front ++ [i]) s.pool).result = .ok ()
  | _ => False

/-- One of some steps has declared the entity at a place standing alone. -/
def Declared (steps : List Step) (i : Nat) : Prop :=
  ∃ front step back, steps = front ++ step :: back ∧ (run front).Declares i step

theorem declared_concat (steps : List Step) (step : Step) (i : Nat) :
    Declared (steps ++ [step]) i ↔ Declared steps i ∨ (run steps).Declares i step := by
  constructor
  · rintro ⟨front, step', back, hsteps, hdeclares⟩
    rcases List.eq_nil_or_concat back with rfl | ⟨back, last, rfl⟩
    · obtain ⟨rfl, heq⟩ := List.append_inj' hsteps rfl
      rw [← List.head_eq_of_cons_eq heq] at hdeclares
      exact Or.inr hdeclares
    · rw [List.concat_eq_append, ← List.cons_append, ← List.append_assoc] at hsteps
      obtain ⟨rfl, _⟩ := List.append_inj' hsteps rfl
      exact Or.inl ⟨front, step', back, rfl, hdeclares⟩
  · rintro (⟨front, step', back, rfl, hdeclares⟩ | hdeclares)
    · exact ⟨front, step', back ++ [step], by simp, hdeclares⟩
    · exact ⟨steps, step, [], rfl, hdeclares⟩

/-- The entity of a text is fresh. -/
theorem fresh_ofText (name filename : String) (kind : EntityKind) (owner text : String) :
    Act.Gives Entity.Fresh (Entity.ofText name filename kind owner text) := by
  intro s e he
  have hfilled := Entity.gives_ofText name filename kind owner text s e he
  rw [hfilled]
  exact ⟨rfl, rfl⟩

/-- What work on the entity at a place leaves. -/
theorem onEntity_pool (i : Nat) (a : Models → Act Entity Unit) (s : Session) :
    (onEntity i a s).state.pool = (Pool.atPlace i (a s.models) s.pool).state := rfl

theorem preserves_onEntity {P : Entity → Prop} {a : Models → Act Entity Unit}
    (h : ∀ models, Act.Preserves P (a models)) (i : Nat) :
    Act.Preserves (fun s : Session => ∀ e ∈ s.pool, P e) (onEntity i a) := by
  intro s hs
  rw [onEntity_pool]
  exact Pool.preserves_atPlace (h _) i s.pool hs

/-- **No step leaves an entity between two phases**, whether it succeeds or fails. -/
theorem preserves_perform {step : Step} (hstep : ∀ e, step ≠ .addEntity e) :
    Act.Preserves (fun s : Session => ∀ e ∈ s.pool, e.InPhase) (perform step) := by
  cases step with
  | addText name filename kind owner text =>
    refine Act.preserves_bind_of_gives (P := fun made : Entity × Unit => made.1.Fresh)
      (Act.preserves_of_keeps (Act.keeps_onOwn _ _))
      (Act.gives_onOwn fun e he => fresh_ofText name filename kind owner text () e he) ?_
    rintro ⟨e, _⟩ hfresh s hs e' he'
    rcases List.mem_append.mp he' with he' | he'
    · exact hs e' he'
    · rw [List.mem_singleton.mp he']
      exact hfresh.inPhase
  | addEntity e => exact absurd rfl (hstep e)
  | buildRegistry =>
    refine Act.preserves_bind (Act.preserves_of_keeps Act.keeps_state) fun s => ?_
    exact Act.preserves_bind (Act.preserves_of_keeps (Act.keeps_ofExcept _)) fun _ _ hs => hs
  | register j key =>
    intro s hs
    show ∀ e ∈ (s.registerAs j key).pool, e.InPhase
    unfold registerAs
    split <;> exact hs
  | unregister key => exact fun _ hs => hs
  | addImport j model =>
    exact preserves_onEntity (fun _ => Act.preserves_modify fun _ h => h.addImport model) j
  | resolve j => exact preserves_onEntity Entity.preserves_inPhase_resolve j
  | declareStandalone j =>
    exact preserves_onEntity (fun _ => Entity.preserves_inPhase_declareStandalone) j
  | declareLinked j => exact preserves_onEntity Entity.preserves_inPhase_declareLinked j
  | build =>
    refine Act.preserves_bind (Act.preserves_of_keeps Act.keeps_state) fun s => ?_
    exact fun s' hs => Pool.preserves_build _ s'.pool hs
  | writeOutput directory =>
    exact Act.preserves_bind (Act.preserves_of_keeps Act.keeps_state) fun s _ hs => hs

/-! ### What has been declared -/

/-- Work on the entity at a place that leaves the own class of the entity alone. -/
theorem statics_onEntity {a : Models → Act Entity Unit}
    (h : ∀ models, Act.Keeps (fun e : Entity => e.declarations.staticClass) (a models))
    (i : Nat) (s : Session) : (onEntity i a s).state.pool.statics = s.pool.statics := by
  rw [onEntity_pool]
  exact Pool.keeps_atPlace (h _) i s.pool

/-- Reading a text declares nothing: its entity comes into the pool undeclared. -/
theorem declaredAt_addText (name filename : String) (kind : EntityKind) (owner text : String)
    (s : Session) (i : Nat) :
    (perform (.addText name filename kind owner text) s).state.pool.DeclaredAt i ↔
      s.pool.DeclaredAt i := by
  have hown := Act.onOwn_apply () (Entity.ofText name filename kind owner text) s
  cases hread : (Entity.ofText name filename kind owner text ()).result with
  | error err =>
    have hfails : (Act.onOwn () (Entity.ofText name filename kind owner text) s).result =
        .error err := by
      rw [hown, hread]
      rfl
    rw [perform, Act.bind_of_error hfails]
    rfl
  | ok e =>
    have hgives : (Act.onOwn () (Entity.ofText name filename kind owner text) s).result =
        .ok (e, ()) := by
      rw [hown, hread]
      rfl
    have hfresh := fresh_ofText name filename kind owner text () e hread
    rw [perform, Act.bind_of_ok hgives]
    exact Pool.declaredAt_concat (by rw [hfresh.no_declarations]; rfl) i

/-- Declaring the entity at a place standing alone declares no other, and that one unless it fails. -/
theorem declaredAt_declareStandalone (j : Nat) (s : Session) (i : Nat) :
    (perform (.declareStandalone j) s).state.pool.DeclaredAt i ↔
      s.pool.DeclaredAt i ∨ s.Declares i (.declareStandalone j) := by
  rw [perform, onEntity_pool]
  by_cases hij : j = i
  · subst hij
    cases hplace : s.pool[j]? with
    | none =>
      rw [Pool.atPlace_of_none hplace, Declares, hplace]
      simp
    | some e =>
      rw [Pool.declaredAt_atPlace_self hplace, Pool.declaredAt_iff hplace,
        Entity.static_declareStandalone, Declares, hplace]
      simp
  · rw [Pool.declaredAt_atPlace_of_ne (Ne.symm hij), or_iff_left fun h => hij h.1]

/-- **Which entities are declared behind a step**: those that were, and those that it declares. -/
theorem declaredAt_perform {s : Session} {step : Step} (hstep : ∀ e, step ≠ .addEntity e) (i : Nat) :
    (perform step s).state.pool.DeclaredAt i ↔ s.pool.DeclaredAt i ∨ s.Declares i step := by
  -- most steps leave the own classes alone, and declare nothing
  have hsame : (perform step s).state.pool.statics = s.pool.statics → ¬s.Declares i step →
      ((perform step s).state.pool.DeclaredAt i ↔ s.pool.DeclaredAt i ∨ s.Declares i step) := by
    intro hstatics hnot
    rw [Pool.declaredAt_congr hstatics, or_iff_left hnot]
  cases step with
  | addText name filename kind owner text =>
    exact (declaredAt_addText name filename kind owner text s i).trans (or_iff_left id).symm
  | addEntity e => exact absurd rfl (hstep e)
  | buildRegistry =>
    refine hsame ?_ id
    rw [perform, Act.state_bind]
    cases Registry.ofPool s.pool <;> rfl
  | register j key =>
    refine hsame ?_ id
    show (s.registerAs j key).pool.statics = s.pool.statics
    unfold registerAs
    split <;> rfl
  | unregister key => exact hsame rfl id
  | addImport j model =>
    refine hsame (statics_onEntity (fun _ => Act.keeps_modify fun e => ?_) j s) id
    exact Entity.static_of_frame (Entity.frame_addImport e model)
  | resolve j =>
    refine hsame (statics_onEntity (fun models e => ?_) j s) id
    exact Entity.static_of_frame (Entity.keeps_resolve models e)
  | declareStandalone j => exact declaredAt_declareStandalone j s i
  | declareLinked j => exact hsame (statics_onEntity Entity.keeps_static_declareLinked j s) id
  | build => exact Pool.declaredAt_build s.registry i s.pool
  | writeOutput directory => exact hsame rfl id

section Runs

variable {steps : List Step} (h : ∀ e, Step.addEntity e ∉ steps)

include h

theorem inPhase_of_mem_run : ∀ e ∈ (run steps).pool, e.InPhase := by
  induction steps using List.reverseRecOn with
  | nil => exact List.forall_mem_nil _
  | append_singleton steps step ih =>
    rw [run_concat]
    refine preserves_perform (fun e heq => h e ?_) _ (ih fun e he => h e (List.mem_append_left _ he))
    exact heq ▸ List.mem_append_right _ List.mem_cons_self

/-- The entities that are declared behind some steps are those that a step has declared. -/
theorem declaredAt_run (i : Nat) : (run steps).pool.DeclaredAt i ↔ Declared steps i := by
  induction steps using List.reverseRecOn with
  | nil =>
    refine iff_of_false (Pool.not_declaredAt_of_le (Nat.zero_le i)) ?_
    rintro ⟨front, step, back, hsteps, _⟩
    simp at hsteps
  | append_singleton steps step ih =>
    have hstep : ∀ e, step ≠ .addEntity e := by
      rintro e rfl
      exact h e (List.mem_append_right _ List.mem_cons_self)
    rw [run_concat, declaredAt_perform hstep, declared_concat,
      ih fun e he => h e (List.mem_append_left _ he)]

/-- **Every entity of a session is in one phase.**  Behind any steps, failing ones included, linking
an entity fails, with the error that says so, just if none of the steps has declared it standing
alone. -/
theorem run_inPhase {i : Nat} {e : Entity} (he : (run steps).pool[i]? = some e) :
    e.InPhase ∧ ∀ models,
      (Declared steps i → (Entity.declareLinked models e).result = .ok ()) ∧
      (¬Declared steps i →
        (Entity.declareLinked models e).result = .error (.notStandalone e.describe)) := by
  have hphase := inPhase_of_mem_run h e (List.mem_of_getElem? he)
  have hdeclared := (declaredAt_run h i).symm.trans (Pool.declaredAt_iff he)
  refine ⟨hphase, fun models => ?_⟩
  rw [hphase.result_declareLinked models, hdeclared]
  constructor
  · intro hsome
    rw [if_pos hsome]
  · intro hnone
    rw [if_neg hnone]

end Runs

/-- Two models of one name, of which the older is declared: it can be linked, and the newer cannot. -/
theorem run_inPhase_pets :
    let steps : List Step := [.addText "Pet" "api/models/Pet.js" .model Entity.rootOwner "",
      .addText "Pet" "hook/models/Pet.js" .model "hook" "", .declareStandalone 0, .declareLinked 1]
    (∀ e, Step.addEntity e ∉ steps) ∧ ∃ older newer, (run steps).pool = [older, newer] ∧
      older.InPhase ∧ newer.InPhase ∧ (Entity.declareLinked [] older).result = .ok () ∧
      (Entity.declareLinked [] newer).result = .error (.notStandalone newer.describe) := by
  intro steps
  have hsteps : ∀ e, Step.addEntity e ∉ steps := by
    intro e he
    simp [steps] at he
  have hlength : (run steps).pool.length = 2 := by decide
  obtain ⟨older, newer, hpool⟩ := List.length_eq_two.mp hlength
  have holder : (run steps).pool[0]? = some older := by rw [hpool]; rfl
  have hnewer : (run steps).pool[1]? = some newer := by rw [hpool]; rfl
  have hdeclared : Declared steps 0 := by
    refine ⟨steps.take 2, .declareStandalone 0, [.declareLinked 1], rfl, rfl, ?_⟩
    exact ⟨Entity.blank "Pet" "api/models/Pet.js" .model Entity.rootOwner, by decide, by decide⟩
  have hundeclared : ¬Declared steps 1 := by
    have hstatics : (run steps).pool.statics[1]? = some none := by decide
    rw [← declaredAt_run hsteps]
    rintro ⟨text, htext⟩
    rw [hstatics] at htext
    cases htext
  obtain ⟨hphase, hlinks⟩ := run_inPhase hsteps holder
  obtain ⟨hphase', hlinks'⟩ := run_inPhase hsteps hnewer
  exact ⟨hsteps, older, newer, hpool, hphase, hphase', (hlinks []).1 hdeclared,
    (hlinks' []).2 hundeclared⟩

end Session

end Rigging
