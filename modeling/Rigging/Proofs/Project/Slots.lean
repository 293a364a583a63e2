import Rigging.Proofs.Project.Prepare

/-!
# Loading in any order

Modules are loaded side by side and put into the slots of their places as they are finished.  What
comes of it is one equation, `result_fillSlots`: the first module to fail decides, and if none fails
every slot that is named holds the entity of its module.  So the order in which modules are finished
does not matter for what is loaded (`loadAll_perm`).
-/

namespace Rigging.Project

variable (t : FileTree) (sources : List Source)

/-- The error of the module at a place. -/
def failureAt? (i : Nat) : Option Error :=
  sources[i]?.bind fun source =>
    match (load source t).result with
    | .ok _ => none
    | .error e => some e

/-- The entity of the module at a place. -/
def entityAt? (i : Nat) : Option Entity :=
  sources[i]?.bind fun source => (load source t).result.toOption

/-- The slots with the entity of one module put into its place. -/
def fillAt (slots : List (Option Entity)) (i : Nat) : List (Option Entity) :=
  match entityAt? t sources i with
  | some e => slots.set i (some e)
  | none => slots

section Places

variable {t sources} {i : Nat} {source : Source}

theorem failureAt?_of_getElem? (h : sources[i]? = some source) {e : Error} :
    failureAt? t sources i = some e ↔ (load source t).result = .error e := by
  rw [failureAt?, h, Option.bind_some]
  cases (load source t).result <;> simp

theorem failureAt?_eq_none_iff (h : sources[i]? = some source) :
    failureAt? t sources i = none ↔ ∃ e, (load source t).result = .ok e := by
  rw [failureAt?, h, Option.bind_some]
  cases (load source t).result <;> simp

theorem entityAt?_of_getElem? (h : sources[i]? = some source) {e : Entity} :
    entityAt? t sources i = some e ↔ (load source t).result = .ok e := by
  rw [entityAt?, h, Option.bind_some]
  cases (load source t).result <;> simp [Except.toOption]

end Places

/-- **What loading comes to**, whatever the order: the error of the first module to fail, or the slots
filled one after the other. -/
theorem result_fillSlots (order : List Nat) : ∀ slots,
    (fillSlots sources slots order t).result =
      match order.findSome? (failureAt? t sources) with
      | some e => .error e
      | none => .ok (order.foldl (fillAt t sources) slots) := by
  induction order with
  | nil => exact fun _ => rfl
  | cons i order ih =>
    intro slots
    rw [fillSlots, List.findSome?_cons, List.foldl_cons]
    cases hsource : sources[i]? with
    | none =>
      have hfailure : failureAt? t sources i = none := by rw [failureAt?, hsource]; rfl
      have hfill : fillAt t sources slots i = slots := by
        rw [fillAt, entityAt?, hsource]
        rfl
      rw [hfailure, hfill]
      exact ih slots
    | some source =>
      have hkept : (load source t).state = t := keeps_load source t
      dsimp only
      cases hload : (load source t).result with
      | error e =>
        rw [Act.bind_of_error hload, (failureAt?_of_getElem? hsource).mpr hload]
      | ok e =>
        have hfill : fillAt t sources slots i = slots.set i (some e) := by
          rw [fillAt, (entityAt?_of_getElem? hsource).mpr hload]
        rw [Act.bind_of_ok hload, hkept, (failureAt?_eq_none_iff hsource).mpr ⟨e, hload⟩, hfill]
        exact ih _

section Results

variable {t sources} {order : List Nat} {slots : List (Option Entity)}

/-- Loading sees nothing of the file tree but what its modules give. -/
theorem fillSlots_congr {t' : FileTree}
    (h : ∀ source ∈ sources, (load source t').result = (load source t).result) :
    (fillSlots sources slots order t').result = (fillSlots sources slots order t).result := by
  have hfailure : failureAt? t' sources = failureAt? t sources := by
    funext i
    refine Option.bind_congr fun source hsource => ?_
    rw [h source (List.mem_of_getElem? hsource)]
  have hfill : fillAt t' sources = fillAt t sources := by
    funext slots i
    have hentity : entityAt? t' sources i = entityAt? t sources i :=
      Option.bind_congr fun source hsource => by rw [h source (List.mem_of_getElem? hsource)]
    rw [fillAt, fillAt, hentity]
  rw [result_fillSlots, result_fillSlots, hfailure, hfill]

theorem exists_load_of_fillSlots {filled : List (Option Entity)}
    (h : (fillSlots sources slots order t).result = .ok filled) {i : Nat} (hi : i ∈ order)
    {source : Source} (hsource : sources[i]? = some source) : ∃ e, (load source t).result = .ok e := by
  rw [result_fillSlots] at h
  cases hfailure : order.findSome? (failureAt? t sources) with
  | some e =>
    rw [hfailure] at h
    cases h
  | none => exact (failureAt?_eq_none_iff hsource).mp (List.findSome?_eq_none_iff.mp hfailure i hi)

/-- Loading modules, in whatever order they are finished, fails as one of them does. -/
theorem exists_of_fillSlots_error {e : Error}
    (h : (fillSlots sources slots order t).result = .error e) :
    ∃ source ∈ sources, (load source t).result = .error e := by
  rw [result_fillSlots] at h
  cases hfailure : order.findSome? (failureAt? t sources) with
  | none =>
    rw [hfailure] at h
    cases h
  | some e' =>
    rw [hfailure] at h
    cases h
    obtain ⟨i, _, hi⟩ := List.exists_of_findSome?_eq_some hfailure
    obtain ⟨source, hsource, _⟩ := Option.bind_eq_some_iff.mp hi
    exact ⟨source, List.mem_of_getElem? hsource, (failureAt?_of_getElem? hsource).mp hi⟩

end Results

/-! ### Slots -/

section Slots

variable {t sources}

theorem getElem?_fillAt (slots : List (Option Entity)) (i j : Nat) :
    (fillAt t sources slots i)[j]? =
      slots[j]?.map fun old => if j = i then (entityAt? t sources j).or old else old := by
  by_cases hj : j = i
  · subst hj
    rw [fillAt]
    cases entityAt? t sources j with
    | none => simp
    | some e => by_cases hlt : j < slots.length <;> simp [hlt]
  · rw [fillAt]
    cases entityAt? t sources i with
    | none => simp [hj]
    | some e => simp [hj, List.getElem?_set_ne (Ne.symm hj)]

/-- A slot takes the entity of its module when the module is finished, and keeps what it has otherwise. -/
theorem getElem?_foldl_fillAt (order : List Nat) (j : Nat) (slots : List (Option Entity)) :
    (order.foldl (fillAt t sources) slots)[j]? =
      slots[j]?.map fun old => if j ∈ order then (entityAt? t sources j).or old else old := by
  induction order generalizing slots with
  | nil => simp
  | cons i order ih =>
    rw [List.foldl_cons, ih, getElem?_fillAt, Option.map_map]
    refine congrArg (slots[j]?.map ·) (funext fun old => ?_)
    by_cases hj : j = i <;> by_cases hmem : j ∈ order <;>
      simp [hj, hmem, ← Option.or_assoc, Function.comp_apply]

/-- **Every order fills the slots alike.** -/
theorem foldl_fillAt_perm {order : List Nat} (h : order.Perm (List.range sources.length)) :
    order.foldl (fillAt t sources) (List.replicate sources.length none) =
      sources.map fun source => (load source t).result.toOption := by
  refine List.ext_getElem? fun j => ?_
  rw [getElem?_foldl_fillAt, List.getElem?_map]
  cases hsource : sources[j]? with
  | none =>
    have hj : sources.length ≤ j := List.getElem?_eq_none_iff.mp hsource
    rw [List.getElem?_eq_none (by simpa using hj)]
    rfl
  | some source =>
    have hj : j < sources.length := (List.getElem?_eq_some_iff.mp hsource).1
    have hmem : j ∈ order := h.mem_iff.mpr (List.mem_range.mpr hj)
    have hentity : entityAt? t sources j = (load source t).result.toOption := by
      rw [entityAt?, hsource]
      rfl
    simp [hj, hmem, hentity]

end Slots

/-! ### All modules -/

section All

variable {t sources} {order : List Nat}

/-- A module whose turn comes: those that are finished before it are loaded. -/
def Reached (t : FileTree) (sources : List Source) (order : List Nat) (source : Source) : Prop :=
  ComesTo (fun i => ∃ other entity, sources[i]? = some other ∧ (load other t).result = .ok entity)
    (fun i => sources[i]? = some source) order

theorem result_loadAll (h : order.Perm (List.range sources.length)) :
    (loadAll order sources t).result =
      match order.findSome? (failureAt? t sources) with
      | some e => .error e
      | none => .ok (sources.filterMap fun source => (load source t).result.toOption) := by
  have hfill := result_fillSlots t sources order (List.replicate sources.length none)
  rw [loadAll]
  cases hfailure : order.findSome? (failureAt? t sources) with
  | some e =>
    rw [hfailure] at hfill
    rw [Act.bind_of_error hfill]
  | none =>
    rw [hfailure] at hfill
    rw [Act.bind_of_ok hfill, foldl_fillAt_perm h, List.filterMap_map]
    rfl

theorem findSome?_failureAt?_eq_none_iff (h : order.Perm (List.range sources.length)) :
    order.findSome? (failureAt? t sources) = none ↔
      ∀ source ∈ sources, ∃ e, (load source t).result = .ok e := by
  rw [List.findSome?_eq_none_iff]
  constructor
  · intro hnone source hsource
    obtain ⟨i, hi, hget⟩ := List.getElem_of_mem hsource
    have hplace : sources[i]? = some source := hget ▸ List.getElem?_eq_getElem hi
    exact (failureAt?_eq_none_iff hplace).mp (hnone i (h.mem_iff.mpr (List.mem_range.mpr hi)))
  · intro hall i hi
    have hlt : i < sources.length := List.mem_range.mp (h.mem_iff.mp hi)
    exact (failureAt?_eq_none_iff (List.getElem?_eq_getElem hlt)).mpr (hall _ (List.getElem_mem hlt))

/-- The module that decides has failed, and what was finished before it has not. -/
theorem reached_of_findSome? (h : order.Perm (List.range sources.length)) {e : Error}
    (hfailure : order.findSome? (failureAt? t sources) = some e) :
    ∃ source ∈ sources, (load source t).result = .error e ∧ Reached t sources order source := by
  obtain ⟨front, i, back, rfl, hi, hfront⟩ := List.findSome?_eq_some_iff.mp hfailure
  have hplace : ∀ j ∈ front ++ i :: back, ∃ source, sources[j]? = some source := by
    intro j hj
    exact ⟨_, List.getElem?_eq_getElem (List.mem_range.mp (h.mem_iff.mp hj))⟩
  obtain ⟨source, hsource⟩ := hplace i (by simp)
  refine ⟨source, List.mem_of_getElem? hsource, (failureAt?_of_getElem? hsource).mp hi,
    front, i, back, rfl, fun j hj => ?_, hsource⟩
  obtain ⟨other, hother⟩ := hplace j (List.mem_append_left _ hj)
  obtain ⟨entity, hentity⟩ := (failureAt?_eq_none_iff hother).mp (hfront j hj)
  exact ⟨other, entity, hother, hentity⟩

omit order in
theorem map_load_eq_iff {entities : List Entity} :
    sources.map (fun source => (load source t).result) = entities.map .ok ↔
      (∀ source ∈ sources, ∃ e, (load source t).result = .ok e) ∧
        sources.filterMap (fun source => (load source t).result.toOption) = entities := by
  induction sources generalizing entities with
  | nil => cases entities <;> simp
  | cons source sources ih =>
    cases hload : (load source t).result with
    | error e => cases entities <;> simp [hload]
    | ok e => cases entities <;> simp [hload, ih, Except.toOption, and_left_comm]

/-- Entities are given just if every module loads, in whatever order they are finished. -/
theorem loadAll_ok_iff (h : order.Perm (List.range sources.length)) {entities : List Entity} :
    (loadAll order sources t).result = .ok entities ↔
      sources.map (fun source => (load source t).result) = entities.map .ok := by
  have hnone := findSome?_failureAt?_eq_none_iff (t := t) h
  rw [result_loadAll h]
  cases hfailure : order.findSome? (failureAt? t sources) with
  | none => rw [map_load_eq_iff, and_iff_right (hnone.mp hfailure), Except.ok.injEq]
  | some e =>
    refine iff_of_false (by rintro ⟨⟩) fun hmap => ?_
    rw [hnone.mpr (map_load_eq_iff.mp hmap).1] at hfailure
    cases hfailure

theorem exists_of_loadAll_error {e : Error} (h : (loadAll order sources t).result = .error e) :
    ∃ source ∈ sources, (load source t).result = .error e := by
  rcases Act.bind_result_error h with ⟨hfill, _⟩ | ⟨slots, _, hdone, _⟩
  · exact exists_of_fillSlots_error hfill
  · cases hdone

/-- **Loading side by side is loading one by one.**  In whatever order the modules are finished, a list
is given exactly if every module loads, and then it is the list of their entities in the order of the
modules.  If some module fails, the whole fails with the error of the one that is finished first. -/
theorem loadAll_perm (t : FileTree) (sources : List Source) {order : List Nat}
    (h : order.Perm (List.range sources.length)) :
    (∀ entities, (loadAll order sources t).result = .ok entities ↔
      sources.map (fun source => (load source t).result) = entities.map .ok) ∧
    ((∃ source ∈ sources, ∃ e, (load source t).result = .error e) →
      ∃ source ∈ sources, ∃ e, (load source t).result = .error e ∧ Reached t sources order source ∧
        (loadAll order sources t).result = .error e) := by
  refine ⟨fun entities => loadAll_ok_iff h, ?_⟩
  rintro ⟨source, hsource, e, he⟩
  rw [result_loadAll h]
  cases hfailure : order.findSome? (failureAt? t sources) with
  | none =>
    obtain ⟨entity, hentity⟩ := (findSome?_failureAt?_eq_none_iff h).mp hfailure source hsource
    cases hentity.symm.trans he
  | some e =>
    obtain ⟨source, hsource, herror, hreached⟩ := reached_of_findSome? h hfailure
    exact ⟨source, hsource, e, herror, hreached, rfl⟩

/-- A module without exports, and one whose bytes are no text. -/
def looseModules : FileTree :=
  ⟨[(["Pet.js"], .file "".toUTF8), (["Vet.js"], .file ⟨#[0xFF]⟩)]⟩

/-- Three modules, one of them twice, that are finished from the last to the first; and the same with
one that cannot be read in between. -/
theorem loadAll_perm_looseModules :
    let pet : Source := ⟨"/Pet.js", "Pet.js", "Pet", .model, Entity.rootOwner⟩
    let dog : Source := ⟨"/Pet.js", "Pet.js", "Dog", .service, Entity.rootOwner⟩
    let vet : Source := ⟨"/Vet.js", "Vet.js", "Vet", .model, Entity.rootOwner⟩
    [2, 1, 0].Perm (List.range 3) ∧
      (loadAll [2, 1, 0] [pet, dog, pet] looseModules).result = .ok [pet.blank, dog.blank, pet.blank] ∧
      (loadAll [2, 1, 0] [pet, vet, dog] looseModules).result =
        .error (.unreadableModule .model "/Vet.js"
          "'utf-8' codec can't decode byte 0xff in position 0: invalid start byte") := by
  intro pet dog vet
  have horder : [2, 1, 0].Perm (List.range 3) := by decide
  have hpet : (load pet looseModules).result = .ok pet.blank := by decide +kernel
  have hdog : (load dog looseModules).result = .ok dog.blank := by decide +kernel
  have hvet : (load vet looseModules).result = .error (.unreadableModule .model "/Vet.js"
      "'utf-8' codec can't decode byte 0xff in position 0: invalid start byte") := by decide +kernel
  refine ⟨horder, ((loadAll_perm looseModules [pet, dog, pet] horder).1 _).mpr ?_, ?_⟩
  · simp only [List.map_cons, List.map_nil, hpet, hdog]
  · obtain ⟨source, hsource, e, he, _, hresult⟩ :=
      (loadAll_perm looseModules [pet, vet, dog] horder).2 ⟨vet, by simp, _, hvet⟩
    have hfailed : source = vet := by
      simp only [List.mem_cons, List.not_mem_nil, or_false] at hsource
      rcases hsource with rfl | rfl | rfl
      · cases hpet.symm.trans he
      · rfl
      · cases hdog.symm.trans he
    rw [hfailed] at he
    rw [hresult, Except.error.inj (he.symm.trans hvet)]

end All

end Rigging.Project
