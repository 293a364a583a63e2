import Rigging.Proofs.Project.Output
import Rigging.Proofs.Project.Slots

/-!
# What preparing looks at

Preparing looks at a file tree through the contents of the paths that it reads and through its scans.
`Course` says once how a discovery of hooks can go, and what it ends with in each case.
`discover_ok_iff` and `collect_ok_iff` say what each part takes; `prepare_of_same` puts them together:
in another tree with the same contents at those paths and the same scans, the same is prepared.
-/

namespace Rigging.Project

open Rigging.Path FileTree

variable {t t' : FileTree}

/-! ### Package files -/

theorem Package.read_of_same {directory : String}
    (h : t'.contentAt? (join directory packageFile) = t.contentAt? (join directory packageFile)) :
    Package.read t' directory = Package.read t directory := by
  unfold Package.read
  dsimp only
  rw [h]

namespace Hook

variable {project marker : String} {parent : Option String}

theorem load_of_same {name : String}
    (h : t'.contentAt? (join (directory project name) packageFile) =
      t.contentAt? (join (directory project name) packageFile)) :
    load t' project name marker parent = load t project name marker parent := by
  unfold load isFileAt
  dsimp only
  rw [h, Package.read_of_same h]

/-- A hook that is loaded has the path that it was loaded from. -/
theorem path_of_load {name : String} {hook : Hook}
    (h : load t project name marker parent = .ok hook) : hook.path = directory project name := by
  unfold load at h
  dsimp only at h
  split at h
  · cases h
  · cases hpkg : Package.read t (directory project name) with
    | error e =>
      rw [hpkg] at h
      cases h
    | ok pkg =>
      rw [hpkg] at h
      change ofPackage _ _ _ _ _ = _ at h
      unfold ofPackage at h
      dsimp only at h
      split at h
      · rw [← Except.ok.inj h]
      · cases h
      · cases h
      · cases h

theorem findAll_of_same {names : List String}
    (h : ∀ name ∈ names, t'.contentAt? (join (directory project name) packageFile) =
      t.contentAt? (join (directory project name) packageFile)) :
    findAll t' project names marker parent = findAll t project names marker parent := by
  unfold findAll
  rw [mapM_of_same fun name hname => load_of_same (h name hname)]

/-- A package that is not there ends the search for the type hooks. -/
theorem findAll_of_missing {name : String} (names : List String)
    (h : t.contentAt? (join (directory project name) packageFile) = none) :
    findAll t project (name :: names) marker parent =
      .error (.missingHookPackage name (directory project name)) := by
  have hload : load t project name marker parent =
      .error (.missingHookPackage name (directory project name)) := by
    unfold load isFileAt
    dsimp only
    rw [h]
    rfl
  unfold findAll
  rw [List.mapM_cons, hload]
  rfl

/-- The hooks that are found lie where the names say. -/
theorem path_of_mem_findAll {names : List String} {found : List Hook}
    (h : findAll t project names marker parent = .ok found) :
    ∀ hook ∈ found, ∃ name ∈ names, hook.path = directory project name := by
  unfold findAll at h
  cases hall : names.mapM fun name => load t project name marker parent with
  | error e =>
    rw [hall] at h
    cases h
  | ok hooks =>
    rw [hall] at h
    obtain rfl := Except.ok.inj h
    intro hook hhook
    obtain ⟨name, hname, hload⟩ := exists_of_mem_mapM hall hook (List.mem_filter.mp hhook).1
    exact ⟨name, hname, path_of_load hload⟩

theorem checkDependency_of_same {hook : Hook} {dependency : String}
    (h : t'.contentAt? (join (directory hook.path dependency) packageFile) =
      t.contentAt? (join (directory hook.path dependency) packageFile)) :
    checkDependency t' marker hook dependency = checkDependency t marker hook dependency := by
  unfold checkDependency
  rw [load_of_same h]

/-- The dependencies of a hook decide over it; its other needs are only noted. -/
theorem result_check {installed : List String} {hook : Hook} {s : FileTree} :
    (check t marker installed hook s).result =
      (Act.forEach (fun d => Act.ofExcept (checkDependency t marker hook d))
        hook.dependencies s).result := by
  have hnotes : ∀ s' : FileTree, (Act.forEach (fun d =>
      if looksLikeHook d && !installed.contains d then Act.notify (.missingHook hook.name d)
      else pure ()) hook.devDependencies s').result = .ok () := by
    intro s'
    rw [Act.forEach_ok_iff]
    · intro d _
      split <;> rfl
    · intro d _
      split
      · exact Act.keeps_notify _
      · exact Act.keeps_pure _
  unfold check
  cases hdependencies : (Act.forEach (fun d => Act.ofExcept (checkDependency t marker hook d))
      hook.dependencies s).result with
  | error e => rw [Act.bind_of_error hdependencies]
  | ok u =>
    rw [Act.bind_of_ok hdependencies]
    exact hnotes _

theorem check_ok_iff {installed : List String} {hook : Hook} {s : FileTree} :
    (check t marker installed hook s).result = .ok () ↔
      ∀ d ∈ hook.dependencies, checkDependency t marker hook d = .ok () := by
  rw [result_check, Act.forEach_ok_iff fun d _ => Act.keeps_ofExcept _]
  simp only [Act.result_ofExcept]

end Hook

/-! ### Discovering and collecting -/

/-- The notices of a discovery about the project itself. -/
def Package.ownNotices (pkg : Package) : List Notice :=
  if !pkg.dependencies.contains "sails" && !pkg.devDependencies.contains "sails" then
    [.noSailsDependency (pkg.get "name").display]
  else []

/-- **The course of a discovery** that includes hooks, from the package file of the project on: what it
ends with, and the notices that it leaves about hooks.  The first part that fails ends it. -/
inductive Course (t : FileTree) (root marker : String) (pkg : Package) :
    Except Error (List Hook) → List Notice → Prop
  | unloaded {e : Error}
      (dependencies : Hook.findAll t root pkg.dependencies marker none = .error e) :
      Course t root marker pkg (.error e) []
  | misplaced {hook : Hook} {more : List Hook}
      (dependencies : Hook.findAll t root pkg.dependencies marker none = .ok (hook :: more)) :
      Course t root marker pkg (.error (.misplacedTypeHook hook.name)) []
  | undeveloped {e : Error}
      (dependencies : Hook.findAll t root pkg.dependencies marker none = .ok [])
      (developed : Hook.findAll t root pkg.devDependencies marker none = .error e) :
      Course t root marker pkg (.error e) []
  | checked {hooks : List Hook}
      (dependencies : Hook.findAll t root pkg.dependencies marker none = .ok [])
      (developed : Hook.findAll t root pkg.devDependencies marker none = .ok hooks) :
      Course t root marker pkg
        ((Act.forEach (Hook.check t marker (hooks.map (·.name))) hooks t).result.map fun _ => hooks)
        (Act.forEach (Hook.check t marker (hooks.map (·.name))) hooks t).notices

section Discovery

variable {root marker : String} {includeHooks : Bool} {pkg : Package}

theorem discover_of_error {e : Error} (hpkg : Package.read t root = .error e) :
    discover root marker includeHooks t = ⟨.error e, t, []⟩ := by
  unfold discover
  rw [Act.state_bind, hpkg]
  rfl

theorem result_discover_alone (hpkg : Package.read t root = .ok pkg) :
    (discover root marker false t).result = .ok [] := by
  unfold discover
  rw [Act.state_bind, hpkg, Act.ofExcept_ok, Act.pure_bind]
  dsimp only
  rw [Act.result_when_notify]
  rfl

theorem discover_course (marker : String) (hpkg : Package.read t root = .ok pkg) :
    ∃ result notices, Course t root marker pkg result notices ∧
      discover root marker true t = ⟨result, t, pkg.ownNotices ++ notices⟩ := by
  suffices hparts : ∃ notices, Course t root marker pkg (discover root marker true t).result notices ∧
      (discover root marker true t).notices = pkg.ownNotices ++ notices by
    obtain ⟨notices, hcourse, hnotices⟩ := hparts
    have hkept : (discover root marker true t).state = t := keeps_discover root marker true t
    refine ⟨_, notices, hcourse, ?_⟩
    rw [← hnotices]
    exact congrArg (fun state => Outcome.mk _ state _) hkept
  unfold discover Package.ownNotices
  rw [Act.state_bind, hpkg, Act.ofExcept_ok, Act.pure_bind]
  dsimp only
  rw [Act.result_when_notify, Act.notices_when_notify]
  simp only [Bool.not_true, Bool.false_eq_true, if_false]
  cases hdependencies : Hook.findAll t root pkg.dependencies marker none with
  | error e => exact ⟨[], .unloaded hdependencies, rfl⟩
  | ok misplaced =>
    rw [Act.ofExcept_ok, Act.pure_bind]
    cases misplaced with
    | cons hook more => exact ⟨[], .misplaced hdependencies, rfl⟩
    | nil =>
      cases hdeveloped : Hook.findAll t root pkg.devDependencies marker none with
      | error e => exact ⟨[], .undeveloped hdependencies hdeveloped, rfl⟩
      | ok hooks =>
        dsimp only
        rw [Act.ofExcept_ok, Act.pure_bind, Act.result_bind_pure, Act.notices_bind_pure]
        exact ⟨_, .checked hdependencies hdeveloped, rfl⟩

/-- **What a discovery takes**: the package file can be read, and if hooks are included, none of the
dependencies is a type hook, and the type hooks among the others pass. -/
theorem discover_ok_iff {hooks : List Hook} :
    (discover root marker includeHooks t).result = .ok hooks ↔
      ∃ pkg, Package.read t root = .ok pkg ∧ if includeHooks = true then
        Hook.findAll t root pkg.dependencies marker none = .ok [] ∧
          Hook.findAll t root pkg.devDependencies marker none = .ok hooks ∧
          ∀ hook ∈ hooks, ∀ d ∈ hook.dependencies, Hook.checkDependency t marker hook d = .ok ()
      else hooks = [] := by
  cases hpkg : Package.read t root with
  | error e => simp [discover_of_error hpkg]
  | ok pkg =>
    simp only [Except.ok.injEq, exists_eq_left']
    cases includeHooks with
    | false => simp [result_discover_alone hpkg, eq_comm]
    | true =>
      obtain ⟨_, _, hcourse, hdiscover⟩ := discover_course marker hpkg
      rw [if_pos rfl, hdiscover]
      cases hcourse with
      | unloaded dependencies => simp [dependencies]
      | misplaced dependencies => simp [dependencies]
      | undeveloped dependencies developed => simp [developed]
      | @checked found dependencies developed =>
        have hchecks := Act.forEach_ok_iff (s := t) fun hook (_ : hook ∈ found) =>
          Hook.keeps_check t marker (found.map (·.name)) hook
        simp only [Hook.check_ok_iff] at hchecks
        rw [dependencies, developed, and_iff_right rfl, Act.map_eq_ok_iff]
        constructor
        · rintro ⟨_, hall, rfl⟩
          exact ⟨rfl, hchecks.mp hall⟩
        · rintro ⟨heq, hall⟩
          obtain rfl := Except.ok.inj heq
          exact ⟨(), hchecks.mpr hall, rfl⟩

/-- **A collection fails** with what the search for the type hooks fails with. -/
theorem collect_of_error {config : Config} {e : Error}
    (hdirectory : t.isDirectoryAt config.root = true) (hinclude : config.includeHooks = true)
    (hpkg : Package.read t config.root = .ok pkg)
    (hnone : Hook.findAll t config.root pkg.dependencies config.hookMarker none = .ok [])
    (hfound : Hook.findAll t config.root pkg.devDependencies config.hookMarker none = .error e) :
    (collect config t).result = .error e := by
  have hdiscover :
      (discover config.root config.hookMarker config.includeHooks t).result = .error e := by
    obtain ⟨_, _, hcourse, hdiscover⟩ := discover_course config.hookMarker hpkg
    rw [hinclude, hdiscover]
    cases hcourse with
    | unloaded dependencies => simp [dependencies] at hnone
    | misplaced dependencies => simp [dependencies] at hnone
    | undeveloped _ developed => rw [← hfound, developed]
    | checked _ developed => simp [developed] at hfound
  unfold collect
  rw [Act.state_bind]
  dsimp only
  rw [hdirectory, Bool.not_true, if_neg Bool.false_ne_true, Act.bind_of_error hdiscover]

end Discovery

/-- **What a collection takes and gives.** -/
theorem collect_ok_iff {config : Config} {sources : List Source} :
    (collect config t).result = .ok sources ↔
      t.isDirectoryAt config.root = true ∧
        ∃ hooks, (discover config.root config.hookMarker config.includeHooks t).result = .ok hooks ∧
          sources = scan t config.root Entity.rootOwner ++
            (hooks.map fun hook => scan t hook.path hook.name).flatten := by
  unfold collect
  rw [Act.state_bind]
  cases hdirectory : t.isDirectoryAt config.root with
  | false => simp
  | true =>
    simp only [Bool.not_true, Bool.false_eq_true, if_false, true_and]
    have hkept : (discover config.root config.hookMarker config.includeHooks t).state = t :=
      keeps_discover _ _ _ t
    have hscans : ∀ hooks : List Hook, (Act.mapEach (fun hook : Hook =>
        (Act.notify (.includingHook hook.name) >>= fun _ =>
          pure (scan t hook.path hook.name) : Act FileTree (List Source))) hooks t).result =
        .ok (hooks.map fun hook => scan t hook.path hook.name) :=
      fun hooks => Act.result_mapEach_notify _ _ hooks t
    constructor
    · intro h
      obtain ⟨hooks, hhooks, h, _⟩ := Act.bind_result_ok h
      rw [hkept] at h
      obtain ⟨hooked, hhooked, h, _⟩ := Act.bind_result_ok h
      obtain rfl := Except.ok.inj (hhooked.symm.trans (hscans hooks))
      obtain ⟨_, _, h, _⟩ := Act.bind_result_ok h
      exact ⟨hooks, hhooks, (Except.ok.inj h).symm⟩
    · rintro ⟨hooks, hhooks, rfl⟩
      rw [Act.bind_of_ok hhooks, hkept, Act.bind_of_ok (hscans hooks)]
      rfl

/-! ### Loading -/

/-- A module whose content is text gives what is extracted from the text. -/
theorem result_load {source : Source} {content : ByteArray} {text : String}
    (hcontent : t.contentAt? source.path = some content)
    (hdecode : Text.Utf8.decode content = .ok text) :
    (load source t).result =
      (Entity.ofSource source.name source.relativePath source.kind source.owner text ()).result := by
  unfold load
  rw [Act.state_bind, hcontent]
  dsimp only
  rw [hdecode]
  dsimp only
  cases hread : (Entity.ofSource source.name source.relativePath source.kind source.owner text
    ()).result <;> simp [bind, hread, Except.map]

/-- A module is loaded from its content alone. -/
theorem load_of_same {source : Source} (h : t'.contentAt? source.path = t.contentAt? source.path) :
    (load source t').result = (load source t).result := by
  cases hcontent : t.contentAt? source.path with
  | none =>
    rw [hcontent] at h
    rw [load, Act.state_bind, Act.state_bind, h, hcontent]
    rfl
  | some content =>
    rw [hcontent] at h
    cases hdecode : Text.Utf8.decode content with
    | error fault =>
      rw [load, Act.state_bind, Act.state_bind, h, hcontent]
      dsimp only
      rw [hdecode]
      rfl
    | ok text => rw [result_load h hdecode, result_load hcontent hdecode]

theorem isSome_of_load {source : Source} {e : Entity} (h : (load source t).result = .ok e) :
    (t.contentAt? source.path).isSome = true := by
  unfold load at h
  rw [Act.state_bind] at h
  cases hcontent : t.contentAt? source.path with
  | none =>
    rw [hcontent] at h
    cases h
  | some content => rfl

/-! ### Preparing -/

section Prepare

variable {schedule : Schedule} {config : Config} {sources : List Source} {prepared : Registry × Pool}
  (h : (prepare schedule config t).result = .ok prepared)
  (hsources : (collect config t).result = .ok sources)

include h hsources

/-- Every module of what has been prepared could be read. -/
theorem isSome_of_prepare : ∀ source ∈ sources, (t.contentAt? source.path).isSome = true := by
  obtain ⟨registry, pool⟩ := prepared
  obtain ⟨sources', loaded, hcollected, hloaded, _⟩ := prepare_ok_iff.mp h
  obtain rfl := Except.ok.inj (hcollected.symm.trans hsources)
  obtain ⟨filled, hfilled, _⟩ := Act.bind_result_ok hloaded
  intro source hsource
  obtain ⟨i, hi, hget⟩ := List.getElem_of_mem hsource
  obtain ⟨e, he⟩ := exists_load_of_fillSlots hfilled
    ((schedule.perm _).mem_iff.mpr (List.mem_range.mpr hi)) (hget ▸ List.getElem?_eq_getElem hi)
  exact isSome_of_load he

/-- **The same is prepared** in a tree with the same modules that read the same. -/
theorem prepare_of_same (hcollect : (collect config t').result = .ok sources)
    (hsame : ∀ source ∈ sources, t'.contentAt? source.path = t.contentAt? source.path) :
    (prepare schedule config t').result = .ok prepared := by
  obtain ⟨registry, pool⟩ := prepared
  obtain ⟨sources', loaded, hcollected, hloaded, hbuilds⟩ := prepare_ok_iff.mp h
  obtain rfl := Except.ok.inj (hcollected.symm.trans hsources)
  refine prepare_ok_iff.mpr ⟨sources', loaded, hcollect, ?_, hbuilds⟩
  obtain ⟨filled, hfilled, hdone, _⟩ := Act.bind_result_ok hloaded
  have hfilled' := (fillSlots_congr fun source hsource => load_of_same (hsame source hsource)).trans
    hfilled
  rw [loadAll, Act.bind_of_ok hfilled']
  exact hdone

end Prepare

end Rigging.Project
