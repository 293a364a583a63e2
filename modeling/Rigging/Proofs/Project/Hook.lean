import Rigging.Proofs.Project.Discover

/-!
# How discovery fails

Discovery reads package files that others have written.  A file that is missing, that is not JSON or
that holds no object is a trouble of the project, and so is a type hook in the wrong place.  One trouble
is not: a package file that can be read, but in which a name is no text (`Package.Misnamed`).
`discover_family` says when discovery comes to such a package, at any of the three levels that it
looks at, and that nothing else ends it with an error of another family.
-/

namespace Rigging.Project

open Rigging.Path FileTree

variable {α : Type} {t : FileTree}

/-! ### Package files -/

namespace Package

/-- A value that a name may have in a package file: a text, or nothing. -/
def isTextOrNull : Json → Bool
  | .null => true
  | .string _ => true
  | _ => false

/-- The name that a package gives to its hook. -/
def hookName (pkg : Package) : Json := ((pkg.get "sails").get? "hookName").getD .null

/-- A package file with a name that is no text: its own name is given as something else, or the name
of its hook is, or no name is given to the hook, so that the package's own has to stand in for it, and
that is something else. -/
def Misnamed (pkg : Package) : Prop :=
  ((pkg.get "name").truthy = true ∧ isTextOrNull (pkg.get "name") = false) ∨
    (pkg.hookName.truthy = true ∧ isTextOrNull pkg.hookName = false) ∨
    (pkg.hookName.truthy = false ∧ isTextOrNull (pkg.get "name") = false)

/-- All that can be wrong with reading a package file is a trouble of the project. -/
theorem family_of_read {directory : String} {e : Error} (h : read t directory = .error e) :
    e.family = .project := by
  unfold read at h
  dsimp only at h
  split at h
  · rw [← Except.error.inj h]
    rfl
  · unfold ofContent at h
    -- not text, not JSON, an object, another value
    split at h
    · rw [← Except.error.inj h]
      rfl
    · split at h
      · rw [← Except.error.inj h]
        rfl
      · cases h
      · rw [← Except.error.inj h]
        rfl

/-- A package file that can be read is there. -/
theorem isFileAt_of_read {directory : String} {pkg : Package} (h : read t directory = .ok pkg) :
    t.isFileAt (join directory packageFile) = true := by
  unfold read at h
  dsimp only at h
  unfold isFileAt
  split at h
  · cases h
  · rename_i hcontent
    rw [hcontent]
    rfl

end Package

/-! ### Results -/

/-- A result that is an error about unfit fields. -/
def Unfit (x : Except Error α) : Prop := ∃ e, x = .error e ∧ e.family = .fields

@[simp] theorem not_unfit_ok (a : α) : ¬Unfit (.ok a) := by
  rintro ⟨e, he, _⟩
  cases he

@[simp] theorem unfit_error {e : Error} : Unfit (.error e : Except Error α) ↔ e.family = .fields := by
  constructor
  · rintro ⟨e', he, hfamily⟩
    rwa [Except.error.inj he]
  · intro hfamily
    exact ⟨e, rfl, hfamily⟩

/-! ### Names that are no texts -/

theorem textField_error_iff (field : String) (v : Json) :
    (∃ fault, textField field v = .error fault) ↔ v.string? = none := by
  cases v <;> simp [textField, Json.string?]

theorem textField?_error_iff (field : String) (v : Json) :
    (∃ fault, textField? field v = .error fault) ↔ Package.isTextOrNull v = false := by
  cases v <;> simp [textField?, textField, Package.isTextOrNull, Functor.map, Except.map]

theorem string?_firstGiven (v : Json) (s : String) :
    (firstGiven v (.string s)).string? = none ↔ v.truthy = true ∧ Package.isTextOrNull v = false := by
  unfold firstGiven
  cases htruthy : v.truthy with
  | false => simp [Json.string?]
  | true => cases v <;> simp_all [Json.truthy, Json.string?, Package.isTextOrNull]

theorem isTextOrNull_firstGiven (v w : Json) :
    Package.isTextOrNull (firstGiven v w) = false ↔
      (v.truthy = true ∧ Package.isTextOrNull v = false) ∨
        (v.truthy = false ∧ Package.isTextOrNull w = false) := by
  unfold firstGiven
  cases v.truthy <;> simp

namespace Hook

variable {project name marker : String} {parent : Option String}

/-- **A package gives a hook, or has unfit fields**, and that just if it is misnamed. -/
theorem ofPackage_cases (path installedAs marker : String) (parent : Option String) (pkg : Package) :
    (∃ hook, ofPackage path installedAs marker parent pkg = .ok hook) ∧ ¬pkg.Misnamed ∨
      Unfit (ofPackage path installedAs marker parent pkg) ∧ pkg.Misnamed := by
  have hname := (textField_error_iff "name" _).trans (string?_firstGiven (pkg.get "name") installedAs)
  have hhook := (textField?_error_iff "hook_name" _).trans
    (isTextOrNull_firstGiven pkg.hookName (pkg.get "name"))
  have hmisnamed : pkg.Misnamed ↔ _ ∨ _ := or_congr hname.symm hhook.symm
  rw [hmisnamed]
  unfold ofPackage Package.hookName
  dsimp only
  split
  · rename_i hn hh
    rw [hn, hh]
    exact .inl ⟨⟨_, rfl⟩, by simp⟩
  · rename_i hn hh
    rw [hn]
    exact .inr ⟨⟨_, rfl, rfl⟩, .inl ⟨_, rfl⟩⟩
  · rename_i hn hh
    rw [hn]
    exact .inr ⟨⟨_, rfl, rfl⟩, .inl ⟨_, rfl⟩⟩
  · rename_i hn hh
    rw [hh]
    exact .inr ⟨⟨_, rfl, rfl⟩, .inr ⟨_, rfl⟩⟩

/-- An installed package in which all names are texts. -/
def IsNamedAt (t : FileTree) (project name : String) : Prop :=
  ∃ pkg, Package.read t (directory project name) = .ok pkg ∧ ¬pkg.Misnamed

/-- An installed package that is misnamed. -/
def IsMisnamedAt (t : FileTree) (project name : String) : Prop :=
  ∃ pkg, Package.read t (directory project name) = .ok pkg ∧ pkg.Misnamed

theorem load_of_read {pkg : Package} (h : Package.read t (directory project name) = .ok pkg) :
    load t project name marker parent =
      ofPackage (directory project name) name marker parent pkg := by
  unfold load
  dsimp only
  rw [Package.isFileAt_of_read h, Bool.not_true, if_neg Bool.false_ne_true, h]
  rfl

theorem load_of_unread (marker : String) (parent : Option String) {e : Error}
    (h : Package.read t (directory project name) = .error e) :
    ∃ e', load t project name marker parent = .error e' ∧ e'.family = .project := by
  unfold load
  dsimp only
  split
  · exact ⟨_, rfl, rfl⟩
  · rw [h]
    exact ⟨e, rfl, Package.family_of_read h⟩

theorem load_ok_iff :
    (∃ hook, load t project name marker parent = .ok hook) ↔ IsNamedAt t project name := by
  unfold IsNamedAt
  cases hread : Package.read t (directory project name) with
  | error e =>
    obtain ⟨e', hload, _⟩ := load_of_unread marker parent hread
    simp [hload]
  | ok pkg =>
    rw [load_of_read hread]
    rcases ofPackage_cases (directory project name) name marker parent pkg with
      ⟨⟨hook, hhook⟩, hnamed⟩ | ⟨⟨e, he, _⟩, hmisnamed⟩
    · simp [hhook, hnamed]
    · simp [he, hmisnamed]

theorem unfit_load_iff :
    Unfit (load t project name marker parent) ↔ IsMisnamedAt t project name := by
  unfold IsMisnamedAt
  cases hread : Package.read t (directory project name) with
  | error e =>
    obtain ⟨e', hload, hfamily⟩ := load_of_unread marker parent hread
    simp [hload, hfamily]
  | ok pkg =>
    rw [load_of_read hread]
    rcases ofPackage_cases (directory project name) name marker parent pkg with
      ⟨⟨hook, hhook⟩, hnamed⟩ | ⟨hunfit, hmisnamed⟩
    · simp [hhook, hnamed]
    · simp [hunfit, hmisnamed]

/-- Loading a package fails with a trouble of the project, or of the package's fields. -/
theorem family_of_load {e : Error} (h : load t project name marker parent = .error e) :
    e.family = .project ∨ e.family = .fields := by
  cases hread : Package.read t (directory project name) with
  | error e' =>
    obtain ⟨e'', hload, hfamily⟩ := load_of_unread marker parent hread
    obtain rfl := Except.error.inj (h.symm.trans hload)
    exact .inl hfamily
  | ok pkg =>
    rw [load_of_read hread] at h
    rcases ofPackage_cases (directory project name) name marker parent pkg with
      ⟨⟨hook, hhook⟩, _⟩ | ⟨⟨e', he, hfamily⟩, _⟩
    · rw [hhook] at h
      cases h
    · obtain rfl := Except.error.inj (h.symm.trans he)
      exact .inr hfamily

/-- The search for the type hooks ends with unfit fields when it comes to a misnamed package. -/
theorem unfit_findAll_iff {names : List String} :
    Unfit (findAll t project names marker parent) ↔
      ComesTo (IsNamedAt t project) (IsMisnamedAt t project) names := by
  have hload : ∀ name, Unfit (load t project name marker parent) ↔ IsMisnamedAt t project name :=
    fun _ => unfit_load_iff
  refine Iff.trans ?_ (mapM_error_iff.trans (comesTo_congr (fun _ => load_ok_iff) hload))
  unfold findAll
  cases names.mapM fun name => load t project name marker parent <;>
    simp [Unfit, bind, Except.bind, pure, Except.pure]

theorem family_of_findAll {names : List String} {e : Error}
    (h : findAll t project names marker parent = .error e) :
    e.family = .project ∨ e.family = .fields := by
  unfold findAll at h
  cases hall : names.mapM fun name => load t project name marker parent with
  | ok hooks =>
    rw [hall] at h
    cases h
  | error e' =>
    rw [hall] at h
    obtain rfl := Except.error.inj h
    obtain ⟨_, _, _, _, _, _, hload, rfl⟩ := mapM_error_iff.mp ⟨e', hall, rfl⟩
    exact family_of_load hload

/-- A dependency of a hook is passed over when it cannot be read, but not when it is misnamed. -/
theorem unfit_checkDependency_iff {hook : Hook} {dependency : String} :
    Unfit (checkDependency t marker hook dependency) ↔ IsMisnamedAt t hook.path dependency := by
  rw [← @unfit_load_iff _ _ _ marker (some hook.name)]
  unfold checkDependency
  cases load t hook.path dependency marker (some hook.name) with
  | ok nested =>
    dsimp only
    split
    · simp [Error.family]
    · simp
  | error e =>
    dsimp only
    split
    · rename_i hfamily
      simp [hfamily]
    · rw [unfit_error, unfit_error]

theorem family_of_checkDependency {hook : Hook} {dependency : String} {e : Error}
    (h : checkDependency t marker hook dependency = .error e) :
    e.family = .project ∨ e.family = .fields := by
  unfold checkDependency at h
  split at h
  · split at h
    · rw [← Except.error.inj h]
      exact .inl rfl
    · cases h
  · rename_i hload
    split at h
    · cases h
    · obtain rfl := Except.error.inj h
      exact family_of_load hload

/-- The check of a hook ends with unfit fields when it comes to a misnamed dependency. -/
theorem unfit_check_iff {installed : List String} {hook : Hook} {s : FileTree} :
    Unfit (check t marker installed hook s).result ↔
      ComesTo (fun d => checkDependency t marker hook d = .ok ()) (IsMisnamedAt t hook.path)
        hook.dependencies := by
  rw [result_check]
  refine (Act.forEach_error_iff fun d _ => Act.keeps_ofExcept _).trans ?_
  simp only [Act.result_ofExcept]
  exact comesTo_congr (fun _ => Iff.rfl) fun _ => unfit_checkDependency_iff

theorem fails_check (t : FileTree) (marker : String) (installed : List String) (hook : Hook) :
    Act.Fails (fun e => e.family = .project ∨ e.family = .fields) (check t marker installed hook) := by
  refine Act.fails_bind (Act.fails_forEach fun d _ => ?_) fun _ => Act.fails_forEach fun d _ => ?_
  · exact Act.fails_ofExcept fun _ h => family_of_checkDependency h
  · split
    · exact Act.fails_notify _
    · exact Act.fails_pure _

end Hook

/-! ### Discovery -/

/-- Where a discovery comes to a misnamed package: among the dependencies; or, when none of those is a
type hook, among the development dependencies; or else among the dependencies of a type hook. -/
def MeetsMisnamed (t : FileTree) (root marker : String) (pkg : Package) : Prop :=
  ComesTo (Hook.IsNamedAt t root) (Hook.IsMisnamedAt t root) pkg.dependencies ∨
    Hook.findAll t root pkg.dependencies marker none = .ok [] ∧
      (ComesTo (Hook.IsNamedAt t root) (Hook.IsMisnamedAt t root) pkg.devDependencies ∨
        ∃ hooks, Hook.findAll t root pkg.devDependencies marker none = .ok hooks ∧
          ComesTo (fun hook => ∀ d ∈ hook.dependencies, Hook.checkDependency t marker hook d = .ok ())
            (fun hook => ComesTo (fun d => Hook.checkDependency t marker hook d = .ok ())
              (Hook.IsMisnamedAt t hook.path) hook.dependencies) hooks)

theorem fails_discover (root marker : String) (includeHooks : Bool) :
    Act.Fails (fun e => e.family = .project ∨ e.family = .fields)
      (discover root marker includeHooks) := by
  refine Act.fails_bind Act.fails_state fun t => ?_
  refine Act.fails_bind (Act.fails_ofExcept fun e he => .inl (Package.family_of_read he)) fun pkg => ?_
  refine Act.fails_when (Act.fails_notify _) ?_
  split
  · exact Act.fails_pure _
  · refine Act.fails_bind (Act.fails_ofExcept fun e he => Hook.family_of_findAll he) fun misplaced => ?_
    split
    · exact Act.fails_fail (.inl rfl)
    · refine Act.fails_bind (Act.fails_ofExcept fun e he => Hook.family_of_findAll he) fun hooks => ?_
      exact Act.fails_bind (Act.fails_forEach fun hook _ => Hook.fails_check t _ _ hook) fun _ =>
        Act.fails_pure _

/-- The check of the type hooks comes to the first one that is not fit. -/
theorem unfit_checks_iff {marker : String} {hooks : List Hook} (installed : List String) :
    Unfit ((Act.forEach (Hook.check t marker installed) hooks t).result.map fun _ => hooks) ↔
      ComesTo (fun hook => ∀ d ∈ hook.dependencies, Hook.checkDependency t marker hook d = .ok ())
        (fun hook => ComesTo (fun d => Hook.checkDependency t marker hook d = .ok ())
          (Hook.IsMisnamedAt t hook.path) hook.dependencies) hooks := by
  refine Iff.trans ?_ ((Act.forEach_error_iff (s := t) fun hook _ =>
    Hook.keeps_check t marker installed hook).trans
      (comesTo_congr (fun _ => Hook.check_ok_iff) fun _ => Hook.unfit_check_iff))
  cases (Act.forEach (Hook.check t marker installed) hooks t).result <;> simp [Except.map]

theorem unfit_discover_iff {root marker : String} {includeHooks : Bool} :
    Unfit (discover root marker includeHooks t).result ↔
      includeHooks = true ∧ ∃ pkg, Package.read t root = .ok pkg ∧ MeetsMisnamed t root marker pkg := by
  cases hpkg : Package.read t root with
  | error e => simp [discover_of_error hpkg, Package.family_of_read hpkg]
  | ok pkg =>
    simp only [Except.ok.injEq, exists_eq_left']
    cases includeHooks with
    | false => simp [result_discover_alone hpkg]
    | true =>
      -- each part either fails, and its own cases decide, or leaves the decision to the next one
      obtain ⟨_, _, hcourse, hdiscover⟩ := discover_course marker hpkg
      rw [hdiscover, and_iff_right rfl, MeetsMisnamed,
        ← @Hook.unfit_findAll_iff t root marker none pkg.dependencies,
        ← @Hook.unfit_findAll_iff t root marker none pkg.devDependencies]
      cases hcourse with
      | unloaded dependencies => simp [dependencies]
      | misplaced dependencies => simp [dependencies, Error.family]
      | undeveloped dependencies developed => simp [dependencies, developed]
      | @checked hooks dependencies developed =>
        simpa [dependencies, developed] using unfit_checks_iff (hooks.map (·.name))

/-- **How discovery fails.**  It gives the type hooks, or it fails with a trouble of the project, or
with unfit fields; and the last just if the type hooks are asked for, the package file of the project
can be read, and the discovery comes to a package in which a name is no text. -/
theorem discover_family (t : FileTree) (root marker : String) (includeHooks : Bool) :
    (∀ e, (discover root marker includeHooks t).result = .error e →
        e.family = .project ∨ e.family = .fields) ∧
      ((∃ e, (discover root marker includeHooks t).result = .error e ∧ e.family = .fields) ↔
        includeHooks = true ∧
          ∃ pkg, Package.read t root = .ok pkg ∧ MeetsMisnamed t root marker pkg) :=
  ⟨fails_discover root marker includeHooks t, unfit_discover_iff⟩

/-- A project with a dependency that is named by a number. -/
def numberedProject : FileTree :=
  ⟨[(["p"], .directory),
    (["p", "package.json"], .file "\x7b\"dependencies\": \x7b\"leash\": \"1\"\x7d\x7d".toUTF8),
    (["p", "node_modules"], .directory), (["p", "node_modules", "leash"], .directory),
    (["p", "node_modules", "leash", "package.json"], .file "\x7b\"name\": 5\x7d".toUTF8)]⟩

/-- A dependency that is no hook at all can end a discovery with something else than a trouble of the
project. -/
theorem discover_numberedProject :
    (discover "/p" defaultMarker true numberedProject).result =
      .error (.unfitFields [(.notString, ["name"]), (.notString, ["hook_name"])]) := by
  decide +kernel

end Rigging.Project
