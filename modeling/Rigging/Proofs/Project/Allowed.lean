import Rigging.Proofs.Project.Hook

/-!
# Which projects are allowed

A type hook is known by its package file alone (`Package.isTypeHook`).  A project is allowed if all
packages that it lists are installed, no dependency is a type hook, and no type hook among the
development dependencies brings one of its own (`Allowed`).  Where all names in package files are
texts, discovery succeeds for just these projects and gives the type hooks among the development
dependencies (`discover_ok_iff_allowed`).  Package files are read at three levels: at the first two a
file that cannot be read is an error, at the third one it is passed over.
-/

namespace Rigging.Project

open Rigging.Path FileTree

variable {t : FileTree}

/-! ### Package files -/

namespace Package

/-- The members of a JSON object in a file, if the file holds one. -/
def members? (content : ByteArray) : Option Package :=
  match Text.Utf8.decode content with
  | .error _ => none
  | .ok text =>
    match Json.parse text with
    | .ok (.object members) => some members
    | _ => none

/-- The package file of a directory, if it holds a JSON object. -/
def at? (t : FileTree) (directory : String) : Option Package :=
  (t.contentAt? (join directory packageFile)).bind members?

/-- Whether a package is a type hook: it is flagged as a hook and depends on the marker. -/
def isTypeHook (marker : String) (pkg : Package) : Bool :=
  (((pkg.get "sails").get? "isHook").getD .null).truthy && pkg.dependencies.contains marker

theorem read_ok_iff {directory : String} {pkg : Package} :
    read t directory = .ok pkg ↔ at? t directory = some pkg := by
  unfold read at?
  dsimp only
  cases t.contentAt? (join directory packageFile) with
  | none => simp
  | some content =>
    simp only [Option.bind_some, ofContent, members?]
    cases Text.Utf8.decode content with
    | error fault => simp
    | ok text =>
      dsimp only
      cases Json.parse text with
      | error fault => simp
      | ok v => cases v <;> simp

theorem exists_read_error {directory : String} (h : at? t directory = none) :
    ∃ e, read t directory = .error e := by
  cases hread : read t directory with
  | error e => exact ⟨e, rfl⟩
  | ok pkg =>
    rw [read_ok_iff.mp hread] at h
    cases h

/-- A package in which a name is a text or is not given. -/
def WellNamed (pkg : Package) : Prop :=
  isTextOrNull (pkg.get "name") = true ∧ isTextOrNull pkg.hookName = true

instance (pkg : Package) : Decidable pkg.WellNamed :=
  inferInstanceAs (Decidable (_ ∧ _))

end Package

/-! ### Installed packages -/

/-- A text that is given and not empty. -/
def givenText? : Json → Option String
  | .string s => if s = "" then none else some s
  | _ => none

namespace Hook

variable {project name marker : String} {parent : Option String} {pkg : Package}

/-- What there is to know of an installed package. -/
def describe (project installedAs marker : String) (parent : Option String) (pkg : Package) :
    Hook where
  name := (givenText? (pkg.get "name")).getD installedAs
  path := directory project installedAs
  hookName := (givenText? pkg.hookName).or (pkg.get "name").string?
  isHook := (((pkg.get "sails").get? "isHook").getD .null).truthy
  isTypeHook := pkg.isTypeHook marker
  dependencies := pkg.dependencies
  devDependencies := pkg.devDependencies
  parent := parent

theorem textField_firstGiven {v : Json} (h : Package.isTextOrNull v = true) (field s : String) :
    textField field (firstGiven v (.string s)) = .ok ((givenText? v).getD s) := by
  cases v with
  | null => rfl
  | string r => by_cases hr : r = "" <;> simp [firstGiven, givenText?, Json.truthy, textField, hr]
  | _ => cases h

theorem textField?_firstGiven {v w : Json} (hv : Package.isTextOrNull v = true)
    (hw : Package.isTextOrNull w = true) (field : String) :
    textField? field (firstGiven v w) = .ok ((givenText? v).or w.string?) := by
  have hother : textField? field w = .ok w.string? := by
    cases w with
    | null => rfl
    | string r => rfl
    | _ => cases hw
  cases v with
  | null => exact hother
  | string r =>
    by_cases hr : r = ""
    · simpa [firstGiven, givenText?, Json.truthy, hr] using hother
    · simp [firstGiven, givenText?, Json.truthy, hr, textField?, textField]
  | _ => cases hv

theorem ofPackage_of_wellNamed (h : pkg.WellNamed) :
    ofPackage (directory project name) name marker parent pkg =
      .ok (describe project name marker parent pkg) := by
  have hname := textField_firstGiven h.1 "name" name
  have hhook := textField?_firstGiven h.2 h.1 "hook_name"
  unfold Package.hookName at hhook
  unfold ofPackage
  dsimp only
  rw [hname, hhook]
  rfl

end Hook

/-- In every package file that can be read the names are texts, or are not given. -/
def NamesTexts (t : FileTree) : Prop :=
  ∀ directory pkg, Package.at? t directory = some pkg → pkg.WellNamed

/-- It is enough to look at the files of the tree. -/
theorem namesTexts_of_entries
    (h : ∀ e ∈ t.entries, ∀ content ∈ t.content? e.1, ∀ pkg ∈ Package.members? content,
      pkg.WellNamed) : NamesTexts t := by
  intro directory pkg hpkg
  obtain ⟨content, hcontent, hmembers⟩ := Option.bind_eq_some_iff.mp hpkg
  unfold contentAt? at hcontent
  split at hcontent
  · rename_i place _
    have hne : place ≠ [] := by
      rintro rfl
      cases hcontent
    have hsome : (t.get? place).isSome = true := by
      unfold content? at hcontent
      split at hcontent
      · rename_i hget
        rw [hget]
        rfl
      · cases hcontent
    obtain ⟨e, he, rfl⟩ := List.mem_map.mp ((isSome_get?_iff hne).mp hsome)
    exact h e he content hcontent pkg hmembers
  · cases hcontent

/-- The type hook that is installed under a name, if there is one. -/
def typeHook? (t : FileTree) (project marker name : String) : Option Hook :=
  ((Package.at? t (Hook.directory project name)).filter (Package.isTypeHook marker)).map
    (Hook.describe project name marker none)

section Levels

variable (hnamed : NamesTexts t) {project name marker : String} {parent : Option String}

include hnamed

theorem Hook.load_of_at? {pkg : Package} (h : Package.at? t (directory project name) = some pkg) :
    load t project name marker parent = .ok (describe project name marker parent pkg) := by
  rw [load_of_read (Package.read_ok_iff.mpr h), ofPackage_of_wellNamed (hnamed _ _ h)]

/-- **The search for type hooks** finds them all if every package is installed, and fails if one is
not. -/
theorem Hook.findAll_ok_iff {names : List String} {hooks : List Hook} :
    findAll t project names marker none = .ok hooks ↔
      (∀ name ∈ names, ∃ pkg, Package.at? t (directory project name) = some pkg) ∧
        hooks = names.filterMap (typeHook? t project marker) := by
  induction names generalizing hooks with
  | nil => simp [findAll, pure, Except.pure, bind, Except.bind, eq_comm]
  | cons name names ih =>
    rw [List.forall_mem_cons]
    cases hpkg : Package.at? t (directory project name) with
    | none =>
      obtain ⟨e, he⟩ := Package.exists_read_error hpkg
      obtain ⟨e', he', _⟩ := load_of_unread marker none he
      simp [findAll, List.mapM_cons, he', bind, Except.bind]
    | some pkg =>
      have hload : load t project name marker none = .ok _ := load_of_at? hnamed hpkg
      have htype : typeHook? t project marker name =
          if pkg.isTypeHook marker then some (describe project name marker none pkg) else none := by
        rw [typeHook?, hpkg, Option.filter_some]
        split <;> rfl
      have hcons : findAll t project (name :: names) marker none =
          (findAll t project names marker none).map fun hooks =>
            if pkg.isTypeHook marker then describe project name marker none pkg :: hooks
            else hooks := by
        unfold findAll
        rw [List.mapM_cons, hload]
        cases names.mapM fun name => load t project name marker none with
        | error e => rfl
        | ok rest =>
          simp only [bind, Except.bind, pure, Except.pure, Except.map, List.filter_cons]
          rfl
      rw [hcons, List.filterMap_cons, htype]
      constructor
      · intro h
        cases hrest : findAll t project names marker none with
        | error e =>
          rw [hrest] at h
          cases h
        | ok rest =>
          rw [hrest] at h
          obtain ⟨hinstalled, rfl⟩ := ih.mp hrest
          refine ⟨⟨⟨pkg, rfl⟩, hinstalled⟩, ?_⟩
          rw [← Except.ok.inj h]
          split <;> rfl
      · rintro ⟨⟨_, hinstalled⟩, rfl⟩
        rw [ih.mpr ⟨hinstalled, rfl⟩]
        dsimp only [Except.map]
        split <;> rfl

/-- A dependency of a hook passes unless it is installed below the hook as a type hook. -/
theorem Hook.checkDependency_ok_iff {hook : Hook} {dependency : String} :
    checkDependency t marker hook dependency = .ok () ↔
      ∀ pkg, Package.at? t (directory hook.path dependency) = some pkg →
        pkg.isTypeHook marker = false := by
  unfold checkDependency
  cases hpkg : Package.at? t (directory hook.path dependency) with
  | none =>
    obtain ⟨e, he⟩ := Package.exists_read_error hpkg
    obtain ⟨e', he', hfamily⟩ := load_of_unread marker (some hook.name) he
    rw [he']
    simp [hfamily]
  | some pkg =>
    rw [load_of_at? hnamed hpkg]
    dsimp only [describe]
    cases htype : pkg.isTypeHook marker <;> simp [htype]

end Levels

/-! ### Discovery -/

/-- The projects that are allowed, by the package file of the project. -/
structure Allowed (t : FileTree) (root marker : String) (pkg : Package) : Prop where
  /-- Everything that the project lists is installed. -/
  installed : ∀ name ∈ pkg.dependencies ++ pkg.devDependencies,
    ∃ p, Package.at? t (Hook.directory root name) = some p
  /-- No dependency is a type hook. -/
  placed : ∀ name ∈ pkg.dependencies, ∀ p, Package.at? t (Hook.directory root name) = some p →
    p.isTypeHook marker = false
  /-- Below a type hook among the development dependencies, none of its dependencies is one. -/
  flat : ∀ name ∈ pkg.devDependencies, ∀ p, Package.at? t (Hook.directory root name) = some p →
    p.isTypeHook marker = true → ∀ d ∈ p.dependencies, ∀ q,
      Package.at? t (Hook.directory (Hook.directory root name) d) = some q →
        q.isTypeHook marker = false

theorem typeHook?_eq_some {root marker name : String} {hook : Hook} :
    typeHook? t root marker name = some hook ↔
      ∃ pkg, Package.at? t (Hook.directory root name) = some pkg ∧ pkg.isTypeHook marker = true ∧
        Hook.describe root name marker none pkg = hook := by
  simp only [typeHook?, Option.map_eq_some_iff, Option.filter_eq_some_iff, and_assoc]

/-- **Discovery accepts just the allowed projects.**  It gives the type hooks among the development
dependencies, in the order in which they are listed.  If hooks are not asked for, only the package
file of the project matters. -/
theorem discover_ok_iff_allowed (hnamed : NamesTexts t) (root marker : String) (hooks : List Hook) :
    ((discover root marker true t).result = .ok hooks ↔
      ∃ pkg, Package.at? t root = some pkg ∧ Allowed t root marker pkg ∧
        hooks = pkg.devDependencies.filterMap (typeHook? t root marker)) ∧
    ((discover root marker false t).result = .ok hooks ↔
      (∃ pkg, Package.at? t root = some pkg) ∧ hooks = []) := by
  rw [discover_ok_iff, discover_ok_iff]
  simp only [if_true, Bool.false_eq_true, if_false, Package.read_ok_iff, Hook.findAll_ok_iff hnamed,
    Hook.checkDependency_ok_iff hnamed, exists_and_right, and_true]
  refine exists_congr fun pkg => and_congr_right fun _ => ?_
  constructor
  · rintro ⟨⟨hdependencies, hnone⟩, ⟨hdev, rfl⟩, hchecked⟩
    refine ⟨⟨fun name hname => ?_, fun name hname p hp => ?_, fun name hname p hp htype => ?_⟩, rfl⟩
    · exact (List.mem_append.mp hname).elim (hdependencies name) (hdev name)
    · have hfree := List.filterMap_eq_nil_iff.mp hnone.symm name hname
      cases htype : p.isTypeHook marker with
      | false => rfl
      | true =>
        rw [typeHook?_eq_some.mpr ⟨p, hp, htype, rfl⟩] at hfree
        cases hfree
    · have hfound := typeHook?_eq_some.mpr ⟨p, hp, htype, rfl⟩
      exact hchecked _ (List.mem_filterMap.mpr ⟨name, hname, hfound⟩)
  · rintro ⟨hallowed, rfl⟩
    refine ⟨⟨fun name hname => hallowed.installed name (List.mem_append_left _ hname), ?_⟩,
      ⟨fun name hname => hallowed.installed name (List.mem_append_right _ hname), rfl⟩, ?_⟩
    · refine (List.filterMap_eq_nil_iff.mpr fun name hname => ?_).symm
      refine Option.eq_none_iff_forall_ne_some.mpr fun hook hhook => ?_
      obtain ⟨p, hp, htype, _⟩ := typeHook?_eq_some.mp hhook
      rw [hallowed.placed name hname p hp] at htype
      cases htype
    · intro hook hhook
      obtain ⟨name, hname, hfound⟩ := List.mem_filterMap.mp hhook
      obtain ⟨p, hp, htype, rfl⟩ := typeHook?_eq_some.mp hfound
      exact hallowed.flat name hname p hp htype

/-- A project with a type hook among its development dependencies.  The marker is not installed. -/
def petsProject : FileTree :=
  ⟨[(["p"], .directory),
    (["p", "package.json"], .file ("\x7b\"dependencies\":\x7b\"leash\":1\x7d," ++
      "\"devDependencies\":\x7b\"pets\":1\x7d\x7d").toUTF8),
    (["p", "node_modules"], .directory), (["p", "node_modules", "leash"], .directory),
    (["p", "node_modules", "leash", "package.json"], .file "\x7b\x7d".toUTF8),
    (["p", "node_modules", "pets"], .directory),
    (["p", "node_modules", "pets", "package.json"], .file ("\x7b\"sails\":\x7b\"isHook\":1\x7d," ++
      "\"dependencies\":\x7b\"marlinspike\":1\x7d\x7d").toUTF8)]⟩

/-- The project is allowed, and its hook is found. -/
theorem discover_ok_iff_allowed_petsProject :
    NamesTexts petsProject ∧
      (discover "/p" defaultMarker true petsProject).result =
        .ok [⟨"pets", "/p/node_modules/pets", none, true, true, ["marlinspike"], [], none⟩] ∧
      ∃ pkg, Package.at? petsProject "/p" = some pkg ∧ Allowed petsProject "/p" defaultMarker pkg := by
  have hnamed : NamesTexts petsProject := namesTexts_of_entries (by decide +kernel)
  have hfound : (discover "/p" defaultMarker true petsProject).result =
      .ok [⟨"pets", "/p/node_modules/pets", none, true, true, ["marlinspike"], [], none⟩] := by
    decide +kernel
  obtain ⟨pkg, hpkg, hallowed, _⟩ := (discover_ok_iff_allowed hnamed "/p" defaultMarker _).1.mp hfound
  exact ⟨hnamed, hfound, pkg, hpkg, hallowed⟩

end Rigging.Project
