import Rigging.Proofs.Project.Hook

/-!
# Hooks that are reported as missing

A type hook names the packages that its developers need.  Discovery reports those that look like hooks
and by whose name it has found no type hook (`missingHook_mem_discover_iff`), and the report says that
the project does not list them.  That is not the same: a package that is listed may be no type hook, or
give itself another name.  `missingHook_truthful_iff` says for which projects all reports are true.
-/

namespace Rigging

namespace Project

variable {t : FileTree} {root marker : String}

namespace Hook

/-- A hook none of whose dependencies is refused. -/
def Passes (t : FileTree) (marker : String) (hook : Hook) : Prop :=
  ∀ d ∈ hook.dependencies, checkDependency t marker hook d = .ok ()

/-- A hook whose developers need a package that looks like a hook. -/
def AsksFor (hook : Hook) (name : String) : Prop :=
  name ∈ hook.devDependencies ∧ looksLikeHook name = true

section Check

variable {installed : List String} {hook : Hook} {s : FileTree} {n : Notice}

/-- What the developers of a hook need is reported unless it is installed. -/
theorem mem_notices_needs :
    n ∈ (Act.forEach (fun d =>
        if looksLikeHook d && !installed.contains d then Act.notify (.missingHook hook.name d)
        else pure ()) hook.devDependencies s).notices ↔
      ∃ d, hook.AsksFor d ∧ d ∉ installed ∧ n = .missingHook hook.name d := by
  have hstep : ∀ d : String,
      n ∈ ((if looksLikeHook d && !installed.contains d then
          Act.notify (.missingHook hook.name d) else pure () : Act FileTree Unit) s).notices ↔
        looksLikeHook d = true ∧ d ∉ installed ∧ n = .missingHook hook.name d := by
    intro d
    split <;> simp_all
  rw [Act.mem_notices_forEach, comesTo_of_forall]
  · simp only [hstep, AsksFor, and_assoc]
  · intro d _
    split <;> rfl
  · intro d _
    split
    · exact Act.keeps_notify _
    · exact Act.keeps_pure _

/-- A hook that does not pass is left before anything is reported. -/
theorem mem_notices_check :
    n ∈ (check t marker installed hook s).notices ↔
      hook.Passes t marker ∧ ∃ d, hook.AsksFor d ∧ d ∉ installed ∧ n = .missingHook hook.name d := by
  have hlooks : ∀ d ∈ hook.dependencies,
      Act.Keeps id (Act.ofExcept (checkDependency t marker hook d) : Act FileTree Unit) :=
    fun d _ => Act.keeps_ofExcept _
  have hsilent : (Act.forEach (fun d => Act.ofExcept (checkDependency t marker hook d))
      hook.dependencies s).notices = [] := by
    refine List.eq_nil_iff_forall_not_mem.mpr fun m hm => ?_
    obtain ⟨_, d, _, _, _, hd⟩ := (Act.mem_notices_forEach hlooks).mp hm
    exact Act.notes_ofExcept (P := fun _ => False) _ s m hd
  have hpasses : (Act.forEach (fun d => Act.ofExcept (checkDependency t marker hook d))
      hook.dependencies s).result = .ok () ↔ hook.Passes t marker := by
    rw [Act.forEach_ok_iff hlooks]
    simp only [Act.result_ofExcept]
    rfl
  unfold check
  cases hdependencies : (Act.forEach (fun d => Act.ofExcept (checkDependency t marker hook d))
      hook.dependencies s).result with
  | error e =>
    rw [Act.bind_of_error hdependencies, hsilent]
    simp [← hpasses, hdependencies]
  | ok u =>
    rw [Act.bind_of_ok hdependencies, hsilent, List.nil_append, mem_notices_needs]
    simp [hpasses.mp hdependencies]

end Check

end Hook

/-- The type hooks that a discovery finds: it comes that far when no dependency is a type hook. -/
def Finds (t : FileTree) (root marker : String) (pkg : Package) (hooks : List Hook) : Prop :=
  Hook.findAll t root pkg.dependencies marker none = .ok [] ∧
    Hook.findAll t root pkg.devDependencies marker none = .ok hooks

/-- One of the hooks is checked, and asks for a package that looks like a hook: those in front of it
pass, and so does the hook itself. -/
def Needed (t : FileTree) (marker : String) (hooks : List Hook) (name : String) : Prop :=
  ComesTo (Hook.Passes t marker) (fun hook => hook.Passes t marker ∧ hook.AsksFor name) hooks

/-- The report of a missing hook is not the one about the project itself. -/
theorem missingHook_notMem_ownNotices (hook name : String) (pkg : Package) :
    .missingHook hook name ∉ pkg.ownNotices := by
  unfold Package.ownNotices
  split <;> simp

/-- **What a discovery reports as missing**: what a hook that it checks asks for, if no type hook that
it has found goes by that name. -/
theorem missingHook_mem_discover_iff {hook name : String} :
    .missingHook hook name ∈ (discover root marker true t).notices ↔
      ∃ pkg hooks, Package.read t root = .ok pkg ∧ Finds t root marker pkg hooks ∧
        name ∉ hooks.map (·.name) ∧
        ComesTo (Hook.Passes t marker)
          (fun h => (h.Passes t marker ∧ h.AsksFor name) ∧ h.name = hook) hooks := by
  cases hpkg : Package.read t root with
  | error e => simp [discover_of_error hpkg]
  | ok pkg =>
    -- a part that fails reports nothing; only the last one, the checks, can
    obtain ⟨_, _, hcourse, hdiscover⟩ := discover_course marker hpkg
    rw [hdiscover, List.mem_append, or_iff_right (missingHook_notMem_ownNotices hook name pkg)]
    simp only [Except.ok.injEq, exists_eq_left', exists_and_left, Finds]
    cases hcourse with
    | unloaded dependencies => simp [dependencies]
    | misplaced dependencies => simp [dependencies]
    | undeveloped dependencies developed => simp [developed]
    | checked dependencies developed =>
      simp only [dependencies, developed, Except.ok.injEq, true_and, exists_eq_left']
      rw [Act.mem_notices_forEach fun h _ => Hook.keeps_check t marker _ h, ← comesTo_and_left]
      refine comesTo_congr (fun h => Hook.check_ok_iff) fun h => Hook.mem_notices_check.trans ?_
      simp only [Notice.missingHook.injEq]
      constructor
      · rintro ⟨hpasses, _, hasks, hmissing, rfl, rfl⟩
        exact ⟨hmissing, ⟨hpasses, hasks⟩, rfl⟩
      · rintro ⟨hmissing, ⟨hpasses, hasks⟩, rfl⟩
        exact ⟨hpasses, name, hasks, hmissing, rfl, rfl⟩

/-- What is installed under a name that is listed, but is not the name of a type hook: it is no type
hook, or goes by another name. -/
theorem Finds.exists_load {pkg : Package} {hooks : List Hook} {name : String}
    (hfinds : Finds t root marker pkg hooks) (hlisted : name ∈ pkg.devDependencies)
    (hname : name ∉ hooks.map (·.name)) :
    ∃ own, Hook.load t root name marker none = .ok own ∧
      (own.isTypeHook = false ∨ own.name ≠ name) := by
  have hfound := hfinds.2
  unfold Hook.findAll at hfound
  cases hall : pkg.devDependencies.mapM fun name => Hook.load t root name marker none with
  | error e =>
    rw [hall] at hfound
    cases hfound
  | ok all =>
    rw [hall] at hfound
    obtain rfl := Except.ok.inj hfound
    obtain ⟨own, hown, hload⟩ := exists_of_mapM hall name hlisted
    refine ⟨own, hload, ?_⟩
    by_contra hother
    rw [not_or, not_not, Bool.not_eq_false] at hother
    exact hname (List.mem_map.mpr ⟨own, List.mem_filter.mpr ⟨hown, hother.1⟩, hother.2⟩)

/-- **When the reports of missing hooks are true.**  What a discovery reports is not listed by the
project, just if every package that is listed and needed is a type hook of that name.  What is listed
and reported all the same has been installed as something else than a type hook, or under another name
than its own. -/
theorem missingHook_truthful_iff {pkg : Package} (hpkg : Package.read t root = .ok pkg) :
    ((∀ hook name, .missingHook hook name ∈ (discover root marker true t).notices →
        name ∉ pkg.devDependencies) ↔
      ∀ hooks, Finds t root marker pkg hooks → ∀ name ∈ pkg.devDependencies,
        Needed t marker hooks name → name ∈ hooks.map (·.name)) ∧
    ∀ hook name, .missingHook hook name ∈ (discover root marker true t).notices →
      name ∈ pkg.devDependencies →
        ∃ own, Hook.load t root name marker none = .ok own ∧
          (own.isTypeHook = false ∨ own.name ≠ name) := by
  have hreports : ∀ hook name, .missingHook hook name ∈ (discover root marker true t).notices ↔
      ∃ hooks, Finds t root marker pkg hooks ∧ name ∉ hooks.map (·.name) ∧
        ComesTo (Hook.Passes t marker)
          (fun h => (h.Passes t marker ∧ h.AsksFor name) ∧ h.name = hook) hooks := by
    intro hook name
    rw [missingHook_mem_discover_iff, hpkg]
    simp only [Except.ok.injEq, exists_and_left, exists_eq_left']
  refine ⟨⟨fun htrue hooks hfinds name hlisted hneeded => ?_, fun hnames hook name hreport hlisted => ?_⟩,
    fun hook name hreport hlisted => ?_⟩
  · by_contra hname
    obtain ⟨front, h, back, rfl, hfront, hh⟩ := hneeded
    exact htrue h.name name
      ((hreports _ _).mpr ⟨_, hfinds, hname, front, h, back, rfl, hfront, hh, rfl⟩) hlisted
  · obtain ⟨hooks, hfinds, hname, front, h, back, rfl, hfront, hh, _⟩ := (hreports _ _).mp hreport
    exact hname (hnames _ hfinds name hlisted ⟨front, h, back, rfl, hfront, hh⟩)
  · obtain ⟨hooks, hfinds, hname, _⟩ := (hreports _ _).mp hreport
    exact hfinds.exists_load hlisted hname

/-- A project that lists two packages.  The first one is a type hook whose developers need the second,
and the second one is no type hook. -/
def strayProject : FileTree :=
  ⟨[(["p"], .directory),
    (["p", "package.json"],
      .file "\x7b\"devDependencies\":\x7b\"pets\":1,\"hook-vet\":1\x7d\x7d".toUTF8),
    (["p", "node_modules"], .directory), (["p", "node_modules", "pets"], .directory),
    (["p", "node_modules", "pets", "package.json"], .file ("\x7b\"sails\":\x7b\"isHook\":1\x7d," ++
      "\"dependencies\":\x7b\"marlinspike\":1\x7d,\"devDependencies\":\x7b\"hook-vet\":1\x7d\x7d").toUTF8),
    (["p", "node_modules", "hook-vet"], .directory),
    (["p", "node_modules", "hook-vet", "package.json"], .file "\x7b\x7d".toUTF8)]⟩

theorem read_strayProject :
    ∃ pkg, Package.read strayProject "/p" = .ok pkg ∧ "hook-vet" ∈ pkg.devDependencies := by
  have hlisted : (Package.read strayProject "/p").map Package.devDependencies =
      .ok ["pets", "hook-vet"] := by decide +kernel
  cases hpkg : Package.read strayProject "/p" with
  | error e =>
    rw [hpkg] at hlisted
    cases hlisted
  | ok pkg =>
    rw [hpkg] at hlisted
    refine ⟨pkg, rfl, ?_⟩
    rw [Except.ok.inj hlisted]
    decide

theorem notices_strayProject :
    (discover "/p" defaultMarker true strayProject).notices =
      [.noSailsDependency "None", .missingHook "pets" "hook-vet"] := by
  decide +kernel

/-- A package that the project lists is reported as one that it does not list. -/
theorem missingHook_not_truthful :
    ∃ pkg, Package.read strayProject "/p" = .ok pkg ∧
      ¬∀ hook name, .missingHook hook name ∈ (discover "/p" defaultMarker true strayProject).notices →
        name ∉ pkg.devDependencies := by
  obtain ⟨pkg, hpkg, hlisted⟩ := read_strayProject
  refine ⟨pkg, hpkg, fun htrue => htrue "pets" "hook-vet" ?_ hlisted⟩
  rw [notices_strayProject]
  decide

/-- What is reported there is installed, but not as a type hook of that name. -/
theorem missingHook_truthful_iff_strayProject :
    ∃ pkg own, Package.read strayProject "/p" = .ok pkg ∧ "hook-vet" ∈ pkg.devDependencies ∧
      Hook.load strayProject "/p" "hook-vet" defaultMarker none = .ok own ∧
      (own.isTypeHook = false ∨ own.name ≠ "hook-vet") := by
  obtain ⟨pkg, hpkg, hlisted⟩ := read_strayProject
  have hreport : .missingHook "pets" "hook-vet" ∈
      (discover "/p" defaultMarker true strayProject).notices := by
    rw [notices_strayProject]
    decide
  obtain ⟨own, hload, hother⟩ :=
    (missingHook_truthful_iff hpkg).2 "pets" "hook-vet" hreport hlisted
  exact ⟨pkg, own, hpkg, hlisted, hload, hother⟩

end Project

end Rigging
