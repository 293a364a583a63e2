import Rigging.Proofs.Declaration.Again
import Rigging.Proofs.Project.Discover
import Rigging.Proofs.Project.Scan

/-!
# Running again

A run leaves a tree that is renewed at its output directory (`renewed_generate`).  If nothing that the
run reads lies in the output directory, and no path that it looks up steps up from a directory that the
run takes away or makes, then a second run looks at the same things and finds everything in order: it
succeeds with the same report and changes nothing (`generate_again`).  The second condition is needed:
`generate_again_stale` is a project whose first run succeeds and takes away a directory that the path of
a dependency goes through, so that the second one fails.
-/

namespace Rigging

namespace Declaration

open FileTree

/-- The files of the output tree have the ending of what is written. -/
theorem ending_of_outputTree {r : Registry} {pool : Pool} {q : List String} {content : ByteArray}
    (h : (outputTree r pool).get? q = some (.file content)) :
    ∃ c, q.getLast? = some c ∧ outputEnding <:+ c.toList := by
  obtain ⟨text, hmem⟩ := exists_mem_outputFiles h
  have hplaces := place_of_mem_outputFiles hmem
  dsimp only at hplaces
  rcases hplaces with hplace | ⟨fixed, hfixed, hplace⟩ | ⟨area, _, e, _, hplace⟩
  · exact ⟨"globals.d.ts", by rw [hplace]; rfl, by decide⟩
  · exact ⟨fixed.1, by rw [hplace]; rfl, (isName_of_mem_files fixed hfixed).2⟩
  · exact ⟨e.name ++ ".d.ts", by rw [hplace]; rfl, ending_entityFile e.name⟩

end Declaration

namespace Project

open Rigging.Path FileTree Declaration

section Runs

variable {schedule : Schedule} {cwd : String} {config : Config} {t : FileTree} {report : Report}
  (hroot : IsPlain config.root) (hout : IsPlain config.outDir) (ht : t.IsTree)

/-! ### The tree that is left -/

include hroot hout ht

/-- **A run renews its output directory**: around it what was there stays, and no new file is named
like an input. -/
theorem renewed_generate (h : (generate schedule cwd config t).result = .ok report) :
    Renewed (components config.outDir) t (generate schedule cwd config t).state := by
  obtain ⟨registry, pool, _, _, htree⟩ := get?_generate_below hroot hout ht h
  have hget := get?_generate hroot hout t report h
  refine ⟨fun q n hq hn => ?_, fun q content hfile hq hname => ?_⟩
  · rw [hget q hq, hn]
    rfl
  · obtain ⟨c, hlast, hending⟩ := hname
    obtain ⟨houtput, hjsconfig⟩ := not_written_of_ending hending
    by_cases hbelow : components config.outDir <+: q
    · obtain ⟨rest, rfl⟩ := hbelow
      rw [htree rest] at hfile
      obtain ⟨d, hd, hwritten⟩ := ending_of_outputTree hfile
      rw [List.getLast?_append, hd] at hlast
      exact houtput (Option.some.inj hlast ▸ hwritten)
    · rw [hget q hbelow, hq.resolve_left hbelow, Option.none_or, Config.added] at hfile
      split at hfile
      · cases hfile
      · split at hfile
        · rename_i hplace
          rw [hplace.2, Config.jsconfigPlace, List.getLast?_concat] at hlast
          exact hjsconfig (Option.some.inj hlast).symm
        · cases hfile

omit hroot hout ht in
theorem isTree_writeJsconfig (cwd root outDir : String) :
    Act.Ensures StaysTree (writeJsconfig cwd root outDir) := by
  intro t x hx
  rcases writeJsconfig_cases hx with ⟨_, _, hstate⟩ | ⟨_, _, hwrite, hstate⟩
  · rw [hstate]
    exact id
  · rw [hstate]
    exact isTree_writeText _ _ t () hwrite

/-- **A run leaves a tree.** -/
theorem isTree_generate (h : (generate schedule cwd config t).result = .ok report) :
    (generate schedule cwd config t).state.IsTree := by
  obtain ⟨hchecked, prepared, hprepare, hwrite, hstate⟩ := generate_ok h
  have hne := components_outDir_ne_nil hroot hout hchecked
  rw [hstate]
  refine ensures_writeAll_of (S := StaysTree) staysTree_trans
    (isTree_writeOutput hout hne (gives_prepare schedule config t prepared hprepare))
    (fun _ => isTree_writeJsconfig cwd _ _) (fun _ => staysTree_refl) t report hwrite ht

end Runs

/-! ### Looking again -/

/-- No file that a run reads lies in the output directory. -/
def Config.ReadsOutside (config : Config) (t : FileTree) : Prop :=
  ∀ place, config.IsInput t place → ¬components config.outDir <+: place

/-- No path that a run looks up steps up from a directory that one tree has and the other has not. -/
def Config.KeepsSteps (config : Config) (t t' : FileTree) : Prop :=
  ∀ path, config.Reads t path → SameSteps t t' path

theorem isDirectoryAt_of_renewed {out : List String} {t t' : FileTree} {path : String}
    (hpath : IsPlain path) (h : Renewed out t t') (hout : ¬out <+: components path)
    (hdirectory : t.isDirectoryAt path = true) : t'.isDirectoryAt path = true := by
  have hkept : ∀ q, q <+: components path → t.isDirectory q = true → t'.isDirectory q = true := by
    intro q hq hdir
    rw [isDirectory_iff] at hdir ⊢
    exact h.kept q _ (fun habove => hout (habove.trans hq)) hdir
  unfold isDirectoryAt at hdirectory ⊢
  cases hlocate : t.locate path with
  | error fault =>
    rw [hlocate] at hdirectory
    cases hdirectory
  | ok p =>
    rw [hlocate] at hdirectory
    obtain ⟨hfits, rfl, hreached⟩ := (locate_eq_ok_iff hpath).mp hlocate
    rw [(locate_eq_ok_iff hpath).mpr ⟨hfits, rfl, fun q hq hne => hkept q hq (hreached q hq hne)⟩]
    exact hkept _ List.prefix_rfl hdirectory

/-- A directory that is scanned is one whose package file is read. -/
theorem reads_of_discover {config : Config} {t : FileTree} {hooks : List Hook}
    (hdiscover : (discover config.root config.hookMarker config.includeHooks t).result = .ok hooks)
    {hook : Hook} (hhook : hook ∈ hooks) : config.Reads t (join hook.path packageFile) := by
  obtain ⟨pkg, hpkg, hrest⟩ := discover_ok_iff.mp hdiscover
  split at hrest
  · rename_i hinclude
    obtain ⟨name, hname, hpath⟩ := Hook.path_of_mem_findAll hrest.2.1 hook hhook
    rw [hpath]
    exact .dependency hinclude hpkg (.inr hname)
  · rw [hrest] at hhook
    cases hhook

section Looking

variable {config : Config} {t t' : FileTree} (h : Renewed (components config.outDir) t t')
  (ht : t.IsTree) (houtside : config.ReadsOutside t) (hsteps : config.KeepsSteps t t')

include h ht houtside hsteps

/-- What is read reads the same. -/
theorem contentAt?_of_reads {path : String} (hreads : config.Reads t path) :
    t'.contentAt? path = t.contentAt? path := by
  refine h.contentAt?_eq (hsteps path hreads) ht hreads.ending fun p hlocate hsome => ?_
  exact houtside p ⟨⟨path, hreads, hlocate⟩, hsome⟩

/-- The same hooks are discovered. -/
theorem discover_of_renewed {hooks : List Hook}
    (hdiscover : (discover config.root config.hookMarker config.includeHooks t).result = .ok hooks) :
    (discover config.root config.hookMarker config.includeHooks t').result = .ok hooks := by
  have hsame : ∀ path, config.Reads t path → t'.contentAt? path = t.contentAt? path :=
    fun path hreads => contentAt?_of_reads h ht houtside hsteps hreads
  rw [discover_ok_iff] at hdiscover ⊢
  obtain ⟨pkg, hpkg, hrest⟩ := hdiscover
  refine ⟨pkg, (Package.read_of_same (hsame _ .package)).trans hpkg, ?_⟩
  split at hrest
  · rename_i hinclude
    obtain ⟨hnone, hfound, hchecks⟩ := hrest
    have hlisted : ∀ name, name ∈ pkg.dependencies ∨ name ∈ pkg.devDependencies →
        t'.contentAt? (join (Hook.directory config.root name) packageFile) =
          t.contentAt? (join (Hook.directory config.root name) packageFile) :=
      fun name hname => hsame _ (.dependency hinclude hpkg hname)
    rw [if_pos hinclude]
    refine ⟨?_, ?_, fun hook hhook d hd => ?_⟩
    · rw [Hook.findAll_of_same fun name hname => hlisted name (.inl hname), hnone]
    · rw [Hook.findAll_of_same fun name hname => hlisted name (.inr hname), hfound]
    · rw [Hook.checkDependency_of_same (hsame _ (.nested hinclude hpkg hfound hhook hd))]
      exact hchecks hook hhook d hd
  · rename_i hinclude
    rw [if_neg hinclude]
    exact hrest

/-- **The same is prepared again.** -/
theorem prepare_of_renewed {schedule : Schedule} (hroot : IsPlain config.root) (ht' : t'.IsTree)
    (hnamed : t.IsNamed) (hout : ¬components config.outDir <+: components config.root) {prepared : Registry × Pool}
    (hprepare : (prepare schedule config t).result = .ok prepared) :
    (prepare schedule config t').result = .ok prepared := by
  obtain ⟨registry, pool⟩ := prepared
  obtain ⟨sources, _, hcollect, _, _⟩ := prepare_ok_iff.mp hprepare
  have hread := isSome_of_prepare hprepare hcollect
  refine prepare_of_same hprepare hcollect ?_ fun source hsource =>
    contentAt?_of_reads h ht houtside hsteps (.module hcollect hsource)
  -- a module that has been read lies outside, where its path leads
  have hmodules : ∀ source ∈ sources, ¬components config.outDir <+: components source.path := by
    intro source hsource
    obtain ⟨content, hcontent⟩ := Option.isSome_iff_exists.mp (hread source hsource)
    obtain ⟨p, hlocate, hp⟩ := contentAt?_eq_some_iff.mp hcontent
    rw [← components_of_locate hlocate]
    exact houtside p ⟨⟨_, .module hcollect hsource, hlocate⟩, by rw [hp]; rfl⟩
  rw [collect_ok_iff] at hcollect ⊢
  obtain ⟨hdirectory, hooks, hdiscover, rfl⟩ := hcollect
  have hscan : ∀ root owner, config.Reads t (join root packageFile) →
      (∀ source ∈ scan t root owner, ¬components config.outDir <+: components source.path) →
      scan t' root owner = scan t root owner :=
    fun root owner hreads hfound => scan_of_renewed h ht ht' hnamed (hsteps _ hreads) hfound
  refine ⟨isDirectoryAt_of_renewed hroot h hout hdirectory, hooks,
    discover_of_renewed h ht houtside hsteps hdiscover, ?_⟩
  rw [hscan _ _ .package fun source hsource => hmodules source (List.mem_append_left _ hsource)]
  refine congrArg (fun found => _ ++ List.flatten found) (List.map_congr_left fun hook hhook =>
    (hscan _ _ ?_ fun source hsource => ?_).symm)
  · exact reads_of_discover hdiscover hhook
  · refine hmodules source (List.mem_append_right _ (List.mem_flatten.mpr ⟨_, ?_, hsource⟩))
    exact List.mem_map_of_mem hhook

end Looking

/-! ### Writing again -/

/-- Behind writing it, the path of the editor's configuration is one that fits. -/
theorem fits_of_writeJsconfig {cwd root outDir : String} (hroot : IsPlain root) {t : FileTree}
    {made : Option String} (h : (writeJsconfig cwd root outDir t).result = .ok made) :
    Fits (join root jsconfigFile) := by
  have hplain := (isPlain_join hroot (show IsName jsconfigFile by decide)).1
  obtain ⟨p, hlocate⟩ : ∃ p, t.locate (join root jsconfigFile) = .ok p := by
    rcases writeJsconfig_cases h with ⟨hexists, _⟩ | ⟨_, _, hwrite, _⟩
    · unfold existsAt at hexists
      split at hexists
      · rename_i p hp
        exact ⟨p, hp⟩
      · cases hexists
    · exact ⟨_, (ensures_writeText _ _ t () hwrite).1⟩
  exact ((locate_eq_ok_iff hplain).mp hlocate).1

section Writing

variable {cwd : String} {config : Config} {registry : Registry} {pool : Pool} {t : FileTree}
  {report : Report} {files : List String}

theorem exists_writeJsconfig_ok (h : (writeAll cwd config registry pool t).result = .ok report)
    (hjs : config.writeJsconfig = true) :
    ∃ made, (writeJsconfig cwd config.root config.outDir
      (writeOutput config.outDir registry pool t).state).result = .ok made := by
  obtain ⟨_, _, h, _⟩ := Act.bind_result_ok h
  dsimp only at h
  rw [if_pos hjs] at h
  obtain ⟨made, hmade, _⟩ := Act.bind_result_ok h
  exact ⟨made, hmade⟩

/-- Writing all is writing the output where the editor's configuration is there. -/
theorem writeAll_of_existsAt (h : (writeOutput config.outDir registry pool t).result = .ok files)
    (hexists : config.writeJsconfig = true →
      (writeOutput config.outDir registry pool t).state.existsAt (join config.root jsconfigFile) = true) :
    (writeAll cwd config registry pool t).result = .ok (config.reportOf registry pool files) := by
  unfold writeAll
  rw [Act.bind_of_ok h]
  dsimp only
  split
  · rename_i hjs
    have hwrite := writeJsconfig_of_existsAt cwd config.outDir (hexists hjs)
    rw [Act.bind_of_ok (congrArg Outcome.result hwrite)]
    rfl
  · rfl

variable (hroot : IsPlain config.root) (hout : IsPlain config.outDir)
  (hchecked : checkOutDir cwd config.root config.outDir = .ok ()) (hp : Prepared registry pool)
  (ht : t.IsTree)

include hroot hout hchecked hp ht

/-- What stands in the tree that all has been written to: the output directory, and the editor's
configuration if it is asked for. -/
theorem writeAll_leaves (h : (writeAll cwd config registry pool t).result = .ok report) :
    (writeAll cwd config registry pool t).state.get? (components config.outDir) = some .directory ∧
      (config.writeJsconfig = true →
        ((writeAll cwd config registry pool t).state.get? config.jsconfigPlace).isSome = true) := by
  obtain ⟨files, hfiles, _, hadds⟩ := writeAll_ok hroot h
  obtain ⟨_, hdirectory, _⟩ := hp.output_written hroot hout hchecked ht hfiles
  refine ⟨?_, fun hjs => ?_⟩
  · rw [hadds, hdirectory]
    rfl
  · rw [hadds, if_pos ⟨hjs, rfl⟩, Option.isSome_or, Option.isSome_some, Bool.or_true]

/-- The editor's configuration outlasts a writing of the output. -/
theorem isSome_jsconfig_writeOutput
    (h : (writeOutput config.outDir registry pool t).result = .ok files)
    (hsome : (t.get? config.jsconfigPlace).isSome = true) :
    ((writeOutput config.outDir registry pool t).state.get? config.jsconfigPlace).isSome = true := by
  have hne := components_outDir_ne_nil hroot hout hchecked
  by_cases hbelow : components config.outDir <+: config.jsconfigPlace
  · -- the output directory itself stands in its place
    have houtside := (checkOutDir_ok hroot hout hchecked).2
    have hplace := (List.prefix_concat_iff.mp hbelow).resolve_right houtside
    obtain ⟨_, hdirectory, _⟩ := hp.output_written hroot hout hchecked ht h
    rw [Config.jsconfigPlace, ← hplace, hdirectory]
    rfl
  · rw [ensures_writeOutput hout hne hp.fitNames.noSlash t files h _ hbelow, Option.isSome_or, hsome,
      Bool.true_or]

/-- **All can be written again**, and the report is the same. -/
theorem writeAll_again (h : (writeAll cwd config registry pool t).result = .ok report)
    (hafter : (writeAll cwd config registry pool t).state.IsTree) :
    (writeAll cwd config registry pool (writeAll cwd config registry pool t).state).result =
      .ok report := by
  obtain ⟨hnull, henc⟩ := checkPath_ok (checkOutDir_ok hroot hout hchecked).1
  have hne := components_outDir_ne_nil hroot hout hchecked
  obtain ⟨files, hfiles, rfl, _⟩ := writeAll_ok hroot h
  obtain ⟨hdirectory, hjsconfig⟩ := writeAll_leaves hroot hout hchecked hp ht h
  have hfits := fits_of_writeOutput hout hne hnull henc hp.allLinked hp.fitNames ht hfiles
  obtain ⟨files', hfiles'⟩ :=
    exists_writeOutput_ok hout hne hp.allLinked hp.fitNames hfits hafter hdirectory
  -- both runs list the files of the entities
  obtain rfl := (hp.output_written hroot hout hchecked ht hfiles).1
  obtain rfl := (hp.output_written hroot hout hchecked hafter hfiles').1
  refine writeAll_of_existsAt hfiles' fun hjs => ?_
  obtain ⟨made, hmade⟩ := exists_writeJsconfig_ok h hjs
  obtain ⟨hplain, hcomponents⟩ := isPlain_join hroot (show IsName jsconfigFile by decide)
  have htree := isTree_writeOutput hout hne hp.fitNames.noSlash _ _ hfiles' hafter
  rw [existsAt_iff htree hplain, hcomponents]
  exact ⟨fits_of_writeJsconfig hroot hmade,
    isSome_jsconfig_writeOutput hroot hout hchecked hp hafter hfiles' (hjsconfig hjs)⟩

end Writing

/-! ### Runs -/

/-- **A second run changes nothing.**  Behind a run that succeeds in a tree, reads nothing from its
output directory, and looks up no path that steps up from a directory that it takes away or makes,
another run succeeds with the same report and leaves every path as it is, whatever the schedules of the
two are. -/
theorem generate_again (schedule schedule' : Schedule) {cwd : String} (hcwd : isAbsolute cwd = true)
    (root : String) (outDir : Option String) (writeJsconfig includeHooks : Bool) (hookMarker : String)
    (maxWorkers : Int) {t : FileTree} (ht : t.IsTree) (hnamed : t.IsNamed) :
    let config := Config.make cwd root outDir writeJsconfig includeHooks hookMarker maxWorkers
    ∀ report, (generate schedule cwd config t).result = .ok report →
      let after := (generate schedule cwd config t).state
      config.ReadsOutside t → config.KeepsSteps t after →
      (generate schedule' cwd config after).result = .ok report ∧
        ∀ q, (generate schedule' cwd config after).state.get? q = after.get? q := by
  intro config report h after houtside hsteps
  obtain ⟨hroot, hout⟩ := Config.isPlain_make hcwd root outDir writeJsconfig includeHooks hookMarker
    maxWorkers
  obtain ⟨hchecked, ⟨registry, pool⟩, hprepare, hwrite, hstate⟩ := generate_ok h
  have hafter : after.IsTree := isTree_generate hroot hout ht h
  have hprepare' : (prepare schedule' config after).result = .ok (registry, pool) :=
    prepare_of_schedule schedule' (prepare_of_renewed (renewed_generate hroot hout ht h) ht houtside
      hsteps hroot hafter hnamed (checkOutDir_ok hroot hout hchecked).2 hprepare)
  have hkept : (prepare schedule' config after).state = after := keeps_prepare schedule' config after
  have hagain : (generate schedule' cwd config after).result = .ok report := by
    rw [generate_of_checked hchecked, Act.bind_of_ok hprepare', hkept]
    change (writeAll cwd config registry pool after).result = _
    rw [show after = _ from hstate] at hafter ⊢
    exact writeAll_again hroot hout hchecked (prepared_of_prepare hprepare) ht hwrite hafter
  refine ⟨hagain, fun q => ?_⟩
  by_cases hq : components config.outDir <+: q
  · obtain ⟨rest, rfl⟩ := hq
    obtain ⟨registry₁, pool₁, hfirst, _, htree₁⟩ := get?_generate_below hroot hout ht h
    obtain ⟨registry₂, pool₂, hsecond, _, htree₂⟩ := get?_generate_below hroot hout hafter hagain
    obtain ⟨rfl, rfl⟩ := Prod.mk.inj (Except.ok.inj (hfirst.symm.trans hprepare))
    obtain ⟨rfl, rfl⟩ := Prod.mk.inj (Except.ok.inj (hsecond.symm.trans hprepare'))
    rw [htree₂]
    exact (htree₁ rest).symm
  · have hfirst := get?_generate hroot hout t report h q hq
    have hsecond := get?_generate hroot hout after report hagain q hq
    rw [hsecond, show after.get? q = _ from hfirst, Option.or_assoc, Option.or_self]

/-! ### Ways through the output directory -/

/-- A project that needs a package of its own by a path, with a directory left in its output. -/
def vendored (dependency : String) : FileTree :=
  ⟨[(["p"], .directory),
    (["p", "package.json"],
      .file ("\x7b\"devDependencies\": \x7b\"" ++ dependency ++ "\": \"1\"\x7d\x7d").toUTF8),
    (["p", "node_modules"], .directory), (["p", ".types"], .directory),
    (["p", ".types", "old"], .directory), (["p", "lib"], .directory),
    (["p", "lib", "package.json"], .file "\x7b\x7d".toUTF8)]⟩

/-- The settings that put the output where it is by default. -/
def vendoredConfig : Config :=
  ⟨"/p", "/p/.types", true, true, defaultMarker, defaultWorkers⟩

theorem vendoredConfig_eq : vendoredConfig =
    Config.make "/" "/p" none true true defaultMarker defaultWorkers := by
  decide

theorem isPlain_vendoredConfig : IsPlain vendoredConfig.root ∧ IsPlain vendoredConfig.outDir := by
  rw [vendoredConfig_eq]
  exact Config.isPlain_make (by decide) _ _ _ _ _ _

/-- A way to the package through the output directory, and one through what is left there. -/
def vendoredWays : List String := ["../.types/../lib", "../.types/old/../../lib"]

section Vendored

variable {d : String} (hd : d ∈ vendoredWays)

include hd

theorem isTree_vendored : (vendored d).IsTree ∧ (vendored d).IsNamed := by
  revert d
  decide

theorem read_vendored : ∃ pkg, Package.read (vendored d) "/p" = .ok pkg ∧ pkg.dependencies = [] ∧
    pkg.devDependencies = [d] := by
  have hread : ∀ d ∈ vendoredWays, ((Package.read (vendored d) "/p").map fun pkg =>
      (pkg.dependencies, pkg.devDependencies)) = .ok ([], [d]) := by
    decide +kernel
  have hread := hread d hd
  cases hpkg : Package.read (vendored d) "/p" with
  | error e =>
    rw [hpkg] at hread
    cases hread
  | ok pkg =>
    rw [hpkg] at hread
    exact ⟨pkg, rfl, Prod.mk.inj (Except.ok.inj hread)⟩

/-- The package is found, and is no type hook. -/
theorem findAll_vendored : Hook.findAll (vendored d) "/p" [d] defaultMarker none = .ok [] := by
  revert d
  decide +kernel

theorem collect_vendored : (collect vendoredConfig (vendored d)).result = .ok [] := by
  have hscan : ∀ d ∈ vendoredWays, (vendored d).isDirectoryAt "/p" = true ∧
      scan (vendored d) "/p" Entity.rootOwner = [] := by
    decide
  obtain ⟨pkg, hpkg, hnone, hone⟩ := read_vendored hd
  refine collect_ok_iff.mpr ⟨(hscan d hd).1, [], discover_ok_iff.mpr ⟨pkg, hpkg, ?_⟩, ?_⟩
  · rw [hnone, hone]
    exact ⟨rfl, findAll_vendored hd, fun _ hhook => nomatch hhook⟩
  · exact (congrArg (· ++ []) (hscan d hd).2).symm

theorem prepare_vendored : (prepare .inTurn vendoredConfig (vendored d)).result = .ok (⟨[], []⟩, []) := by
  unfold prepare
  rw [Act.bind_of_ok (collect_vendored hd)]
  rfl

theorem exists_generate_vendored :
    ∃ report, (generate .inTurn "/" vendoredConfig (vendored d)).result = .ok report := by
  have hwrite : ∀ d ∈ vendoredWays,
      (writeAll "/" vendoredConfig ⟨[], []⟩ [] (vendored d)).result.isOk = true := by
    rw [writeAll, writeOutput_eq, writeFilesBy_nothing]
    decide +kernel
  exact exists_generate_ok (by decide) (prepare_vendored hd) (hwrite d hd)

/-- Only the two package files are read. -/
theorem reads_vendored {path : String} (h : vendoredConfig.Reads (vendored d) path) :
    path = join "/p" packageFile ∨ path = join (Hook.directory "/p" d) packageFile := by
  obtain ⟨pkg, hpkg, hnone, hone⟩ := read_vendored hd
  cases h with
  | module collected mem =>
    obtain rfl := Except.ok.inj (collected.symm.trans (collect_vendored hd))
    cases mem
  | package => exact .inl rfl
  | dependency _ package listed =>
    obtain rfl := Except.ok.inj (package.symm.trans hpkg)
    rw [hnone, hone] at listed
    rcases listed with listed | listed
    · cases listed
    · exact .inr (by rw [List.mem_singleton.mp listed]; rfl)
  | nested _ package installed mem _ =>
    obtain rfl := Except.ok.inj (package.symm.trans hpkg)
    rw [hone] at installed
    obtain rfl := Except.ok.inj (installed.symm.trans (findAll_vendored hd))
    cases mem

theorem readsOutside_vendored : vendoredConfig.ReadsOutside (vendored d) := by
  rintro place ⟨⟨path, hreads, hlocate⟩, _⟩
  have hplaces : ∀ d ∈ vendoredWays, ¬components vendoredConfig.outDir <+:
      components (join (Hook.directory "/p" d) packageFile) := by
    decide
  rw [components_of_locate hlocate]
  rcases reads_vendored hd hreads with rfl | rfl
  · decide
  · exact hplaces d hd

/-- What a run leaves of the directories: those outside, and of the old output nothing. -/
theorem directories_vendored {after : FileTree}
    (hafter : (generate .inTurn "/" vendoredConfig (vendored d)).state = after) :
    (∀ place ∈ [["p", "node_modules"], ["p", ".types"]],
      after.isDirectory place = (vendored d).isDirectory place) ∧
      after.get? ["p", ".types", "old"] = none := by
  obtain ⟨hroot, hout⟩ := isPlain_vendoredConfig
  obtain ⟨report, hreport⟩ := exists_generate_vendored hd
  have hrenewed := renewed_generate hroot hout (isTree_vendored hd).1 hreport
  obtain ⟨registry, pool, hprepare, _, hbelow⟩ :=
    get?_generate_below hroot hout (isTree_vendored hd).1 hreport
  have hcomponents : components vendoredConfig.outDir = ["p", ".types"] := by decide
  rw [hafter, hcomponents] at hrenewed
  rw [hafter, hcomponents] at hbelow
  have hmodules : after.get? ["p", "node_modules"] = some .directory :=
    hrenewed.kept _ _ (by decide) rfl
  refine ⟨?_, ?_⟩
  · rw [List.forall_mem_cons, List.forall_mem_singleton]
    exact ⟨isDirectory_iff.mpr hmodules, isDirectory_iff.mpr (hbelow [])⟩
  · obtain ⟨rfl, rfl⟩ := Prod.mk.inj (Except.ok.inj (hprepare.symm.trans (prepare_vendored hd)))
    refine (hbelow ["old"]).trans ?_
    rw [get?_outputTree]
    decide

end Vendored

/-- The path of the project's package file does not step up. -/
theorem sameSteps_package (t t' : FileTree) : SameSteps t t' (join "/p" packageFile) := by
  have hnone : stepUps [] (pieces (join "/p" packageFile)) = [] := by decide
  rw [SameSteps, hnone]
  exact List.forall_mem_nil _

/-- A way through the output directory alone: it is there before and behind a run, so that all is read
again. -/
theorem generate_again_vendored :
    let t := vendored "../.types/../lib"
    let after := (generate .inTurn "/" vendoredConfig t).state
    t.IsTree ∧ t.IsNamed ∧ vendoredConfig.ReadsOutside t ∧ vendoredConfig.KeepsSteps t after ∧
      ∃ report, (generate .inTurn "/" vendoredConfig t).result = .ok report ∧
        (generate .inTurn "/" vendoredConfig after).result = .ok report ∧
        ∀ q, (generate .inTurn "/" vendoredConfig after).state.get? q = after.get? q := by
  intro t after
  have hd : "../.types/../lib" ∈ vendoredWays := List.mem_cons_self
  obtain ⟨htree, hnamed⟩ := isTree_vendored hd
  have houtside := readsOutside_vendored hd
  obtain ⟨report, hreport⟩ := exists_generate_vendored hd
  obtain ⟨hkept, _⟩ := directories_vendored hd rfl
  have hups : stepUps [] (pieces (join (Hook.directory "/p" "../.types/../lib") packageFile)) =
      [["p", "node_modules"], ["p", ".types"]] := by decide
  have hsteps : vendoredConfig.KeepsSteps t after := by
    intro path hreads
    rcases reads_vendored hd hreads with rfl | rfl
    · exact sameSteps_package t after
    · rw [SameSteps, hups]
      exact hkept
  have hagain := generate_again .inTurn .inTurn (show isAbsolute "/" = true by decide) "/p" none true true
    defaultMarker defaultWorkers htree hnamed report
  rw [← vendoredConfig_eq] at hagain
  obtain ⟨hresult, hstate⟩ := hagain hreport houtside hsteps
  exact ⟨htree, hnamed, houtside, hsteps, report, hreport, hresult, hstate⟩

/-- The second of the ways leads nowhere behind a run. -/
theorem prepare_stale {after : FileTree}
    (hafter : (generate .inTurn "/" vendoredConfig (vendored "../.types/old/../../lib")).state = after) :
    (prepare .inTurn vendoredConfig after).result = .error (.missingHookPackage "../.types/old/../../lib"
      "/p/node_modules/../.types/old/../../lib") := by
  have hd : "../.types/old/../../lib" ∈ vendoredWays := List.mem_cons_of_mem _ List.mem_cons_self
  obtain ⟨hroot, hout⟩ := isPlain_vendoredConfig
  obtain ⟨report, hreport⟩ := exists_generate_vendored hd
  have hrenewed := renewed_generate hroot hout (isTree_vendored hd).1 hreport
  rw [hafter] at hrenewed
  -- the project is read as before
  obtain ⟨pkg, hpkg, hnone, hone⟩ := read_vendored hd
  have hpkg' : Package.read after vendoredConfig.root = .ok pkg := by
    refine (Package.read_of_same ?_).trans hpkg
    have hreads : vendoredConfig.Reads (vendored "../.types/old/../../lib")
      (join vendoredConfig.root packageFile) := .package
    exact hrenewed.contentAt?_eq (sameSteps_package _ after) (isTree_vendored hd).1 hreads.ending
      fun p hlocate hsome => readsOutside_vendored hd p ⟨⟨_, hreads, hlocate⟩, hsome⟩
  have hdirectory : after.isDirectoryAt vendoredConfig.root = true :=
    isDirectoryAt_of_renewed hroot hrenewed (by decide)
      (collect_ok_iff.mp (collect_vendored hd)).1
  -- but a directory on the way to the package is gone
  have hmissing : after.contentAt? (join (Hook.directory vendoredConfig.root "../.types/old/../../lib")
      packageFile) = none := by
    refine Option.eq_none_iff_forall_ne_some.mpr fun content hcontent => ?_
    obtain ⟨p, hlocate, _⟩ := contentAt?_eq_some_iff.mp hcontent
    have hold : after.isDirectory ["p", ".types", "old"] = true :=
      isDirectory_of_mem_stepUps (by decide) (follow_of_locate hlocate)
    rw [isDirectory_iff, (directories_vendored hd hafter).2] at hold
    cases hold
  have hpath : Hook.directory vendoredConfig.root "../.types/old/../../lib" =
      "/p/node_modules/../.types/old/../../lib" := by decide
  have hfound : Hook.findAll after vendoredConfig.root pkg.devDependencies vendoredConfig.hookMarker
      none = .error (.missingHookPackage "../.types/old/../../lib"
        "/p/node_modules/../.types/old/../../lib") := by
    rw [hone, Hook.findAll_of_missing [] hmissing, hpath]
  have hnone' : Hook.findAll after vendoredConfig.root pkg.dependencies vendoredConfig.hookMarker
      none = .ok [] := by
    rw [hnone]
    rfl
  have hcollect := collect_of_error hdirectory (show vendoredConfig.includeHooks = true from rfl) hpkg'
    hnone' hfound
  unfold prepare
  rw [Act.bind_of_error hcollect]

/-- **A run can take away a directory that its own look-ups go through.**  The first run succeeds and
reads nothing from the output directory, but a path to a package steps up from a directory in it.
Behind the run the package is not found. -/
theorem generate_again_stale :
    let t := vendored "../.types/old/../../lib"
    let after := (generate .inTurn "/" vendoredConfig t).state
    t.IsTree ∧ t.IsNamed ∧ vendoredConfig.ReadsOutside t ∧
      (∃ report, (generate .inTurn "/" vendoredConfig t).result = .ok report) ∧
      (generate .inTurn "/" vendoredConfig after).result = .error (.missingHookPackage
        "../.types/old/../../lib" "/p/node_modules/../.types/old/../../lib") := by
  intro t after
  have hd : "../.types/old/../../lib" ∈ vendoredWays := List.mem_cons_of_mem _ List.mem_cons_self
  obtain ⟨htree, hnamed⟩ := isTree_vendored hd
  obtain ⟨report, hreport⟩ := exists_generate_vendored hd
  have hprepare := prepare_stale (show (generate .inTurn "/" vendoredConfig t).state = after from rfl)
  refine ⟨htree, hnamed, readsOutside_vendored hd, ⟨report, hreport⟩, ?_⟩
  rw [generate_of_checked (generate_ok hreport).1, Act.bind_of_error hprepare]

end Project

end Rigging
