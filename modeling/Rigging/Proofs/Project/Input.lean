import Rigging.Proofs.Project.Generate
import Rigging.Request

/-!
# What becomes of a run's input

A run reads package files and modules, and it clears its output directory.  The check of the output
directory looks at the root of the project alone, so the directory may hold what the run reads:
`content?_generate_input` says that a file that is read stays as it is when it does not lie in the
output directory, and is gone otherwise, since no written file has the name of an input.
`generate_clears_modules` is a request that is accepted and takes the project's modules with it.
-/

namespace Rigging.Project

open Rigging.Path FileTree

/-! ### The files that a run reads -/

/-- The paths that a run reads: the modules that it collects, the package file of the project, and if
hooks are included those of all its dependencies and of the dependencies of its type hooks. -/
inductive Config.Reads (config : Config) (t : FileTree) : String → Prop
  | module {sources : List Source} {source : Source}
      (collected : (collect config t).result = .ok sources) (mem : source ∈ sources) :
      Reads config t source.path
  | package : Reads config t (join config.root packageFile)
  | dependency {pkg : Package} {name : String} (hooks : config.includeHooks = true)
      (package : Package.read t config.root = .ok pkg)
      (listed : name ∈ pkg.dependencies ∨ name ∈ pkg.devDependencies) :
      Reads config t (join (Hook.directory config.root name) packageFile)
  | nested {pkg : Package} {found : List Hook} {hook : Hook} {name : String}
      (hooks : config.includeHooks = true) (package : Package.read t config.root = .ok pkg)
      (installed : Hook.findAll t config.root pkg.devDependencies config.hookMarker none = .ok found)
      (mem : hook ∈ found) (listed : name ∈ hook.dependencies) :
      Reads config t (join (Hook.directory hook.path name) packageFile)

/-- A place where a file stands that a run reads. -/
structure Config.IsInput (config : Config) (t : FileTree) (place : List String) : Prop where
  read : ∃ path, config.Reads t path ∧ t.locate path = .ok place
  isFile : (t.content? place).isSome = true

/-- The endings of what a run reads. -/
def inputEndings : List (List Char) := [sourceExtension.toList, packageFile.toList]

theorem suffix_join (p q : String) : q.toList <:+ (join p q).toList := by
  unfold join
  split
  · exact List.suffix_rfl
  · split
    · rw [String.toList_append]
      exact List.suffix_append _ _
    · rw [String.toList_append]
      exact List.suffix_append _ _

theorem ending_of_mem_modulesBelow {t : FileTree} {fuel : Nat} {path : String} :
    ∀ {text : String} {place : List String}, path ∈ modulesBelow t fuel text place →
      sourceExtension.toList <:+ path.toList := by
  induction fuel with
  | zero => exact fun h => nomatch h
  | succ fuel ih =>
    intro text place h
    rw [modulesBelow] at h
    split at h
    · cases h
    · rcases List.mem_append.mp h with h | h
      · obtain ⟨name, hname, rfl⟩ := List.mem_map.mp h
        have hkept := (List.mem_filter.mp hname).2
        rw [Bool.and_eq_true] at hkept
        exact (List.isSuffixOf_iff_suffix.mp hkept.2).trans (suffix_join _ _)
      · obtain ⟨name, _, h⟩ := List.mem_flatMap.mp h
        exact ih h

theorem ending_of_mem_scan {t : FileTree} {root owner : String} {source : Source}
    (h : source ∈ scan t root owner) : sourceExtension.toList <:+ source.path.toList := by
  obtain ⟨kind, place, path, _, hpath, rfl⟩ := mem_scan h
  exact ending_of_mem_modulesBelow hpath

theorem Config.Reads.ending {config : Config} {t : FileTree} {path : String}
    (h : config.Reads t path) : ∃ cs ∈ inputEndings, cs <:+ path.toList := by
  cases h with
  | module collected mem =>
    refine ⟨_, List.mem_cons_self, ?_⟩
    exact gives_collect (fun _ _ _ _ => ending_of_mem_scan) config t _ collected _ mem
  | _ => exact ⟨_, List.mem_cons_of_mem _ List.mem_cons_self, suffix_join _ _⟩

/-- A place with the name of a module or a package file. -/
def NamedLikeInput (place : List String) : Prop :=
  ∃ c, place.getLast? = some c ∧ ∃ cs ∈ inputEndings, cs <:+ c.toList

/-- A path with the ending of an input leads to a place with such a name. -/
theorem namedLikeInput_of_locate {t : FileTree} {path : String} {place : List String}
    (hending : ∃ cs ∈ inputEndings, cs <:+ path.toList) (h : t.locate path = .ok place) :
    NamedLikeInput place := by
  obtain ⟨cs, hcs, hsuffix⟩ := hending
  have hplain : ∀ cs ∈ inputEndings, '/' ∉ cs ∧ 2 < cs.length := by decide
  obtain ⟨hslash, hlength⟩ := hplain cs hcs
  obtain ⟨front, c, hpieces, hc⟩ := exists_pieces_concat hslash hsuffix
  -- the last piece is longer than those that are no names
  have hne : ∀ d : String, d.toList.length ≤ 2 → c ≠ d := by
    rintro d hd rfl
    have := hc.length_le
    omega
  have hfollow := follow_of_locate h
  rw [hpieces] at hfollow
  obtain ⟨above, rfl⟩ :=
    follow_concat (hne "" (by decide)) (hne "." (by decide)) (hne ".." (by decide)) hfollow
  exact ⟨c, List.getLast?_concat, cs, hcs, hc⟩

/-- An input is named like a module or a package file. -/
theorem Config.IsInput.ending {config : Config} {t : FileTree} {place : List String}
    (h : config.IsInput t place) : NamedLikeInput place := by
  obtain ⟨path, hreads, hlocate⟩ := h.read
  exact namedLikeInput_of_locate hreads.ending hlocate

/-- No file that a run writes is named like an input. -/
theorem not_written_of_ending {c : String} (h : ∃ cs ∈ inputEndings, cs <:+ c.toList) :
    ¬Declaration.outputEnding <:+ c.toList ∧ c ≠ jsconfigFile := by
  obtain ⟨cs, hcs, hsuffix⟩ := h
  have hendings : ∀ cs ∈ inputEndings, Declaration.outputEnding.length ≤ cs.length ∧
      ¬Declaration.outputEnding <:+ cs ∧ ¬cs <:+ jsconfigFile.toList := by decide
  obtain ⟨hlength, houtput, hjsconfig⟩ := hendings cs hcs
  refine ⟨fun hending => ?_, ?_⟩
  · exact houtput (List.suffix_of_suffix_length_le hending hsuffix hlength)
  · rintro rfl
    exact hjsconfig hsuffix

/-! ### Runs -/

section Runs

variable {cwd : String} {config : Config} {t : FileTree} {report : Report} {place : List String}

/-- Writing leaves no file in the output directory that is named like an input. -/
theorem content?_writeAll (hroot : IsPlain config.root) (hout : IsPlain config.outDir)
    (hchecked : checkOutDir cwd config.root config.outDir = .ok ()) {registry : Registry}
    {pool : Pool} (hpool : ∀ e ∈ pool, '/' ∉ e.name.toList)
    (hbelow : components config.outDir <+: place)
    (hending : NamedLikeInput place) :
    Act.Ensures (fun t t' => t.Reached place → t'.content? place = none)
      (writeAll cwd config registry pool) := by
  obtain ⟨c, hlast, hc⟩ := hending
  obtain ⟨houtput, hjsconfig⟩ := not_written_of_ending hc
  obtain ⟨hnull, henc⟩ := checkPath_ok (checkOutDir_ok hroot hout hchecked).1
  have houtput := Declaration.content?_writeOutput hout
    (components_outDir_ne_nil hroot hout hchecked) hnull henc (r := registry) hpool hbelow
    fun d hd => Option.some.inj (hlast.symm.trans hd) ▸ houtput
  refine ensures_writeAll_of (S := StaysEmpty place) (fun s t u hcleared hrest hreached =>
    hrest (hcleared hreached)) houtput (fun _ t made hmade hempty => ?_) (fun _ _ => id)
  have hget := ensures_writeJsconfig hroot cwd config.outDir t made hmade place
  have hne : place ≠ components config.root ++ [jsconfigFile] := by
    rintro rfl
    rw [List.getLast?_concat] at hlast
    exact hjsconfig (Option.some.inj hlast).symm
  rw [if_neg hne, Option.or_none] at hget
  rw [content?_congr hget]
  exact hempty

/-- What a run leaves of a file that it reads. -/
theorem content?_of_isInput {schedule : Schedule} (hroot : IsPlain config.root)
    (hout : IsPlain config.outDir)
    (h : (generate schedule cwd config t).result = .ok report) (hinput : config.IsInput t place) :
    (generate schedule cwd config t).state.content? place =
      if components config.outDir <+: place then none else t.content? place := by
  split
  · rename_i hbelow
    obtain ⟨hchecked, prepared, hprepare, hwrite, hstate⟩ := generate_ok h
    obtain ⟨path, _, hlocate⟩ := hinput.read
    have hpool := gives_prepare schedule config t prepared hprepare
    rw [hstate]
    exact content?_writeAll hroot hout hchecked hpool hbelow hinput.ending t report hwrite
      (reached_of_locate hlocate)
  · rename_i houtside
    have hget := get?_generate hroot hout t report h place houtside
    -- a file that stood there before is not replaced by anything that is added
    cases hnode : t.get? place with
    | none =>
      have hfile := hinput.isFile
      rw [content?, hnode] at hfile
      cases hfile
    | some node =>
      rw [hnode, Option.some_or] at hget
      exact content?_congr (hget.trans hnode.symm)

end Runs

/-- **What a run does to its own input.**  A file that a successful run has read, be it a module or a
package file, is unchanged if it lies outside the output directory, and gone if it lies inside. -/
theorem content?_generate_input (schedule : Schedule) {cwd : String} (hcwd : isAbsolute cwd = true)
    (root : String) (outDir : Option String) (writeJsconfig includeHooks : Bool) (hookMarker : String)
    (maxWorkers : Int) (t : FileTree) :
    let config := Config.make cwd root outDir writeJsconfig includeHooks hookMarker maxWorkers
    ∀ report, (generate schedule cwd config t).result = .ok report → ∀ place, config.IsInput t place →
      (generate schedule cwd config t).state.content? place =
        if components config.outDir <+: place then none else t.content? place := by
  intro config report h place hinput
  obtain ⟨hroot, hout⟩ := Config.isPlain_make hcwd root outDir writeJsconfig includeHooks hookMarker
    maxWorkers
  exact content?_of_isInput hroot hout h hinput

/-- The package file of a project whose output goes elsewhere. -/
theorem content?_generate_input_bareProject :
    let config := Config.make "/" "p/../p" (some "p/a/b") true true defaultMarker defaultWorkers
    (∃ report, (generate .inTurn "/" config bareProject).result = .ok report) ∧
      config.IsInput bareProject ["p", "package.json"] ∧
      (generate .inTurn "/" config bareProject).state.content? ["p", "package.json"] =
        some (ByteArray.mk #[123, 125]) := by
  intro config
  obtain ⟨report, hreport⟩ := exists_generate_bareProject
  have hinput : config.IsInput bareProject ["p", "package.json"] :=
    ⟨⟨_, .package, by decide⟩, by decide⟩
  have hcontent := content?_generate_input .inTurn (show isAbsolute "/" = true by decide) "p/../p"
    (some "p/a/b") true true defaultMarker defaultWorkers bareProject report hreport _ hinput
  rw [if_neg (by decide)] at hcontent
  exact ⟨⟨report, hreport⟩, hinput, hcontent⟩

/-! ### An output directory that holds the modules -/

/-- A project with one service, whose module is yet to be written. -/
def walksProject : FileTree :=
  ⟨[(["p"], .directory), (["p", "package.json"], .file "{}".toUTF8), (["p", "api"], .directory),
    (["p", "api", "services"], .directory),
    (["p", "api", "services", "Walks.js"], .file "/* Walks with pets. */".toUTF8)]⟩

/-- The settings for a request that puts the output where the modules are. -/
def walksConfig : Config :=
  ⟨"/p", "/p/api", false, true, defaultMarker, defaultWorkers⟩

theorem walksConfig_eq : walksConfig =
    Config.make "/" "/p" (some "/p/api") false true defaultMarker defaultWorkers := by
  decide

/-- The service of the project, as it is declared. -/
def walks : Entity :=
  let e := Entity.blank "Walks" "api/services/Walks.js" .service Entity.rootOwner
  let text := Declaration.serviceClass e
  { e with declarations :=
      ⟨none, some text, some (Entity.fileText (Entity.sections false [] none text))⟩ }

theorem prepare_walksProject :
    (prepare .inTurn walksConfig walksProject).result = .ok (⟨[], [("Walks", 0)]⟩, [walks]) := by
  decide +kernel

theorem exists_generate_walksProject :
    ∃ report, (generate .inTurn "/" walksConfig walksProject).result = .ok report := by
  have hcheck : checkOutDir "/" walksConfig.root walksConfig.outDir = .ok () := by decide
  have hglobals : Text.encodable (Registry.globals ⟨[], [("Walks", 0)]⟩) = true :=
    Text.encodable_intercalate (by decide) (by decide)
  have hlinked : ∀ e ∈ [walks], ∀ text ∈ e.declarations.linked, Text.encodable text = true := by
    intro e he text htext
    rw [List.mem_singleton.mp he] at htext
    obtain rfl := Option.some.inj htext
    exact Text.encodable_append (Text.encodable_intercalate (by decide) (by decide))
      (by decide)
  have hwrite : (writeAll "/" walksConfig ⟨[], [("Walks", 0)]⟩ [walks]
      walksProject).result.isOk = true := by
    rw [writeAll, Declaration.writeOutput_eq,
      Declaration.writeFilesBy_of_encodable _ hglobals hlinked]
    decide +kernel
  exact exists_generate_ok hcheck prepare_walksProject hwrite

/-- **A run can destroy its own input.**  The request is accepted and the run succeeds, and behind it
the module that it has loaded is gone. -/
theorem generate_clears_modules :
    Request.settings "/" walksProject ⟨"/p", some "api", false⟩ = .ok (.ok walksConfig) ∧
      (∃ report, (generate .inTurn "/" walksConfig walksProject).result = .ok report) ∧
      walksConfig.IsInput walksProject ["p", "api", "services", "Walks.js"] ∧
      (generate .inTurn "/" walksConfig walksProject).state.content? ["p", "api", "services", "Walks.js"] =
        none := by
  have hsettings : Request.settings "/" walksProject ⟨"/p", some "api", false⟩ =
      .ok (.ok walksConfig) := by decide
  have hcollect : (collect walksConfig walksProject).result = .ok
      [⟨"/p/api/services/Walks.js", "api/services/Walks.js", "Walks", .service,
        Entity.rootOwner⟩] := by
    decide +kernel
  have hinput : walksConfig.IsInput walksProject ["p", "api", "services", "Walks.js"] :=
    ⟨⟨_, .module hcollect List.mem_cons_self, by decide⟩, by decide⟩
  obtain ⟨report, hreport⟩ := exists_generate_walksProject
  have hmake := walksConfig_eq
  obtain ⟨hroot, hout⟩ := Config.isPlain_make (show isAbsolute "/" = true by decide) "/p"
    (some "/p/api") false true defaultMarker defaultWorkers
  rw [← hmake] at hroot hout
  have hcontent := content?_of_isInput hroot hout hreport hinput
  rw [if_pos (by decide)] at hcontent
  exact ⟨hsettings, ⟨report, hreport⟩, hinput, hcontent⟩

end Rigging.Project
