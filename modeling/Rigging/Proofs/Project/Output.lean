import Rigging.Proofs.Declaration.Legal
import Rigging.Proofs.Declaration.Unquoted
import Rigging.Proofs.Project.Input
import Rigging.Proofs.Project.Lookup
import Rigging.Proofs.Project.Slots

/-!
# What a run leaves in its output directory

Behind a run that succeeds, the output directory holds the output tree and nothing else, every entity
has a file with its linked declarations there, and the report lists each file and each entity once
(`generate_output`).  What the written files import are modules of that tree, as long as no name can end
the string or the member that it is written into; a key with a quote can bring an import of its own
(`generate_imports_nowhere`).  All of it rests on what is known of the entities that a run prepares: they
are named like files, no two alike, and all linked (`prepare_ok_iff`).
-/

namespace Rigging

namespace Project

open Rigging.Path FileTree Declaration

/-! ### What is prepared -/

/-- What is left of a name without its extension is not points alone. -/
theorem exists_mem_stem {name : String} (h : ∃ c ∈ name.toList, c ≠ '.') :
    ∃ c ∈ (stem name).toList, c ≠ '.' := by
  have hparts : name.toList.takeWhile (· == '.') ++ name.toList.dropWhile (· == '.') = name.toList :=
    List.takeWhile_append_dropWhile
  have hdrop : name.toList.drop (name.toList.takeWhile (· == '.')).length =
      name.toList.dropWhile (· == '.') :=
    (congrArg (List.drop _) hparts.symm).trans List.drop_left
  have hfirst := List.head?_dropWhile_not (· == '.') name.toList
  unfold stem
  dsimp only
  rw [hdrop]
  generalize name.toList.dropWhile (· == '.') = rest at hfirst ⊢
  cases hfrom : rest.reverse.dropWhile (· != '.') with
  | nil => exact h
  | cons d before =>
    rw [if_neg (by simp), List.drop_succ_cons, List.drop_zero, String.toList_ofList]
    have hd := List.head?_dropWhile_not (· != '.') rest.reverse
    rw [hfrom] at hd
    have hrest : rest = before.reverse ++ d :: (rest.reverse.takeWhile (· != '.')).reverse := by
      have hall := List.takeWhile_append_dropWhile (p := (· != '.')) (l := rest.reverse)
      rw [hfrom] at hall
      have hback := congrArg List.reverse hall
      simpa using hback.symm
    -- the extension does not start the rest, since the rest starts with no point
    cases hbefore : before.reverse with
    | nil =>
      have hpoint : d = '.' := by simpa using hd
      rw [hrest, hbefore, hpoint] at hfirst
      cases hfirst
    | cons x more =>
      rw [hrest, hbefore] at hfirst
      refine ⟨x, List.mem_append_right _ List.mem_cons_self, ?_⟩
      simpa using hfirst

/-- The name of a module's entity is the name of a file. -/
theorem isName_entityName {path : String} (h : sourceExtension.toList <:+ path.toList) :
    IsName (entityName path) := by
  obtain ⟨front, c, hpieces, hc⟩ := exists_pieces_concat (by decide) h
  have hbase : base path = c := by
    rw [base, hpieces, List.getLast?_concat, Option.getD_some]
  obtain ⟨d, hd, hpoint⟩ : ∃ d ∈ (entityName path).toList, d ≠ '.' := by
    rw [entityName, hbase]
    exact exists_mem_stem ⟨'j', hc.subset (by decide), by decide⟩
  have hne : ∀ s : String, (∀ x ∈ s.toList, x = '.') → entityName path ≠ s := by
    rintro s hs rfl
    exact hpoint (hs d hd)
  exact ⟨hne "" (by decide), hne "." (by decide), hne ".." (by decide), noSlash_entityName path⟩

/-- The modules that are collected are named like files. -/
theorem isName_of_collect {config : Config} {t : FileTree} {sources : List Source}
    (h : (collect config t).result = .ok sources) : ∀ source ∈ sources, IsName source.name := by
  have hscan : ∀ t root owner, ∀ source ∈ scan t root owner, IsName source.name := by
    intro t root owner source hsource
    obtain ⟨kind, place, path, _, hpath, rfl⟩ := mem_scan hsource
    dsimp only
    exact isName_entityName (ending_of_mem_modulesBelow hpath)
  exact gives_collect hscan config t sources h

/-- **The parts of preparing**: modules are collected and loaded, and what has been loaded is built. -/
theorem prepare_ok_iff {schedule : Schedule} {config : Config} {t : FileTree} {registry : Registry}
    {pool : Pool} :
    (prepare schedule config t).result = .ok (registry, pool) ↔
      ∃ sources loaded, (collect config t).result = .ok sources ∧
        (loadAll (schedule.order sources.length) sources t).result = .ok loaded ∧
        Pool.Builds loaded registry pool := by
  have hkept : (collect config t).state = t := keeps_collect config t
  constructor
  · intro h
    obtain ⟨sources, hsources, h, _⟩ := Act.bind_result_ok h
    rw [hkept] at h
    obtain ⟨loaded, hloaded, h, _⟩ := Act.bind_result_ok h
    obtain ⟨registry', hregistry, h, _⟩ := Act.bind_result_ok h
    obtain ⟨⟨u, built⟩, hbuilt, h, _⟩ := Act.bind_result_ok h
    obtain ⟨rfl, rfl⟩ := Prod.mk.inj (Except.ok.inj h)
    rw [Act.result_ofExcept] at hregistry
    rw [Act.onOwn_apply] at hbuilt
    obtain ⟨v, hresult, hleft⟩ := Act.map_eq_ok_iff.mp hbuilt
    exact ⟨sources, loaded, hsources, hloaded, hregistry, hresult, (Prod.mk.inj hleft).2⟩
  · rintro ⟨sources, loaded, hsources, hloaded, hbuilds⟩
    have hbuilt : ∀ s : FileTree,
        (Act.onOwn loaded (Pool.build registry) s).result = .ok ((), pool) := by
      intro s
      rw [Act.onOwn_apply, hbuilds.succeeds, hbuilds.leaves]
      rfl
    unfold prepare
    rw [Act.bind_of_ok hsources, hkept]
    dsimp only
    rw [Act.bind_of_ok hloaded, hbuilds.registry]
    dsimp only
    rw [Act.ofExcept_ok, Act.pure_bind, Act.bind_of_ok (hbuilt _)]
    rfl

/-- What is prepared does not depend on the schedule. -/
theorem prepare_of_schedule {schedule : Schedule} (schedule' : Schedule) {config : Config}
    {t : FileTree} {prepared : Registry × Pool} (h : (prepare schedule config t).result = .ok prepared) :
    (prepare schedule' config t).result = .ok prepared := by
  obtain ⟨registry, pool⟩ := prepared
  obtain ⟨sources, loaded, hsources, hloaded, hbuilds⟩ := prepare_ok_iff.mp h
  refine prepare_ok_iff.mpr ⟨sources, loaded, hsources, ?_, hbuilds⟩
  exact (loadAll_ok_iff (schedule'.perm _)).mpr ((loadAll_ok_iff (schedule.perm _)).mp hloaded)

/-- What the entities are like that a run has prepared. -/
structure Prepared (registry : Registry) (pool : Pool) : Prop where
  models : registry.modelsIn pool = (pool.filter Entity.isModel).map fun e => (e.name, e)
  services : registry.servicesIn pool =
    (pool.filter fun e => e.kind == .service).map fun e => (e.name, e)
  modelNames : Assoc.keys registry.models = (pool.filter Entity.isModel).map Entity.name
  serviceNames : Assoc.keys registry.services =
    (pool.filter fun e => e.kind == .service).map Entity.name
  names : ∀ e ∈ pool, IsName e.name
  nodup : (pool.map Entity.name).Nodup
  closed : ∀ e ∈ pool, e.LinkClosed (registry.modelsIn pool)
  lexical : ∀ e ∈ pool, e.Lexical
  settled : ∃ models : Models, (∀ m ∈ models, m.2.name ∈ pool.map Entity.name) ∧
    ∀ e ∈ pool, e.Settled models

/-- **What is prepared** is named by its files, once each, and linked. -/
theorem prepared_of_prepare {schedule : Schedule} {config : Config} {t : FileTree}
    {registry : Registry} {pool : Pool}
    (h : (prepare schedule config t).result = .ok (registry, pool)) : Prepared registry pool := by
  obtain ⟨sources, loaded, hsources, hloaded, hbuilds⟩ := prepare_ok_iff.mp h
  have hlabels := hbuilds.labels_eq
  have hnamed := isName_of_collect hsources
  have hread : ∀ source ∈ sources, ∀ text,
      Act.Gives (fun e => (e.Fresh ∧ IsName e.name) ∧ e.Lexical) (source.read text) := by
    intro source hsource text s e he
    refine ⟨?_, Entity.lexical_ofSource he⟩
    rw [Entity.gives_ofSource _ _ _ _ text s e he]
    exact ⟨⟨rfl, rfl⟩, hnamed source hsource⟩
  have hloadedAll := gives_loadAll hread _ t loaded hloaded
  have hnames : pool.map Entity.name = loaded.map Entity.name := Entity.names_of_labels hlabels
  obtain ⟨hmodels, hservices⟩ := Registry.keys_eq hbuilds.registry hlabels
  refine
    { models := Registry.modelsIn_eq hbuilds.registry hlabels
      services := Registry.servicesIn_eq hbuilds.registry hlabels
      modelNames := hmodels
      serviceNames := hservices
      names := fun e he => ?_
      nodup := Registry.names_nodup hbuilds.registry hlabels
      closed := hbuilds.linkClosed fun e he => (hloadedAll e he).1.1
      lexical := hbuilds.lexical fun e he => (hloadedAll e he).2
      settled := ⟨registry.modelsIn loaded, fun m hm => ?_, hbuilds.settled⟩ }
  · have hmem := List.mem_map_of_mem (f := Entity.name) he
    rw [hnames] at hmem
    obtain ⟨e', he', hname⟩ := List.mem_map.mp hmem
    rw [← hname]
    exact (hloadedAll e' he').1.2
  · rw [Registry.modelsIn_eq hbuilds.registry rfl] at hm
    obtain ⟨e, he, rfl⟩ := List.mem_map.mp hm
    rw [hnames]
    exact List.mem_map_of_mem (List.mem_filter.mp he).1

namespace Prepared

variable {registry : Registry} {pool : Pool} (h : Prepared registry pool)

include h

theorem mem_of_mem {e : String × Entity}
    (he : e ∈ registry.modelsIn pool ++ registry.servicesIn pool) : e.2 ∈ pool := by
  rw [List.mem_append, h.models, h.services] at he
  rcases he with he | he <;>
  · obtain ⟨e, hmem, rfl⟩ := List.mem_map.mp he
    exact (List.mem_filter.mp hmem).1

theorem allLinked : AllLinked registry pool := by
  intro e he
  obtain ⟨_, _, hlinked⟩ := (h.closed e.2 (h.mem_of_mem he)).linked
  rw [hlinked]
  rfl

theorem fitNames : FitNames registry pool := by
  have hsublist : ∀ p : Entity → Bool, (((pool.filter p).map fun e => (e.name, e)).map
      fun e => e.2.name).Nodup := by
    intro p
    rw [List.map_map]
    exact h.nodup.sublist (List.filter_sublist.map _)
  refine ⟨fun e he => (h.names e he).noSlash, ?_, ?_⟩
  · rw [h.models]
    exact hsublist _
  · rw [h.services]
    exact hsublist _

end Prepared

/-! ### What is written -/

section Written

variable {cwd : String} {config : Config} {registry : Registry} {pool : Pool} {t : FileTree}
  {report : Report}

/-- What a run reports of entities and the files that it has written. -/
def Config.reportOf (config : Config) (registry : Registry) (pool : Pool) (files : List String) :
    Report where
  root := config.root
  outDir := config.outDir
  models := Assoc.keys registry.models
  services := Assoc.keys registry.services
  files
  summaries := Summaries.ofRun ((registry.modelsIn pool).map Prod.snd)
    ((registry.servicesIn pool).map Prod.snd) config.outDir files.length

/-- **The parts of writing**: the output, and behind it the editor's configuration. -/
theorem writeAll_ok (hroot : IsPlain config.root)
    (h : (writeAll cwd config registry pool t).result = .ok report) :
    ∃ files, (writeOutput config.outDir registry pool t).result = .ok files ∧
      report = config.reportOf registry pool files ∧
      config.AddsJsconfig cwd (writeOutput config.outDir registry pool t).state
        (writeAll cwd config registry pool t).state := by
  unfold writeAll at h ⊢
  obtain ⟨files, hfiles, h, hstate⟩ := Act.bind_result_ok h
  refine ⟨files, hfiles, ?_⟩
  rw [hstate]
  dsimp only at h ⊢
  unfold Config.AddsJsconfig
  split at h
  · rename_i hjs
    obtain ⟨made, hmade, h, hlast⟩ := Act.bind_result_ok h
    refine ⟨(Except.ok.inj h).symm, ?_⟩
    rw [if_pos hjs, hlast]
    simp only [hjs, true_and]
    exact ensures_writeJsconfig hroot cwd _ _ made hmade
  · rename_i hjs
    refine ⟨(Except.ok.inj h).symm, fun q => ?_⟩
    rw [if_neg hjs, if_neg fun hplace => hjs hplace.1]
    exact Option.or_none.symm

/-- The editor's configuration does not come into the output directory. -/
theorem Config.AddsJsconfig.get?_below {t' : FileTree} (h : config.AddsJsconfig cwd t t')
    (hout : ¬components config.outDir <+: components config.root)
    (hdirectory : t.get? (components config.outDir) = some .directory) (q : List String) :
    t'.get? (components config.outDir ++ q) = t.get? (components config.outDir ++ q) := by
  rw [h]
  split
  · rename_i hplace
    have hbelow : components config.outDir <+: components config.root ++ [jsconfigFile] :=
      ⟨q, hplace.2⟩
    rcases List.prefix_concat_iff.mp hbelow with heq | hbelow
    · -- the output directory itself stands where the configuration would
      have hnil : q = [] := by
        have hlength := congrArg List.length hplace.2
        rw [List.length_append, Config.jsconfigPlace, ← heq] at hlength
        exact List.eq_nil_of_length_eq_zero (by omega)
      rw [hnil, List.append_nil, hdirectory]
      rfl
    · exact absurd hbelow hout
  · exact Option.or_none

end Written

/-! ### Runs -/

/-- The directory of an entity's file in the output. -/
def outputArea : EntityKind → String
  | .model => "models"
  | .service => "services"

/-- The place of an entity's file in the output. -/
def outputPlace (e : Entity) : List String :=
  [outputArea e.kind, e.name ++ ".d.ts"]

/-- A module of what stands below a place: a file is there whose name it is. -/
def IsModuleAt (t : FileTree) (base m : List String) : Prop :=
  ∃ q, (t.content? (base ++ q)).isSome = true ∧ moduleOf q = m

/-- What a run has to have left and reported for the entities that it prepared. -/
structure Config.HasOutput (config : Config) (registry : Registry) (pool : Pool) (report : Report)
    (after : FileTree) : Prop where
  /-- The output directory holds the output tree and nothing else. -/
  tree : ∀ q, after.get? (components config.outDir ++ q) = (outputTree registry pool).get? q
  /-- Every entity has a file with its linked declarations. -/
  entities : ∀ e ∈ pool, ∃ text, e.declarations.linked = some text ∧
    after.content? (components config.outDir ++ outputPlace e) = some text.toUTF8
  /-- The report lists the files of the tree, each once. -/
  files : report.files = (outputFiles registry pool).map fun file => pathBelow config.outDir file.1
  filesOnce : report.files.Nodup
  filesCount : report.files.length = 4 + report.models.length + report.services.length
  /-- The report names each entity once, and has one summary for each. -/
  names : (report.models ++ report.services).Perm (pool.map Entity.name)
  summaries : Assoc.keys report.summaries.entities = report.models ++ report.services
  summariesOnce : (Assoc.keys report.summaries.entities).Nodup
  /-- The global declarations are those of the entities. -/
  globals : after.content? (components config.outDir ++ ["globals.d.ts"]) =
    some (String.intercalate "\n" (globalLines report.models report.services)).toUTF8

/-- The modules that are imported by the file at a place, as its text is read. -/
def ImportsAt (t : FileTree) (base place : List String) (ms : List (List String)) : Prop :=
  ∃ text, t.content? (base ++ place) = some text.toUTF8 ∧
    ms = (importedPaths text).map (target place.dropLast)

/-- What the global declarations import are modules of the output, with every entity's module once. -/
def Config.GlobalsClosed (config : Config) (pool : Pool) (after : FileTree) : Prop :=
  ∃ ms, ImportsAt after (components config.outDir) ["globals.d.ts"] ms ∧
    (∀ m ∈ ms, IsModuleAt after (components config.outDir) m) ∧
    ∀ e ∈ pool, ms.count (moduleOf (outputPlace e)) = 1

/-- What the files of entities import are modules of the output. -/
def Config.EntitiesClosed (config : Config) (pool : Pool) (after : FileTree) : Prop :=
  ∀ e ∈ pool, ∃ ms, ImportsAt after (components config.outDir) (outputPlace e) ms ∧
    ∀ m ∈ ms, IsModuleAt after (components config.outDir) m

namespace Prepared

variable {registry : Registry} {pool : Pool} (h : Prepared registry pool)

include h

/-- **What is written of them** is the output tree, file by file. -/
theorem output_written {cwd : String} {config : Config} (hroot : IsPlain config.root)
    (hout : IsPlain config.outDir) (hchecked : checkOutDir cwd config.root config.outDir = .ok ())
    {t : FileTree} (ht : t.IsTree) {files : List String}
    (hfiles : (writeOutput config.outDir registry pool t).result = .ok files) :
    files = (outputFiles registry pool).map (fun file => pathBelow config.outDir file.1) ∧
      (writeOutput config.outDir registry pool t).state.get? (components config.outDir) =
        some .directory ∧
      ∀ q, (writeOutput config.outDir registry pool t).state.get? (components config.outDir ++ q) =
        (outputTree registry pool).get? q := by
  obtain ⟨hnull, henc⟩ := checkPath_ok (checkOutDir_ok hroot hout hchecked).1
  obtain ⟨hpaths, htree⟩ := get?_writeOutput hout (components_outDir_ne_nil hroot hout hchecked) hnull
    henc h.allLinked ht hfiles h.fitNames
  have hdirectory := htree []
  rw [List.append_nil] at hdirectory
  exact ⟨hpaths, hdirectory, htree⟩

/-- The entities of a kind are those that the registry names. -/
theorem mem_kind {e : Entity} (he : e ∈ pool) :
    (e.kind = .model ∧ (e.name, e) ∈ registry.modelsIn pool) ∨
      (e.kind = .service ∧ (e.name, e) ∈ registry.servicesIn pool) := by
  rw [h.models, h.services]
  cases hkind : e.kind with
  | model =>
    refine .inl ⟨rfl, List.mem_map_of_mem (List.mem_filter.mpr ⟨he, ?_⟩)⟩
    rw [Entity.isModel, hkind]
    rfl
  | service =>
    refine .inr ⟨rfl, List.mem_map_of_mem (List.mem_filter.mpr ⟨he, ?_⟩)⟩
    rw [hkind]
    rfl

/-- Every entity has its file in the output. -/
theorem mem_outputFiles {e : Entity} (he : e ∈ pool) {text : String}
    (htext : e.declarations.linked = some text) : (outputPlace e, text) ∈ outputFiles registry pool := by
  unfold outputPlace outputFiles
  rcases h.mem_kind he with ⟨hkind, hmem⟩ | ⟨hkind, hmem⟩
  · refine List.mem_append_left _ (List.mem_append_right _ (List.mem_cons_of_mem _ ?_))
    exact mem_entityFiles.mpr ⟨_, hmem, htext, by rw [hkind]; rfl⟩
  · refine List.mem_append_right _ ?_
    exact mem_entityFiles.mpr ⟨_, hmem, htext, by rw [hkind]; rfl⟩

/-- The names of models and services are those of all entities. -/
theorem names_perm :
    (Assoc.keys registry.models ++ Assoc.keys registry.services).Perm (pool.map Entity.name) := by
  have hkinds : (pool.filter fun e => e.kind == .service) = pool.filter fun e => !e.isModel := by
    refine List.filter_congr fun e _ => ?_
    rw [Entity.isModel]
    cases e.kind <;> rfl
  rw [h.modelNames, h.serviceNames, hkinds, ← List.map_append]
  exact (List.filter_append_perm Entity.isModel pool).map _

theorem forall_keys {P : String → Prop} (hpool : ∀ e ∈ pool, P e.name) :
    (∀ n ∈ Assoc.keys registry.models, P n) ∧ ∀ n ∈ Assoc.keys registry.services, P n := by
  have hnamed : ∀ n ∈ pool.map Entity.name, P n := by
    intro n hn
    obtain ⟨e, he, rfl⟩ := List.mem_map.mp hn
    exact hpool e he
  refine ⟨fun n hn => hnamed n ?_, fun n hn => hnamed n ?_⟩
  · exact h.names_perm.mem_iff.mp (List.mem_append_left _ hn)
  · exact h.names_perm.mem_iff.mp (List.mem_append_right _ hn)

theorem nodup_keys : (Assoc.keys registry.models ++ Assoc.keys registry.services).Nodup :=
  h.names_perm.nodup_iff.mpr h.nodup

/-- There is a file for each entity, beside the four that every output has. -/
theorem length_outputFiles_keys : (outputFiles registry pool).length =
    4 + (Assoc.keys registry.models).length + (Assoc.keys registry.services).length := by
  rw [length_outputFiles h.allLinked, h.modelNames, h.serviceNames, h.models, h.services]
  simp only [List.length_map]

/-- The entities are summed up one by one, under their names. -/
theorem keys_summaries (outDir : String) (count : Nat) :
    Assoc.keys (Summaries.ofRun ((registry.modelsIn pool).map Prod.snd)
      ((registry.servicesIn pool).map Prod.snd) outDir count).entities =
        Assoc.keys registry.models ++ Assoc.keys registry.services := by
  have hnames : Assoc.keys ((((registry.modelsIn pool).map Prod.snd) ++
      ((registry.servicesIn pool).map Prod.snd)).map fun e => (e.name, e.summary)) =
      Assoc.keys registry.models ++ Assoc.keys registry.services := by
    rw [h.models, h.services, h.modelNames, h.serviceNames, Assoc.keys]
    simp only [List.map_append, List.map_map]
    rfl
  have hnodup := h.nodup_keys
  rw [← hnames] at hnodup ⊢
  exact congrArg Assoc.keys (Assoc.ofPairs_of_nodup hnodup)

/-- Where the global declarations lead: to modules of the output. -/
theorem mem_outputModules : ∀ m ∈ (globalPaths (Assoc.keys registry.models)
    (Assoc.keys registry.services)).map (target []), m ∈ outputModules registry pool := by
  intro m htarget
  obtain ⟨hmodels, hservices⟩ := h.forall_keys h.names
  rw [target_globalPaths hmodels hservices, h.modelNames, h.serviceNames, List.map_map,
    List.map_map, List.mem_append, List.mem_append] at htarget
  obtain ⟨hmodel, hservice⟩ := entity_mem_outputModules h.allLinked
  rcases htarget with (hfixed | hentity) | hentity
  · refine fixed_mem_outputModules _ ?_
    rcases List.mem_cons.mp hfixed with hfixed | hfixed
    · rw [hfixed]
      decide
    · rw [List.mem_singleton.mp hfixed]
      decide
  · obtain ⟨e, he, hplace⟩ := List.mem_map.mp hentity
    rw [← hplace]
    refine hmodel (e.name, e) ?_
    rw [h.models]
    exact List.mem_map_of_mem he
  · obtain ⟨e, he, hplace⟩ := List.mem_map.mp hentity
    rw [← hplace]
    refine hservice (e.name, e) ?_
    rw [h.services]
    exact List.mem_map_of_mem he

/-- The module of an entity is imported once. -/
theorem count_target {e : Entity} (he : e ∈ pool) :
    ((globalPaths (Assoc.keys registry.models) (Assoc.keys registry.services)).map
      (target [])).count (moduleOf (outputPlace e)) = 1 := by
  obtain ⟨hmodels, hservices⟩ := h.forall_keys h.names
  obtain ⟨hm, hs, _⟩ := List.nodup_append'.mp h.nodup_keys
  refine List.count_eq_one_of_mem (nodup_globalPaths hmodels hservices hm hs) ?_
  rw [target_globalPaths hmodels hservices, outputPlace, moduleOf_entity, h.modelNames,
    h.serviceNames, List.map_map, List.map_map, List.mem_append, List.mem_append]
  cases hkind : e.kind with
  | model =>
    refine .inl (.inr (List.mem_map.mpr ⟨e, List.mem_filter.mpr ⟨he, ?_⟩, rfl⟩))
    rw [Entity.isModel, hkind]
    rfl
  | service =>
    refine .inr (List.mem_map.mpr ⟨e, List.mem_filter.mpr ⟨he, ?_⟩, rfl⟩)
    rw [hkind]
    rfl

/-- **What the file of an entity imports**, if no name has a quote in it. -/
theorem importedPaths_linked (hplain : ∀ e ∈ pool, e.PlainNames) {e : Entity} (he : e ∈ pool)
    {text : String} (htext : e.declarations.linked = some text) :
    importedPaths text = entityPaths e.isModel := by
  obtain ⟨models, hnames, hsettled⟩ := h.settled
  have hmodels : ∀ m ∈ models, Script.Unquoted m.2.name := by
    intro m hm
    obtain ⟨e', he', hname⟩ := List.mem_map.mp (hnames m hm)
    rw [← hname]
    exact (hplain e' he').name
  have hinstance : ∀ e ∈ pool, ∀ text ∈ e.declarations.instanceClass,
      Reads Scan.AtStart text [] Scan.Calm :=
    fun e he => (h.closed e he).reads_instanceText (h.lexical e he) (hsettled e he) (hplain e he) hmodels
  refine (h.closed e he).importedPaths_eq (fun m hm => ?_) (hinstance e he)
    (Entity.reads_ownClass (h.lexical e he) (hsettled e he) (hplain e he)) htext
  exact hinstance m.2 (h.mem_of_mem (List.mem_append_left _ hm))

end Prepared

section Runs

variable {config : Config} {registry : Registry} {pool : Pool} {after : FileTree}

/-- **What stands in the output directory** behind a run is the output tree. -/
theorem get?_generate_below {schedule : Schedule} {cwd : String} {t : FileTree} {report : Report}
    (hroot : IsPlain config.root) (hout : IsPlain config.outDir) (ht : t.IsTree)
    (h : (generate schedule cwd config t).result = .ok report) :
    ∃ registry pool, (prepare schedule config t).result = .ok (registry, pool) ∧
      report = config.reportOf registry pool
        ((outputFiles registry pool).map fun file => pathBelow config.outDir file.1) ∧
      ∀ q, (generate schedule cwd config t).state.get? (components config.outDir ++ q) =
        (outputTree registry pool).get? q := by
  obtain ⟨hchecked, ⟨registry, pool⟩, hprepare, hwrite, hstate⟩ := generate_ok h
  obtain ⟨files, hfiles, hreport, hadds⟩ := writeAll_ok hroot hwrite
  obtain ⟨hpaths, hdirectory, htree⟩ :=
    (prepared_of_prepare hprepare).output_written hroot hout hchecked ht hfiles
  have houtside := (checkOutDir_ok hroot hout hchecked).2
  refine ⟨registry, pool, hprepare, hpaths ▸ hreport, fun q => ?_⟩
  rw [hstate, hadds.get?_below houtside hdirectory, htree]

/-- The modules of what stands in the output directory are those of the output. -/
theorem isModuleAt_iff {base m : List String} (hnames : FitNames registry pool)
    (htree : ∀ q, after.get? (base ++ q) = (outputTree registry pool).get? q) :
    IsModuleAt after base m ↔ m ∈ outputModules registry pool := by
  constructor
  · rintro ⟨q, hq, hmodule⟩
    obtain ⟨content, hcontent⟩ := Option.isSome_iff_exists.mp hq
    rw [content?_eq_some_iff, htree] at hcontent
    obtain ⟨text, hfile⟩ := exists_mem_outputFiles hcontent
    exact List.mem_map.mpr ⟨(q, text), hfile, hmodule⟩
  · intro h
    obtain ⟨file, hfile, hmodule⟩ := List.mem_map.mp h
    refine ⟨file.1, ?_, hmodule⟩
    rw [content?, htree, ← content?, content?_outputTree hnames hfile]
    rfl

/-- **A tree that is the output tree is all that is asked for.** -/
theorem Config.hasOutput_of_tree (hp : Prepared registry pool) (hout : IsPlain config.outDir)
    (htree : ∀ q, after.get? (components config.outDir ++ q) = (outputTree registry pool).get? q) :
    config.HasOutput registry pool (config.reportOf registry pool
      ((outputFiles registry pool).map fun file => pathBelow config.outDir file.1)) after := by
  have hcontent : ∀ file ∈ outputFiles registry pool,
      after.content? (components config.outDir ++ file.1) = some file.2.toUTF8 := by
    intro file hfile
    rw [content?, htree, ← content?]
    exact content?_outputTree hp.fitNames hfile
  have hnames := isName_of_mem_outputFiles (r := registry) hp.fitNames.noSlash
  refine
    { tree := htree
      entities := fun e he => ?_
      files := rfl
      filesOnce := nodup_pathBelow hout hnames (nodup_outputFiles hp.fitNames)
      filesCount := ?_
      names := hp.names_perm
      summaries := hp.keys_summaries _ _
      summariesOnce := ?_
      globals := ?_ }
  · obtain ⟨_, _, hlinked⟩ := (hp.closed e he).linked
    exact ⟨_, hlinked, hcontent _ (hp.mem_outputFiles he hlinked)⟩
  · exact (List.length_map _).trans hp.length_outputFiles_keys
  · exact (hp.keys_summaries _ _).symm ▸ hp.nodup_keys
  · refine hcontent (["globals.d.ts"], registry.globals) ?_
    exact List.mem_append_left _ (List.mem_append_right _ List.mem_cons_self)

section Closed

variable {report : Report} (hp : Prepared registry pool)

include hp

/-- **The global declarations are closed**, if all names can be written into a path as they are. -/
theorem Config.HasOutput.globalsClosed (h : config.HasOutput registry pool (config.reportOf registry pool
      ((outputFiles registry pool).map fun file => pathBelow config.outDir file.1)) after)
    (hverbatim : ∀ e ∈ pool, Verbatim e.name) : config.GlobalsClosed pool after := by
  have hfits : ∀ e ∈ pool, FitsPath e.name := fun e he => ⟨hverbatim e he, (hp.names e he).noSlash⟩
  obtain ⟨hmodels, hservices⟩ := hp.forall_keys hfits
  have hpaths := importedPaths_globals hmodels hservices
  refine ⟨_, ⟨_, h.globals, rfl⟩, ?_, ?_⟩
  · intro m hm
    exact (isModuleAt_iff hp.fitNames h.tree).mpr (hp.mem_outputModules m (hpaths ▸ hm))
  · intro e he
    exact hpaths ▸ hp.count_target he

/-- **The files of entities are closed**, if no name has a quote in it. -/
theorem Config.HasOutput.entitiesClosed (h : config.HasOutput registry pool report after)
    (hplain : ∀ e ∈ pool, e.PlainNames) : config.EntitiesClosed pool after := by
  intro e he
  obtain ⟨text, htext, hcontent⟩ := h.entities e he
  refine ⟨_, ⟨text, hcontent, rfl⟩, fun m hm => ?_⟩
  rw [hp.importedPaths_linked hplain he htext] at hm
  refine (isModuleAt_iff hp.fitNames h.tree).mpr (fixed_mem_outputModules _ ?_)
  rw [outputPlace] at hm
  cases hkind : e.kind with
  | service =>
    rw [entityPaths, Entity.isModel, hkind] at hm
    cases hm
  | model =>
    have htarget : m = target ["models"] "../sails/model" := by
      rw [entityPaths, Entity.isModel, hkind] at hm
      exact List.mem_singleton.mp hm
    rw [htarget]
    decide

end Closed

end Runs

/-! ### A project with one model -/

/-- A project with one model, which has an attribute under a string. -/
def petProject (key : String) : FileTree :=
  ⟨[(["p"], .directory), (["p", "package.json"], .file "\x7b\x7d".toUTF8), (["p", "api"], .directory),
    (["p", "api", "models"], .directory),
    (["p", "api", "models", "Pet.js"], .file (Entity.quotedText key).toUTF8)]⟩

def petConfig : Config :=
  ⟨"/p", "/p/types", false, true, defaultMarker, defaultWorkers⟩

theorem petConfig_eq : petConfig =
    Config.make "/" "/p" (some "/p/types") false true defaultMarker defaultWorkers := by
  decide

def petRegistry : Registry := ⟨[("Pet", 0)], []⟩

/-- The members of the model's instances: the identifier and the attribute. -/
def petMembers (name : String) : List String :=
  ["  /**\n   * " ++ idDoc.description ++ "\n   */\n  id: string | number;",
    "  " ++ name ++ "?: string;"]

def petInstances (name : String) : String :=
  classText "export declare abstract class $PetInstance" (petMembers name)

def petStatic : String :=
  "export declare abstract class Pet extends $ailsModel<$PetInstance> \x7b\n\x7d"

/-- The text of the model's file. -/
def petText (name : String) : String :=
  Entity.fileText (Entity.sections true [] (some (petInstances name)) petStatic)

/-- The model of the project, as it is declared. -/
def pet (name : String) : Entity :=
  { Entity.quoted name with
    declarations := ⟨some (petInstances name), some petStatic, some (petText name)⟩ }

theorem linked_pet (name : String) : (pet name).declarations.linked = some (petText name) := rfl

/-- A key that ends the class that it is written into, imports a module and opens another class, as it is
spelled and as it is read. -/
def strayKey : String × String :=
  ("tag: any; \x7d\\nimport \"./nowhere\";\\ndeclare class Rest \x7b tail",
    "tag: any; \x7d\nimport \"./nowhere\";\ndeclare class Rest \x7b tail")

def petKeys : List (String × String) := [("kennel", "kennel"), strayKey]

theorem prepare_petProject : ∀ key ∈ petKeys,
    (prepare .inTurn petConfig (petProject key.1)).result = .ok (petRegistry, [pet key.2]) := by
  decide +kernel

theorem encodable_petText {name : String} (h : Text.encodable name = true) :
    Text.encodable (petText name) = true := by
  have hmembers : ∀ m ∈ petMembers name, Text.encodable m = true := by
    have hid : Text.encodable idDoc.description = true :=
      Text.encodable_append (by decide) (by decide)
    refine List.forall_mem_cons.mpr ⟨?_, List.forall_mem_singleton.mpr ?_⟩
    · exact Text.encodable_append (Text.encodable_append (by decide) hid) (by decide)
    · exact Text.encodable_append (Text.encodable_append (by decide) h) (by decide)
  have hinstances : Text.encodable (petInstances name) = true :=
    Text.encodable_append (Text.encodable_append (by decide)
      (Text.encodable_intercalate (by decide) hmembers)) (by decide)
  refine Text.encodable_append (Text.encodable_intercalate (by decide) ?_) (by decide)
  refine List.forall_mem_cons.mpr ⟨by decide, List.forall_mem_cons.mpr ⟨?_, ?_⟩⟩
  · exact Text.encodable_append (by decide) hinstances
  · exact List.forall_mem_singleton.mpr (Text.encodable_append (by decide) (by decide))

theorem exists_generate_petProject : ∀ key ∈ petKeys,
    ∃ report, (generate .inTurn "/" petConfig (petProject key.1)).result = .ok report := by
  have hcheck : checkOutDir "/" petConfig.root petConfig.outDir = .ok () := by decide
  have hglobals : Text.encodable petRegistry.globals = true :=
    Text.encodable_intercalate (by decide) (by decide)
  have hkeys : ∀ key ∈ petKeys, Text.encodable key.2 = true := by decide
  have hlinked : ∀ key ∈ petKeys, ∀ e ∈ [pet key.2], ∀ text ∈ e.declarations.linked,
      Text.encodable text = true := by
    intro key hkey e he text htext
    rw [List.mem_singleton.mp he, linked_pet] at htext
    rw [← Option.some.inj htext]
    exact encodable_petText (hkeys key hkey)
  have hwrite : ∀ key ∈ petKeys,
      (writeAll "/" petConfig petRegistry [pet key.2] (petProject key.1)).result.isOk = true := by
    intro key hkey
    -- the texts can be encoded, so that evaluating the run need not take them apart
    rw [writeAll, Declaration.writeOutput_eq,
      Declaration.writeFilesBy_of_encodable _ hglobals (hlinked key hkey)]
    revert key
    decide +kernel
  intro key hkey
  exact exists_generate_ok hcheck (prepare_petProject key hkey) (hwrite key hkey)

/-- The import that the key brings is found. -/
theorem importedPaths_strayKey :
    importedPaths (petText strayKey.2) = ["../sails/model", "./nowhere"] := by
  rw [importedPaths, petText, Entity.fileText, String.toList_append, String.toList_intercalate]
  decide +kernel

/-! ### The output -/

/-- **The output of a run is exact, and closed up to names that end what they are written into.**  In a
tree, behind a run that succeeds, the output directory holds the files of the entities that were prepared
and nothing else, and the report lists each of them once.  The imports of the global declarations lead to
files that were written, and to every entity's file once, if no entity's name has a quote, a backslash or
a line break in it; those of the entities' files do if no name of an entity or of its members has a quote
in it. -/
theorem generate_output (schedule : Schedule) {cwd : String} (hcwd : isAbsolute cwd = true)
    (root : String) (outDir : Option String) (writeJsconfig includeHooks : Bool) (hookMarker : String)
    (maxWorkers : Int) {t : FileTree} (ht : t.IsTree) :
    let config := Config.make cwd root outDir writeJsconfig includeHooks hookMarker maxWorkers
    ∀ report, (generate schedule cwd config t).result = .ok report →
      ∃ registry pool, (prepare schedule config t).result = .ok (registry, pool) ∧
        config.HasOutput registry pool report (generate schedule cwd config t).state ∧
        ((∀ e ∈ pool, Verbatim e.name) →
          config.GlobalsClosed pool (generate schedule cwd config t).state) ∧
        ((∀ e ∈ pool, e.PlainNames) →
          config.EntitiesClosed pool (generate schedule cwd config t).state) := by
  intro config report h
  obtain ⟨hroot, hout⟩ := Config.isPlain_make hcwd root outDir writeJsconfig includeHooks hookMarker
    maxWorkers
  obtain ⟨registry, pool, hprepare, rfl, htree⟩ := get?_generate_below hroot hout ht h
  have hp := prepared_of_prepare hprepare
  have houtput := Config.hasOutput_of_tree hp hout htree
  exact ⟨registry, pool, hprepare, houtput, houtput.globalsClosed hp, houtput.entitiesClosed hp⟩

/-- A model whose attribute has a plain name: its declaration is the fifth file, it imports the base
class of models, and the global declarations import it. -/
theorem generate_output_petProject :
    (petProject "kennel").IsTree ∧ ∃ report,
      (generate .inTurn "/" petConfig (petProject "kennel")).result = .ok report ∧
      report.files.length = 5 ∧
      petConfig.HasOutput petRegistry [pet "kennel"] report
        (generate .inTurn "/" petConfig (petProject "kennel")).state ∧
      petConfig.GlobalsClosed [pet "kennel"]
        (generate .inTurn "/" petConfig (petProject "kennel")).state ∧
      petConfig.EntitiesClosed [pet "kennel"]
        (generate .inTurn "/" petConfig (petProject "kennel")).state := by
  have htree : (petProject "kennel").IsTree := by decide
  have hkey : ("kennel", "kennel") ∈ petKeys := List.mem_cons_self
  have hpet := prepare_petProject ("kennel", "kennel") hkey
  obtain ⟨report, hreport⟩ := exists_generate_petProject ("kennel", "kennel") hkey
  dsimp only at hpet hreport
  have houtput := generate_output .inTurn (show isAbsolute "/" = true by decide) "/p" (some "/p/types")
    false true defaultMarker defaultWorkers htree report
  rw [← petConfig_eq] at houtput
  obtain ⟨registry, pool, hprepare, houtput, hglobals, hentities⟩ := houtput hreport
  obtain ⟨rfl, rfl⟩ := Prod.mk.inj (Except.ok.inj (hprepare.symm.trans hpet))
  have hverbatim : ∀ e ∈ [pet "kennel"], Verbatim e.name := by decide
  have hplain : ∀ e ∈ [pet "kennel"], e.PlainNames := by
    intro e he
    rw [List.mem_singleton.mp he]
    exact ⟨by decide, by decide, by decide⟩
  refine ⟨htree, report, hreport, ?_, houtput, hglobals hverbatim, hentities hplain⟩
  have hnames := houtput.names.length_eq
  rw [List.length_append] at hnames
  rw [houtput.filesCount, Nat.add_assoc, hnames]
  rfl

/-- **A key can bring an import that leads nowhere.**  The run succeeds, and the file of the model
imports a module that is not there. -/
theorem generate_imports_nowhere :
    ∃ report, (generate .inTurn "/" petConfig (petProject strayKey.1)).result = .ok report ∧
      ∃ ms, ImportsAt (generate .inTurn "/" petConfig (petProject strayKey.1)).state
          (components petConfig.outDir) (outputPlace (pet strayKey.2)) ms ∧
        ["models", "nowhere"] ∈ ms ∧
        ¬IsModuleAt (generate .inTurn "/" petConfig (petProject strayKey.1)).state
          (components petConfig.outDir) ["models", "nowhere"] := by
  have hkey : strayKey ∈ petKeys := List.mem_cons_of_mem _ List.mem_cons_self
  have htree : (petProject strayKey.1).IsTree := by decide
  obtain ⟨report, hreport⟩ := exists_generate_petProject _ hkey
  obtain ⟨hroot, hout⟩ := Config.isPlain_make (show isAbsolute "/" = true by decide) "/p"
    (some "/p/types") false true defaultMarker defaultWorkers
  rw [← petConfig_eq] at hroot hout
  obtain ⟨registry, pool, hprepare, rfl, hafter⟩ := get?_generate_below hroot hout htree hreport
  obtain ⟨rfl, rfl⟩ :=
    Prod.mk.inj (Except.ok.inj (hprepare.symm.trans (prepare_petProject _ hkey)))
  have hp := prepared_of_prepare hprepare
  obtain ⟨text, htext, hcontent⟩ :=
    (Config.hasOutput_of_tree hp hout hafter).entities _ List.mem_cons_self
  rw [linked_pet] at htext
  rw [← Option.some.inj htext] at hcontent
  refine ⟨_, hreport, _, ⟨_, hcontent, rfl⟩, ?_, ?_⟩
  · rw [importedPaths_strayKey]
    decide
  · rw [isModuleAt_iff hp.fitNames hafter]
    decide

end Project

end Rigging
