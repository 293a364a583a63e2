import Rigging.Proofs.Declaration.Files
import Rigging.Proofs.Declaration.Globals
import Rigging.Proofs.Declaration.Scan

/-!
# What the output imports

A file of the output is the module of its place without the ending, and the path of an import leads to a
module, seen from the directory of the file that it stands in.  Where names can be written into a path
as they are, the global declarations import just the paths that they are meant to
(`importedPaths_globals`), and these lead to one list of modules (`target_globalPaths`), with no module
in it twice (`nodup_globalPaths`).  The file of an entity imports the base class of models, or nothing,
if nothing is found in its classes (`importedPaths_fileText`).
-/

namespace Rigging.Declaration

open Rigging.Path
open Scan (AtStart Calm InCode)
open Script (isQuote)

/-- The module that a path leads to from a directory. -/
def target (directory : List String) (path : String) : List String :=
  settle true directory.reverse (pieces path)

/-- The name of a file without the ending of a declaration file, or of a script. -/
def moduleName (file : String) : String :=
  let cs := file.toList
  if ".d.ts".toList.isSuffixOf cs then String.ofList (cs.take (cs.length - 5))
  else if ".ts".toList.isSuffixOf cs then String.ofList (cs.take (cs.length - 3))
  else file

/-- The module that the file at a place is. -/
def moduleOf : List String → List String
  | [] => []
  | [file] => [moduleName file]
  | c :: d :: place => c :: moduleOf (d :: place)

theorem moduleName_append (name : String) : moduleName (name ++ ".d.ts") = name := by
  have hlist : (name ++ ".d.ts").toList = name.toList ++ ".d.ts".toList := String.toList_append
  have hending : ".d.ts".toList.isSuffixOf (name ++ ".d.ts").toList = true := by
    rw [List.isSuffixOf_iff_suffix, hlist]
    exact List.suffix_append _ _
  have hlength : (name.toList ++ ".d.ts".toList).length - 5 = name.toList.length := by
    rw [List.length_append]
    rfl
  rw [moduleName, if_pos hending, hlist, hlength, List.take_left, String.ofList_toList]

/-! ### The global declarations -/

/-- The paths that the global declarations are meant to import. -/
def globalPaths (models services : List String) : List String :=
  ["./sails/sails", "./sails/public"] ++ models.map ("./models/" ++ ·) ++
    services.map ("./services/" ++ ·)

/-- Lines, each of them with its end. -/
def ended (lines : List String) : String :=
  String.join (lines.map (· ++ "\n"))

theorem ended_append (lines more : List String) : ended (lines ++ more) = ended lines ++ ended more := by
  rw [ended, List.map_append, String.join_append]
  rfl

/-- A last line that is empty ends the line in front of it. -/
theorem intercalate_concat_empty (lines : List String) :
    String.intercalate "\n" (lines ++ [""]) = ended lines := by
  induction lines with
  | nil => rfl
  | cons line lines ih =>
    have hne : lines ++ [""] ≠ [] := List.append_ne_nil_of_right_ne_nil _ (List.cons_ne_nil _ _)
    rw [List.cons_append, String.intercalate_cons_of_ne_nil hne, ih, ended, ended, List.map_cons,
      String.join_cons]

/-- Lines are read one by one. -/
theorem reads_lines {α : Type} {text : α → String} {found : α → List String} {xs : List α}
    (h : ∀ x ∈ xs, Reads InCode (text x ++ "\n") (found x) InCode) :
    Reads InCode (ended (xs.map text)) (xs.flatMap found) InCode := by
  induction xs with
  | nil => exact Reads.nil
  | cons x xs ih =>
    obtain ⟨hx, hxs⟩ := List.forall_mem_cons.mp h
    rw [List.map_cons, ended, List.map_cons, String.join_cons, List.flatMap_cons]
    exact hx.append (ih hxs)

/-- Lines in which there are neither strings nor comments. -/
theorem reads_plain {lines : List String} (h : ∀ line ∈ lines, IsCode line) :
    Reads InCode (ended lines) [] InCode := by
  have hall : Reads InCode (ended (lines.map id)) (lines.flatMap fun _ => []) InCode :=
    reads_lines fun line hline => (reads_code (by decide)).after (reads_code (h line hline))
  rwa [List.map_id, List.flatMap_eq_nil_iff.mpr fun _ _ => rfl] at hall

/-- Imports, one on each line. -/
theorem reads_imports {α : Type} {names path : α → String} {xs : List α}
    (h : ∀ x ∈ xs, IsCode (names x) ∧ Verbatim (path x)) :
    Reads InCode (ended (xs.map fun x => importText (names x) (path x))) (xs.map path) InCode := by
  have hnewline : Reads InCode "\n" [] InCode := reads_code (by decide)
  have hall : Reads InCode (ended (xs.map fun x => importText (names x) (path x)))
      (xs.flatMap fun x => [path x]) InCode :=
    reads_lines fun x hx => (reads_import (h x hx).1 (h x hx).2).append hnewline
  rwa [← List.map_eq_flatMap] at hall

section Parts

variable {lines more front fs gs : List String} (hlines : Reads InCode (ended lines) fs InCode)

include hlines

theorem Reads.ended_append (hmore : Reads InCode (ended more) gs InCode) :
    Reads InCode (ended (lines ++ more)) (fs ++ gs) InCode := by
  rw [Declaration.ended_append]
  exact hlines.append hmore

theorem Reads.ended_quiet (hmore : Reads InCode (ended more) [] InCode) :
    Reads InCode (ended (lines ++ more)) fs InCode := by
  have hall := hlines.ended_append hmore
  rwa [List.append_nil] at hall

theorem reads_headed (hfront : Reads InCode (ended front) [] InCode) :
    Reads InCode (ended (headed front lines)) fs InCode := by
  unfold headed
  split
  · rename_i hempty
    rwa [List.isEmpty_iff.mp hempty] at hlines
  · exact hfront.ended_append hlines

end Parts

/-- A name that can be written into code and into a path as it is. -/
structure FitsPath (name : String) : Prop where
  verbatim : Verbatim name
  noSlash : '/' ∉ name.toList

theorem FitsPath.isCode {name : String} (h : FitsPath name) : IsCode name := by
  intro c hc
  refine ⟨(h.verbatim c hc).1, ?_⟩
  rintro rfl
  exact h.noSlash hc

theorem isCode_instanceName {name : String} (h : IsCode name) : IsCode (TypeExpr.instanceName name) :=
  isCode_append.mpr ⟨isCode_append.mpr ⟨by decide, h⟩, by decide⟩

theorem isCode_globalConstant {name : String} (h : IsCode name) : IsCode (globalConstant name) := by
  unfold globalConstant
  simp only [isCode_append, h, and_true]
  decide

theorem modelImport_eq (name : String) :
    modelImport name =
      importText (name ++ ", " ++ TypeExpr.instanceName name) ("./models/" ++ name) := by
  have hjoin : " \x7d from './models/" = " \x7d from '" ++ "./models/" := by decide
  rw [modelImport, hjoin, importText]
  simp only [String.append_assoc]

theorem serviceImport_eq (name : String) :
    serviceImport name = importText name ("./services/" ++ name) := by
  have hjoin : " \x7d from './services/" = " \x7d from '" ++ "./services/" := by decide
  rw [serviceImport, hjoin, importText]
  simp only [String.append_assoc]

section Names

variable {models services names : List String}

theorem reads_modelImports (h : ∀ n ∈ models, FitsPath n) :
    Reads InCode (ended (models.map modelImport)) (models.map ("./models/" ++ ·)) InCode := by
  rw [funext modelImport_eq]
  refine reads_imports fun n hn => ⟨?_, verbatim_append.mpr ⟨by decide, (h n hn).verbatim⟩⟩
  have hname := (h n hn).isCode
  exact isCode_append.mpr ⟨isCode_append.mpr ⟨hname, by decide⟩, isCode_instanceName hname⟩

theorem reads_serviceImports (h : ∀ n ∈ services, FitsPath n) :
    Reads InCode (ended (services.map serviceImport)) (services.map ("./services/" ++ ·)) InCode := by
  rw [funext serviceImport_eq]
  exact reads_imports fun n hn =>
    ⟨(h n hn).isCode, verbatim_append.mpr ⟨by decide, (h n hn).verbatim⟩⟩

theorem reads_constants {name : String → String} (h : ∀ n ∈ names, IsCode (name n)) :
    Reads InCode (ended (names.map fun n => globalConstant (name n))) [] InCode := by
  refine reads_plain fun line hline => ?_
  obtain ⟨n, hn, rfl⟩ := List.mem_map.mp hline
  exact isCode_globalConstant (h n hn)

/-- **What the global declarations import**, if all names can be written into a path. -/
theorem importedPaths_globals (hmodels : ∀ n ∈ models, FitsPath n)
    (hservices : ∀ n ∈ services, FitsPath n) :
    importedPaths (globals models services) = globalPaths models services := by
  have hframework : Reads InCode (ended ["import \x7b sails \x7d from './sails/sails';",
      "import \x7b SailsRequest, SailsResponse \x7d from './sails/public';"])
      ["./sails/sails", "./sails/public"] InCode := by
    let lines := [("sails", "./sails/sails"), ("SailsRequest, SailsResponse", "./sails/public")]
    have hlines : ["import \x7b sails \x7d from './sails/sails';",
        "import \x7b SailsRequest, SailsResponse \x7d from './sails/public';"] =
        lines.map fun x => importText x.1 x.2 := by decide
    have hfits : ∀ x ∈ lines, IsCode x.1 ∧ Verbatim x.2 := by decide
    rw [hlines]
    exact reads_imports hfits
  have hmodelsComment : Reads InCode (ended ["", "// Models"]) [] InCode := by
    rintro ⟨_, code, paths⟩ rfl
    exact ⟨rfl, (List.append_nil _).symm⟩
  have hservicesComment : Reads InCode (ended ["", "// Services"]) [] InCode := by
    rintro ⟨_, code, paths⟩ rfl
    exact ⟨rfl, (List.append_nil _).symm⟩
  have hlast : globalLines models services = _ ++ ["", "\x7d"] ++ [""] :=
    (List.append_assoc _ ["", "\x7d"] [""]).symm
  rw [globals, hlast, intercalate_concat_empty]
  have hmodelImports := reads_headed (reads_modelImports hmodels) hmodelsComment
  have hserviceImports := reads_headed (reads_serviceImports hservices) hservicesComment
  have himports := (hframework.ended_append hmodelImports).ended_append hserviceImports
  -- behind the imports there are names, each once more as a constant
  have hopening : Reads InCode (ended ["", "declare global \x7b", ""]) [] InCode :=
    reads_plain (by decide)
  have hframeworkNames : Reads InCode (ended (frameworkNames.map globalConstant)) [] InCode :=
    reads_constants (by decide)
  have hblank : Reads InCode (ended [""]) [] InCode := reads_plain (by decide)
  have hmodelNames : Reads InCode (ended (headed [""] (models.map globalConstant))) [] InCode :=
    reads_headed (reads_constants fun n hn => (hmodels n hn).isCode) hblank
  have hinstanceNames : Reads InCode (ended (headed [""]
      (models.map fun name => globalConstant (TypeExpr.instanceName name)))) [] InCode :=
    reads_headed (reads_constants fun n hn => isCode_instanceName (hmodels n hn).isCode) hblank
  have hserviceNames : Reads InCode (ended (headed [""] (services.map globalConstant))) [] InCode :=
    reads_headed (reads_constants fun n hn => (hservices n hn).isCode) hblank
  have hclosing : Reads InCode (ended ["", "\x7d"]) [] InCode := reads_plain (by decide)
  have hnames := (((himports.ended_quiet hopening).ended_quiet hframeworkNames).ended_quiet
    hmodelNames).ended_quiet hinstanceNames
  exact ((hnames.ended_quiet hserviceNames).ended_quiet hclosing).importedPaths_eq

end Names

theorem target_area {area name : String} (harea : IsName area) (hname : IsName name) :
    target [] ("./" ++ area ++ "/" ++ name) = [area, name] := by
  have hsplit : "./" ++ area ++ "/" ++ name = "." ++ "/" ++ (area ++ "/" ++ name) := by
    simp only [← String.append_assoc]
    rfl
  have hpieces : pieces ("./" ++ area ++ "/" ++ name) = [".", area, name] := by
    rw [hsplit, pieces_append_slash, pieces_append_slash, pieces_of_noSlash harea.noSlash,
      pieces_of_noSlash hname.noSlash, pieces_of_noSlash (by decide)]
    rfl
  rw [target, hpieces, settle_skip (.inr rfl),
    settle_name harea.ne_empty harea.ne_point harea.ne_up,
    settle_name hname.ne_empty hname.ne_point hname.ne_up]
  rfl

/-- **Where the imports of the global declarations lead.** -/
theorem target_globalPaths {models services : List String} (hmodels : ∀ n ∈ models, IsName n)
    (hservices : ∀ n ∈ services, IsName n) :
    (globalPaths models services).map (target []) =
      [["sails", "sails"], ["sails", "public"]] ++ models.map (fun name => ["models", name]) ++
        services.map fun name => ["services", name] := by
  have hframework : ["./sails/sails", "./sails/public"].map (target []) =
      [["sails", "sails"], ["sails", "public"]] := by decide
  rw [globalPaths, List.map_append, List.map_append, List.map_map, List.map_map, hframework]
  have hmodelsPath : "./models/" = "./" ++ "models" ++ "/" := by decide
  have hservicesPath : "./services/" = "./" ++ "services" ++ "/" := by decide
  congr 1
  · congr 1
    refine List.map_congr_left fun name hname => ?_
    rw [Function.comp_apply, hmodelsPath]
    exact target_area (by decide) (hmodels name hname)
  · refine List.map_congr_left fun name hname => ?_
    rw [Function.comp_apply, hservicesPath]
    exact target_area (by decide) (hservices name hname)

/-- The global declarations import no module twice. -/
theorem nodup_globalPaths {models services : List String} (hmodels : ∀ n ∈ models, IsName n)
    (hservices : ∀ n ∈ services, IsName n) (hm : models.Nodup) (hs : services.Nodup) :
    ((globalPaths models services).map (target [])).Nodup := by
  have hinjective : ∀ area : String, Function.Injective fun name : String => [area, name] :=
    fun area name name' heq => (List.cons.inj (List.cons.inj heq).2).1
  have hhead : ∀ {area : String} {names : List String},
      ∀ place ∈ names.map fun name => [area, name], place.head? = some area := by
    intro area names place hplace
    obtain ⟨name, _, rfl⟩ := List.mem_map.mp hplace
    rfl
  have hfront : ∀ place ∈ [["sails", "sails"], ["sails", "public"]],
      place.head? ≠ some "models" ∧ place.head? ≠ some "services" := by decide
  rw [target_globalPaths hmodels hservices]
  refine nodup_append_of_heads (nodup_append_of_heads (by decide) (hm.map (hinjective _))
    fun x hx y hy => ?_) (hs.map (hinjective _)) fun x hx y hy => ?_
  · rw [hhead y hy]
    exact (hfront x hx).1
  · rw [hhead y hy]
    rcases List.mem_append.mp hx with hx | hx
    · exact (hfront x hx).2
    · rw [hhead x hx]
      decide

/-! ### The files of entities -/

/-- The paths that an entity's file is meant to import. -/
def entityPaths (isModel : Bool) : List String :=
  if isModel then ["../sails/model"] else []

/-- The import of the base class is found. -/
theorem reads_baseImport : Reads InCode baseImport (entityPaths true) InCode := by
  have htext : baseImport = importText "$ailsModel" "../sails/model" := by decide
  rw [htext]
  exact reads_import (by decide) (by decide)

section Files

variable {linked : List String} {instanceText : Option String} {staticText : String}

/-- Nothing is found in the sections behind the import, if nothing is found in the classes. -/
theorem reads_sections (hlinked : ∀ text ∈ linked, Reads AtStart text [] Calm)
    (hinstance : ∀ text ∈ instanceText, Reads AtStart text [] Calm)
    (hstatic : Reads AtStart staticText [] Calm) :
    ∀ part ∈ Entity.sections false linked instanceText staticText, Reads AtStart part [] Calm := by
  have hheaded : ∀ {heading text : String}, Reads Calm heading [] AtStart → Reads AtStart text [] Calm →
      Reads AtStart (heading ++ text) [] Calm :=
    fun hheading htext => htext.after (hheading.of_imp (fun _ => AtStart.calm) fun _ => id)
  intro part hpart
  rw [Entity.sections, List.mem_append, List.mem_append, List.mem_append] at hpart
  rcases hpart with ((hpart | hpart) | hpart) | hpart
  · cases hpart
  · split at hpart
    · cases hpart
    · rw [List.mem_singleton.mp hpart]
      exact hheaded (reads_line (by decide) (by decide)) (reads_intercalate hlinked)
  · obtain ⟨text, htext, rfl⟩ := Option.map_eq_some_iff.mp (Option.mem_toList.mp hpart)
    exact hheaded (reads_line (by decide) (by decide)) (hinstance text htext)
  · rw [List.mem_singleton.mp hpart]
    exact hheaded (reads_line (by decide) (by decide)) hstatic

/-- **What the file of an entity imports**, if nothing is found in its classes. -/
theorem importedPaths_fileText (isModel : Bool) (hlinked : ∀ text ∈ linked, Reads AtStart text [] Calm)
    (hinstance : ∀ text ∈ instanceText, Reads AtStart text [] Calm)
    (hstatic : Reads AtStart staticText [] Calm) :
    importedPaths (Entity.fileText (Entity.sections isModel linked instanceText staticText)) =
      entityPaths isModel := by
  have hend : Reads Calm "\n" [] Calm := reads_unquoted (by decide)
  have hrest := hend.after (reads_intercalate (reads_sections hlinked hinstance hstatic))
  cases isModel with
  | false => exact (hrest.of_imp (fun _ => InCode.atStart) fun _ => id).importedPaths_eq
  | true =>
    have hne : Entity.sections false linked instanceText staticText ≠ [] :=
      List.append_ne_nil_of_right_ne_nil _ (List.cons_ne_nil _ _)
    have hparts : Entity.sections true linked instanceText staticText =
        baseImport :: Entity.sections false linked instanceText staticText := rfl
    have hgap := reads_gap.of_imp (fun _ => InCode.calm) fun _ => id
    rw [Entity.fileText, hparts, String.intercalate_cons_of_ne_nil hne, String.append_assoc]
    exact ((reads_baseImport.append hgap).append hrest).importedPaths_eq

end Files

/-! ### The modules of the output -/

/-- The modules of the output. -/
def outputModules (r : Registry) (pool : Pool) : List (List String) :=
  (outputFiles r pool).map fun file => moduleOf file.1

theorem moduleOf_entity (area name : String) : moduleOf [area, name ++ ".d.ts"] = [area, name] := by
  rw [moduleOf, moduleOf, moduleName_append]

section Modules

variable {r : Registry} {pool : Pool}

theorem fixed_mem_outputModules :
    ∀ m ∈ [["sails", "model"], ["sails", "public"], ["sails", "sails"]], m ∈ outputModules r pool := by
  have hfixed : (Template.files.map fun file => (["sails", file.1], file.2)).map
      (fun file => moduleOf file.1) = [["sails", "model"], ["sails", "public"], ["sails", "sails"]] := by
    rw [List.map_map]
    decide
  intro m hm
  rw [outputModules, outputFiles, List.map_append, List.map_append, hfixed, List.mem_append,
    List.mem_append]
  exact .inl (.inl hm)

/-- The entities that are linked are modules of the output. -/
theorem entity_mem_outputModules (hlinked : AllLinked r pool) :
    (∀ e ∈ r.modelsIn pool, ["models", e.2.name] ∈ outputModules r pool) ∧
      ∀ e ∈ r.servicesIn pool, ["services", e.2.name] ∈ outputModules r pool := by
  have hentity : ∀ area, ∀ es : List (String × Entity),
      (∀ e ∈ es, e.2.declarations.linked.isSome = true) →
      ∀ e ∈ es, [area, e.2.name] ∈ (entityFiles area es).map fun file => moduleOf file.1 := by
    intro area es hes e he
    obtain ⟨text, htext⟩ := Option.isSome_iff_exists.mp (hes e he)
    refine List.mem_map.mpr ⟨([area, e.2.name ++ ".d.ts"], text), ?_, moduleOf_entity _ _⟩
    exact mem_entityFiles.mpr ⟨e, he, htext, rfl⟩
  rw [outputModules, outputFiles, List.map_append, List.map_append, List.map_cons]
  refine ⟨fun e he => ?_, fun e he => ?_⟩
  · have hmem := hentity "models" _ (fun x hx => hlinked x (List.mem_append_left _ hx)) e he
    exact List.mem_append_left _ (List.mem_append_right _ (List.mem_cons_of_mem _ hmem))
  · have hmem := hentity "services" _ (fun x hx => hlinked x (List.mem_append_right _ hx)) e he
    exact List.mem_append_right _ hmem

end Modules

end Rigging.Declaration
