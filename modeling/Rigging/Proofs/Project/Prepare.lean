import Rigging.Project.Build
import Rigging.Proofs.Build
import Rigging.Proofs.Path

/-!
# Preparing changes nothing

Discovering hooks, scanning, loading and declaring only look at the file tree (`keeps_prepare`).  The
entities that come out of it are named after the last pieces of paths, so no name has a slash
(`gives_prepare`).
-/

namespace Rigging

namespace Pool

/-- A build keeps the names of its entities. -/
theorem keeps_names_build (r : Registry) :
    Act.Keeps (fun pool : Pool => pool.map Entity.name) (build r) := by
  have hname : ∀ {a : Act Entity Unit}, Act.Keeps Entity.label a → Act.Keeps Entity.name a :=
    fun h e => congrArg Prod.fst (h e)
  have hlink : ∀ models, Act.Keeps Entity.name (Entity.declareLinked models) := fun models e =>
    congrArg (fun v => v.1.1) (Entity.keeps_linkView_declareLinked models e)
  have hresolve : ∀ models, Act.Keeps Entity.label (Entity.resolve models) := fun models e =>
    Entity.label_of_frame (Entity.keeps_resolve models e)
  refine Act.keeps_bind (Act.keeps_forEach fun i _ => ?_) fun _ => Act.keeps_forEach fun i _ => ?_
  · refine Act.keeps_bind Act.keeps_state fun pool => ?_
    refine Act.keeps_bind (keeps_atPlace (hname (hresolve _)) i) fun _ => ?_
    exact keeps_atPlace (hname Entity.keeps_label_declareStandalone) i
  · exact Act.keeps_bind Act.keeps_state fun pool => keeps_atPlace (hlink _) i

end Pool

namespace Entity

/-- An entity with nothing but its members filled in. -/
def IsFilled (blank e : Entity) : Prop :=
  e = { blank with attributes := e.attributes, functions := e.functions }

theorem gives_fill (e : Entity) (statements : List Script.Statement) :
    Act.Gives e.IsFilled (e.fill statements) := by
  unfold fill
  split
  · exact Act.gives_bind (Act.gives_any _) fun _ _ => Act.gives_pure rfl
  · refine Act.gives_bind (Act.gives_any _) fun object _ => ?_
    -- with or without attributes, the functions come next
    cases object <;> exact Act.gives_bind (Act.gives_any _) fun _ _ =>
      Act.gives_bind (Act.gives_any _) fun _ _ => Act.gives_pure rfl

theorem gives_ofSource (name filename : String) (kind : EntityKind) (owner text : String) :
    Act.Gives (blank name filename kind owner).IsFilled
      (ofSource name filename kind owner text) := by
  unfold ofSource
  split
  · exact Act.gives_fail _
  · exact gives_fill _ _

theorem gives_ofText (name filename : String) (kind : EntityKind) (owner text : String) :
    Act.Gives (blank name filename kind owner).IsFilled (ofText name filename kind owner text) := by
  unfold ofText
  split
  · exact Act.gives_fail _
  · exact gives_ofSource name filename kind owner text

end Entity

namespace Project

theorem Hook.keeps_check (t : FileTree) (marker : String) (installed : List String) (hook : Hook) :
    Act.Keeps id (check t marker installed hook) := by
  refine Act.keeps_bind (Act.keeps_forEach fun d _ => Act.keeps_ofExcept _) fun _ => ?_
  refine Act.keeps_forEach fun d _ => ?_
  split
  · exact Act.keeps_notify _
  · exact Act.keeps_pure _

theorem keeps_discover (root marker : String) (includeHooks : Bool) :
    Act.Keeps id (discover root marker includeHooks) := by
  refine Act.keeps_bind Act.keeps_state fun t => ?_
  refine Act.keeps_bind (Act.keeps_ofExcept _) fun pkg => ?_
  refine Act.keeps_when (Act.keeps_notify _) ?_
  split
  · exact Act.keeps_pure _
  · refine Act.keeps_bind (Act.keeps_ofExcept _) fun found => ?_
    split
    · exact Act.keeps_fail _
    · refine Act.keeps_bind (Act.keeps_ofExcept _) fun hooks => ?_
      exact Act.keeps_bind (Act.keeps_forEach fun hook _ => Hook.keeps_check t _ _ hook) fun _ =>
        Act.keeps_pure _

theorem keeps_collect (config : Config) : Act.Keeps id (collect config) := by
  refine Act.keeps_bind Act.keeps_state fun t => ?_
  split
  · exact Act.keeps_fail _
  · refine Act.keeps_bind (keeps_discover _ _ _) fun hooks => ?_
    refine Act.keeps_bind (Act.keeps_mapEach fun hook _ => ?_) fun hooked => ?_
    · exact Act.keeps_bind (Act.keeps_notify _) fun _ => Act.keeps_pure _
    · exact Act.keeps_bind (Act.keeps_notify _) fun _ => Act.keeps_pure _

theorem keeps_load (source : Source) : Act.Keeps id (load source) := by
  refine Act.keeps_bind Act.keeps_state fun t => ?_
  split
  · exact Act.keeps_fail _
  · split
    · exact Act.keeps_fail _
    · exact Act.keeps_bind (Act.keeps_onOwn _ _) fun _ => Act.keeps_pure _

theorem keeps_fillSlots (sources : List Source) (order : List Nat) (slots : List (Option Entity)) :
    Act.Keeps id (fillSlots sources slots order) := by
  induction order generalizing slots with
  | nil => exact Act.keeps_pure slots
  | cons i order ih =>
    unfold fillSlots
    split
    · exact ih slots
    · exact Act.keeps_bind (keeps_load _) fun _ => ih _

theorem keeps_loadAll (order : List Nat) (sources : List Source) :
    Act.Keeps id (loadAll order sources) :=
  Act.keeps_bind (keeps_fillSlots _ _ _) fun _ => Act.keeps_pure _

/-- **Preparing only looks at the file tree.** -/
theorem keeps_prepare (schedule : Schedule) (config : Config) :
    Act.Keeps id (prepare schedule config) := by
  refine Act.keeps_bind (keeps_collect config) fun sources => ?_
  refine Act.keeps_bind (keeps_loadAll _ _) fun pool => ?_
  refine Act.keeps_bind (Act.keeps_ofExcept _) fun registry => ?_
  exact Act.keeps_bind (Act.keeps_onOwn _ _) fun _ => Act.keeps_pure _

/-! ### The names of what has been loaded -/

/-- The name of an entity that is the last piece of a path has no slash. -/
theorem noSlash_entityName (path : String) : '/' ∉ (entityName path).toList := by
  have hstem : ∀ name : String, '/' ∉ name.toList → '/' ∉ (Path.stem name).toList := by
    intro name hname
    unfold Path.stem
    intro hmem
    dsimp only at hmem
    split at hmem
    · exact hname hmem
    · rw [String.toList_ofList, List.mem_append, List.mem_reverse] at hmem
      rcases hmem with hmem | hmem
      · exact hname ((List.takeWhile_sublist _).subset hmem)
      · have hfrom := (List.dropWhile_sublist _).subset ((List.drop_sublist _ _).subset hmem)
        exact hname ((List.drop_sublist _ _).subset (List.mem_reverse.mp hfrom))
  refine hstem _ ?_
  unfold Path.base
  cases hlast : (Path.pieces path).getLast? with
  | none => exact List.not_mem_nil
  | some c => exact Path.noSlash_of_mem_pieces (List.mem_of_getLast? hlast)

/-- Where a module that a scan finds comes from. -/
theorem mem_scan {t : FileTree} {root owner : String} {source : Source}
    (h : source ∈ scan t root owner) :
    ∃ kind place path, t.locate (Path.join root (sourceDirectory kind)) = .ok place ∧
      path ∈ modulesBelow t (t.entries.length + 1) (Path.join root (sourceDirectory kind)) place ∧
      source = ⟨path, Path.relative path root, entityName path, kind, owner⟩ := by
  have hkind : ∃ kind, source ∈ scanKind t root owner kind :=
    (List.mem_append.mp h).elim (fun h => ⟨.model, h⟩) fun h => ⟨.service, h⟩
  obtain ⟨kind, hmem⟩ := hkind
  unfold scanKind at hmem
  dsimp only at hmem
  split at hmem
  · cases hmem
  · rename_i place hplace
    split at hmem
    · obtain ⟨path, hpath, rfl⟩ := List.mem_map.mp hmem
      exact ⟨kind, place, path, hplace, hpath, rfl⟩
    · cases hmem

theorem noSlash_of_mem_scan {t : FileTree} {root owner : String} {source : Source}
    (h : source ∈ scan t root owner) : '/' ∉ source.name.toList := by
  obtain ⟨kind, place, path, _, _, rfl⟩ := mem_scan h
  dsimp only
  exact noSlash_entityName path

/-- What holds of every module that a scan finds holds of every module that is collected. -/
theorem gives_collect {P : Source → Prop}
    (hscan : ∀ t root owner, ∀ source ∈ scan t root owner, P source) (config : Config) :
    Act.Gives (fun sources => ∀ source ∈ sources, P source) (collect config) := by
  refine Act.gives_bind (Act.gives_any _) fun t _ => ?_
  split
  · exact Act.gives_fail _
  · have hhook : ∀ hook : Hook, Act.Gives (fun found : List Source => ∀ source ∈ found, P source)
        (Act.notify (.includingHook hook.name) >>= fun _ => pure (scan t hook.path hook.name) :
          Act FileTree (List Source)) := fun hook =>
      Act.gives_bind (Act.gives_any _) fun _ _ => Act.gives_pure (hscan _ _ _)
    refine Act.gives_bind (Act.gives_any _) fun hooks _ => ?_
    refine Act.gives_bind (Act.gives_mapEach fun hook _ => hhook hook) fun hooked hhooked => ?_
    refine Act.gives_bind (Act.gives_any _) fun _ _ => Act.gives_pure fun source hmem => ?_
    rcases List.mem_append.mp hmem with hmem | hmem
    · exact hscan _ _ _ source hmem
    · obtain ⟨found, hfound, hmem⟩ := List.mem_flatten.mp hmem
      exact hhooked found hfound source hmem

/-- The entity of a module before its members are read. -/
def Source.blank (source : Source) : Entity :=
  Entity.blank source.name source.relativePath source.kind source.owner

/-- The entity that is read from a module with a given text. -/
def Source.read (source : Source) (text : String) : Act Unit Entity :=
  Entity.ofSource source.name source.relativePath source.kind source.owner text

theorem gives_load {P : Entity → Prop} {source : Source} (h : ∀ text, Act.Gives P (source.read text)) :
    Act.Gives P (load source) := by
  refine Act.gives_bind (Act.gives_any _) fun t _ => ?_
  split
  · exact Act.gives_fail _
  · split
    · exact Act.gives_fail _
    · refine Act.gives_bind (Act.gives_onOwn fun e he => ?_) fun built hbuilt => Act.gives_pure hbuilt
      exact h _ () e he

/-- Each round of loading fills a slot with the entity of a module. -/
theorem gives_fillSlots {sources : List Source} {P : Entity → Prop}
    (hsources : ∀ source ∈ sources, ∀ text, Act.Gives P (source.read text)) (order : List Nat)
    {slots : List (Option Entity)} (hslots : ∀ e, some e ∈ slots → P e) :
    Act.Gives (fun filled => ∀ e, some e ∈ filled → P e) (fillSlots sources slots order) := by
  induction order generalizing slots with
  | nil => exact Act.gives_pure hslots
  | cons i order ih =>
    unfold fillSlots
    split
    · exact ih hslots
    · rename_i source hsource
      have hload := gives_load (hsources source (List.mem_of_getElem? hsource))
      refine Act.gives_bind hload fun entity hentity => ih fun e he => ?_
      rcases List.mem_or_eq_of_mem_set he with he | he
      · exact hslots e he
      · rw [Option.some.inj he]
        exact hentity

/-- **What holds of every entity that is read** holds of all that have been loaded. -/
theorem gives_loadAll {sources : List Source} {P : Entity → Prop}
    (hsources : ∀ source ∈ sources, ∀ text, Act.Gives P (source.read text)) (order : List Nat) :
    Act.Gives (fun pool : Pool => ∀ e ∈ pool, P e) (loadAll order sources) := by
  refine Act.gives_bind (gives_fillSlots hsources order fun e he => ?_) fun slots hslots => ?_
  · cases List.eq_of_mem_replicate he
  · refine Act.gives_pure fun e he => hslots e ?_
    obtain ⟨slot, hslot, rfl⟩ := List.mem_filterMap.mp he
    exact hslot

/-- **No entity that has been prepared has a slash in its name.** -/
theorem gives_prepare (schedule : Schedule) (config : Config) :
    Act.Gives (fun prepared : Registry × Pool => ∀ e ∈ prepared.2, '/' ∉ e.name.toList)
      (prepare schedule config) := by
  refine Act.gives_bind (gives_collect (fun _ _ _ _ => noSlash_of_mem_scan) config)
    fun sources hsources => ?_
  have hloaded : Act.Gives (fun pool : Pool => ∀ e ∈ pool, '/' ∉ e.name.toList)
      (loadAll (schedule.order sources.length) sources) := by
    refine gives_loadAll (fun source hsource text s e he => ?_) _
    rw [Entity.gives_ofSource _ _ _ _ text s e he]
    exact hsources source hsource
  refine Act.gives_bind hloaded fun pool hpool => ?_
  refine Act.gives_bind (Act.gives_any _) fun registry _ => ?_
  have hbuilt : Act.Gives (fun built : Unit × Pool => ∀ e ∈ built.2, '/' ∉ e.name.toList)
      (Act.onOwn pool (Pool.build registry) : Act FileTree (Unit × Pool)) := by
    refine Act.gives_onOwn fun x _ e he => ?_
    have hnames : (Pool.build registry pool).state.map Entity.name = pool.map Entity.name :=
      Pool.keeps_names_build registry pool
    have hmem := List.mem_map_of_mem (f := Entity.name) he
    rw [hnames] at hmem
    obtain ⟨e', he', hname⟩ := List.mem_map.mp hmem
    rw [← hname]
    exact hpool e' he'
  exact Act.gives_bind hbuilt fun built hnames => Act.gives_pure hnames

end Project

end Rigging
