import Rigging.Proofs.Declaration.Output
import Rigging.Proofs.FileTree.WellFormed

/-!
# The output as a tree

The output is a tree of its own: the fixed files, the global declarations, a file for every model and
one for every service, and the directories that they stand in (`Declaration.outputTree`).  When writing
it has succeeded, what stands below the output directory is this tree and nothing else, whatever stood
there before, and the paths that it gives are those of the files, in order (`get?_writeOutput`).
-/

namespace Rigging

namespace FileTree

variable {path : String}

/-- **Clearing a directory** of a tree leaves nothing at it or below, and all else as it was. -/
theorem get?_clear (hpath : Path.IsPlain path) (hne : Path.components path ≠ [])
    (hnull : ¬path.toList.contains (Char.ofNat 0) = true) (henc : Text.encodable path = true) :
    Act.Ensures (fun t t' => t.IsTree → ∀ q, t'.get? q =
      if Path.components path <+: q then none else t.get? q) (clear path) := by
  refine ensures_change fun t t' h htree => ?_
  -- if nothing stands at the path, nothing stands below it
  have habsent : t.get? (Path.components path) = none →
      ∀ q, t.get? q = if Path.components path <+: q then none else t.get? q := by
    intro hnone q
    split
    · rename_i hbelow
      by_contra hsome
      have hreached := htree.reached q (Option.isSome_iff_ne_none.mpr hsome)
      by_cases heq : Path.components path = q
      · exact hsome (heq ▸ hnone)
      · rw [isDirectory_iff.mp (hreached _ hbelow heq)] at hnone
        cases hnone
    · rfl
  cases hplace : t.locate path with
  | ok p =>
    obtain rfl := components_of_locate hplace
    simp only [hplace] at h
    split at h
    · obtain rfl := Except.ok.inj h
      exact get?_remove t hne
    · cases h
    · rename_i hnone
      obtain rfl := Except.ok.inj h
      exact habsent hnone
  | error fault =>
    have hnone : t.get? (Path.components path) = none := by
      by_contra hsome
      have hreached := htree.reached _ (Option.isSome_iff_ne_none.mpr hsome)
      rcases locate_of_reached hpath hnull henc hreached with hok | hlong
      · rw [hplace] at hok
        cases hok
      · simp only [hlong] at h
        cases h
    have hsame : t' = t := by
      simp only [hplace] at h
      split at h
      · rename_i heq
        cases heq
      · cases h
      · exact (Except.ok.inj h).symm
    rw [hsame]
    exact habsent hnone

/-- **Making a directory** puts directories on the way to it where there was nothing. -/
theorem get?_make (path : String) :
    Act.Ensures (fun t t' => ∀ q, t'.get? q = (t.get? q).or
      (if q <+: Path.components path then some .directory else none)) (make path) := by
  refine ensures_change fun t t' h q => ?_
  split at h
  · cases h
  · unfold makeDirectory at h
    split at h
    · cases h
    · rw [get?_makeDirectories h q, List.nil_append]
      cases q with
      | nil => rfl
      | cons c q => simp

theorem exists_openFile_ok_iff {t : FileTree} (hpath : Path.IsPlain path) :
    (∃ opened, t.openFile path = .ok opened) ↔
      Fits path ∧ t.Reached (Path.components path) ∧ ¬t.isDirectory (Path.components path) = true := by
  unfold openFile
  constructor
  · rintro ⟨opened, hopen⟩
    cases hplace : t.locate path with
    | error fault =>
      rw [hplace] at hopen
      cases hopen
    | ok place =>
      rw [hplace] at hopen
      change (if t.isDirectory place then _ else _) = _ at hopen
      obtain ⟨hfits, rfl, hreached⟩ := (locate_eq_ok_iff hpath).mp hplace
      split at hopen
      · cases hopen
      · rename_i hdirectory
        exact ⟨hfits, hreached, hdirectory⟩
  · rintro ⟨hfits, hreached, hplace⟩
    rw [(locate_eq_ok_iff hpath).mpr ⟨hfits, rfl, hreached⟩]
    have hne : Path.components path ≠ [] := fun hnil => hplace (by rw [hnil]; rfl)
    have hparent : t.isDirectory (Path.components path).dropLast = true :=
      hreached _ (List.dropLast_prefix _) (dropLast_ne hne)
    change ∃ opened, (if t.isDirectory (Path.components path) then _ else _) = _
    rw [if_neg hplace, hparent]
    exact ⟨_, rfl⟩

/-- **When a text can be written**: its path fits, leads through directories and not to one, and the
text can be encoded. -/
theorem writeText_ok_iff {t : FileTree} (hpath : Path.IsPlain path) {text : String} :
    (writeText path text t).result = .ok () ↔
      (Fits path ∧ Text.encodable text = true) ∧ t.Reached (Path.components path) ∧
        ¬t.isDirectory (Path.components path) = true := by
  have hopens := exists_openFile_ok_iff (t := t) hpath
  rw [and_right_comm, ← hopens]
  unfold writeText
  rw [Act.state_bind]
  cases hopen : t.openFile path with
  | error fault =>
    refine iff_of_false (fun h => nomatch h) ?_
    rintro ⟨⟨_, hx⟩, _⟩
    cases hx
  | ok opened =>
    dsimp only
    rw [Act.modify_bind]
    split
    · rename_i henc
      exact iff_of_true rfl ⟨⟨opened, rfl⟩, henc⟩
    · rename_i henc
      exact iff_of_false (fun h => nomatch h) fun h => henc h.2

end FileTree

namespace Declaration

open FileTree Rigging.Path

/-! ### The files of the output -/

/-- A file of the output: its place in the output directory, and its text. -/
abbrev OutputFile := List String × String

/-- The files of entities; one that is not linked has none. -/
def entityFiles (area : String) (es : List (String × Entity)) : List OutputFile :=
  es.filterMap fun e => e.2.declarations.linked.map fun text => ([area, e.2.name ++ ".d.ts"], text)

/-- All files of the output in the order in which they are written. -/
def outputFiles (r : Registry) (pool : Pool) : List OutputFile :=
  Template.files.map (fun file => (["sails", file.1], file.2)) ++
    (["globals.d.ts"], r.globals) :: entityFiles "models" (r.modelsIn pool) ++
    entityFiles "services" (r.servicesIn pool)

/-- The output as a tree of its own. -/
def outputTree (r : Registry) (pool : Pool) : FileTree :=
  ⟨(outputFiles r pool).map (fun file => (file.1, .file file.2.toUTF8)) ++
    outputDirectories.map fun d => ([d], .directory)⟩

/-- The path of a place in a directory. -/
def pathBelow (directory : String) (place : List String) : String :=
  place.foldl child directory

/-- Writes a file of the output and gives its path. -/
def writeFile (directory : String) (file : OutputFile) : Act FileTree String := do
  writeText (pathBelow directory file.1) file.2
  return pathBelow directory file.1

/-- Every entity of a registry has its linked declarations. -/
def AllLinked (r : Registry) (pool : Pool) : Prop :=
  ∀ e ∈ r.modelsIn pool ++ r.servicesIn pool, e.2.declarations.linked.isSome = true

theorem mapEach_writeEntity (directory area : String) {es : List (String × Entity)}
    (h : ∀ e ∈ es, e.2.declarations.linked.isSome = true) :
    Act.mapEach (writeEntityBy writeText directory area) (es.map Prod.snd) =
      Act.mapEach (writeFile directory) (entityFiles area es) := by
  induction es with
  | nil => rfl
  | cons e es ih =>
    obtain ⟨text, htext⟩ := Option.isSome_iff_exists.mp (h e List.mem_cons_self)
    have hwrite : writeEntityBy writeText directory area e.2 =
        writeFile directory ([area, e.2.name ++ ".d.ts"], text) := by
      simp only [writeEntityBy, htext]
      rfl
    have hfiles : entityFiles area (e :: es) =
        ([area, e.2.name ++ ".d.ts"], text) :: entityFiles area es := by
      simp only [entityFiles, List.filterMap_cons, htext, Option.map_some]
    rw [List.map_cons, hfiles, Act.mapEach_cons, Act.mapEach_cons, hwrite,
      ih fun x hx => h x (List.mem_cons_of_mem _ hx)]

/-- **The output is written file by file.** -/
theorem writeFilesBy_eq (directory : String) {r : Registry} {pool : Pool} (h : AllLinked r pool) :
    writeFilesBy writeText directory r pool =
      (Act.mapEach (writeFile directory) (outputFiles r pool) >>= fun written =>
        Act.notify (.wroteFiles written.length directory) >>= fun _ => pure written) := by
  have hfixed : ∀ files : List (String × String),
      Act.mapEach (writeFixedBy writeText directory) files =
        Act.mapEach (writeFile directory) (files.map fun file => (["sails", file.1], file.2)) := by
    intro files
    induction files with
    | nil => rfl
    | cons file files ih =>
      rw [List.map_cons, Act.mapEach_cons, Act.mapEach_cons, ih]
      rfl
  have hmodels := mapEach_writeEntity directory "models" fun e he => h e (List.mem_append_left _ he)
  have hservices := mapEach_writeEntity directory "services" fun e he =>
    h e (List.mem_append_right _ he)
  have hglobals : writeFile directory (["globals.d.ts"], r.globals) =
      (writeText (child directory "globals.d.ts") r.globals >>= fun _ =>
        pure (child directory "globals.d.ts")) := rfl
  unfold writeFilesBy
  rw [hfixed, hmodels, hservices, outputFiles, Act.mapEach_append, Act.mapEach_append,
    Act.mapEach_cons, hglobals]
  simp only [Act.bind_assoc, Act.pure_bind]

/-! ### Writing them -/

/-- A place of names below a plain directory. -/
theorem isPlain_pathBelow {directory : String} (hplain : IsPlain directory) {place : List String}
    (h : ∀ c ∈ place, IsName c) :
    IsPlain (pathBelow directory place) ∧
      components (pathBelow directory place) = components directory ++ place := by
  induction place generalizing directory with
  | nil => exact ⟨hplain, (List.append_nil _).symm⟩
  | cons c place ih =>
    obtain ⟨hchild, hcomponents⟩ := isPlain_child hplain (h c List.mem_cons_self)
    obtain ⟨hbelow, heq⟩ := ih hchild fun x hx => h x (List.mem_cons_of_mem _ hx)
    refine ⟨hbelow, heq.trans ?_⟩
    rw [hcomponents, List.append_assoc]
    rfl

theorem writeFile_ok {directory path : String} {file : OutputFile} {t : FileTree}
    (h : (writeFile directory file t).result = .ok path) :
    path = pathBelow directory file.1 ∧
      (writeText (pathBelow directory file.1) file.2 t).result = .ok () ∧
      (writeFile directory file t).state = (writeText (pathBelow directory file.1) file.2 t).state := by
  obtain ⟨_, hwrite, hpath, hstate⟩ := Act.bind_result_ok h
  exact ⟨(Except.ok.inj hpath).symm, hwrite, hstate⟩

section Files

variable {directory : String} (hplain : IsPlain directory) {files : List OutputFile}
  (hnames : ∀ file ∈ files, ∀ c ∈ file.1, IsName c)

include hplain hnames

/-- **What has been done when files have been written**: their paths are given in order, each of them
fits and its text can be encoded, and each stands at its place. -/
theorem writeFiles_ok (hnodup : (files.map Prod.fst).Nodup) {t : FileTree} {paths : List String}
    (h : (Act.mapEach (writeFile directory) files t).result = .ok paths) :
    paths = files.map (fun file => pathBelow directory file.1) ∧
      (∀ file ∈ files, Fits (pathBelow directory file.1) ∧ Text.encodable file.2 = true) ∧
      ∀ q, (Act.mapEach (writeFile directory) files t).state.get? (components directory ++ q) =
        ((files.lookup q).map fun text => FileNode.file text.toUTF8).or
          (t.get? (components directory ++ q)) := by
  induction files generalizing t paths with
  | nil =>
    obtain rfl := Except.ok.inj h
    exact ⟨rfl, fun _ hfile => (nomatch hfile), fun _ => rfl⟩
  | cons file files ih =>
    rw [List.map_cons, List.nodup_cons] at hnodup
    obtain ⟨hpath, hcomponents⟩ := isPlain_pathBelow hplain (hnames file List.mem_cons_self)
    rw [Act.mapEach_cons] at h ⊢
    obtain ⟨path, hfile, hrest, hstate⟩ := Act.bind_result_ok h
    obtain ⟨rfl, hwrite, hwritten⟩ := writeFile_ok hfile
    obtain ⟨others, hothers, hdone, hlast⟩ := Act.bind_result_ok hrest
    obtain rfl := Except.ok.inj hdone
    obtain ⟨hpaths, hfits, hget⟩ := ih (fun f hf => hnames f (List.mem_cons_of_mem _ hf)) hnodup.2
      hothers
    have hput := (ensures_writeText _ file.2 t () hwrite).2
    refine ⟨by rw [hpaths, List.map_cons], ?_, fun q => ?_⟩
    · rw [List.forall_mem_cons]
      exact ⟨((writeText_ok_iff hpath).mp hwrite).1, hfits⟩
    · rw [hstate, hlast, Act.pure_apply]
      rw [hget q, hwritten, hput, hcomponents, List.lookup_cons]
      simp only [List.append_cancel_left_eq]
      by_cases hq : q = file.1
      · -- the place of this file is none of the others'
        have hnone : files.lookup q = none := by
          rw [List.lookup_eq_none_iff]
          intro other hother
          rw [bne_iff_ne, hq]
          exact fun heq => hnodup.1 (List.mem_map.mpr ⟨other, hother, heq.symm⟩)
        rw [if_pos hq, hnone, beq_iff_eq.mpr hq]
        rfl
      · rw [if_neg hq, beq_eq_false_iff_ne.mpr hq]

/-- **When files can be written**: each path fits, leads through directories and not to one, and each
text can be encoded. -/
theorem exists_writeFiles_ok {t : FileTree}
    (hfits : ∀ file ∈ files, Fits (pathBelow directory file.1) ∧ Text.encodable file.2 = true)
    (hplaces : ∀ file ∈ files, t.Reached (components directory ++ file.1) ∧
      ¬t.isDirectory (components directory ++ file.1) = true) :
    ∃ paths, (Act.mapEach (writeFile directory) files t).result = .ok paths := by
  induction files generalizing t with
  | nil => exact ⟨[], rfl⟩
  | cons file files ih =>
    obtain ⟨hpath, hcomponents⟩ := isPlain_pathBelow hplain (hnames file List.mem_cons_self)
    have hwrite := (writeText_ok_iff hpath).mpr ⟨hfits file List.mem_cons_self,
      hcomponents ▸ hplaces file List.mem_cons_self⟩
    have hfile : (writeFile directory file t).result = .ok (pathBelow directory file.1) := by
      rw [writeFile, Act.bind_of_ok hwrite, Act.pure_apply]
    -- a file comes where no directory was, so the directories stay what they are
    have hsame : ∀ q, (writeFile directory file t).state.isDirectory q = t.isDirectory q := by
      intro q
      rw [Bool.eq_iff_iff, isDirectory_iff, isDirectory_iff, (writeFile_ok hfile).2.2,
        (ensures_writeText _ file.2 t () hwrite).2 q]
      split
      · rename_i hq
        rw [hcomponents] at hq
        refine iff_of_false (fun h => nomatch h) fun h => ?_
        exact (hplaces file List.mem_cons_self).2 (isDirectory_iff.mpr (hq ▸ h))
      · exact Iff.rfl
    obtain ⟨others, hothers⟩ := ih (fun f hf => hnames f (List.mem_cons_of_mem _ hf))
      (fun f hf => hfits f (List.mem_cons_of_mem _ hf)) (t := (writeFile directory file t).state)
      fun f hf => by simpa only [Reached, hsame] using hplaces f (List.mem_cons_of_mem _ hf)
    refine ⟨pathBelow directory file.1 :: others, ?_⟩
    rw [Act.mapEach_cons, Act.bind_of_ok hfile]
    dsimp only
    rw [Act.bind_of_ok hothers, Act.pure_apply]

end Files

/-- The directories that are made below a directory, with those above it. -/
theorem get?_makeAll {directory : String} (hplain : IsPlain directory) {subs : List String}
    (hsubs : ∀ c ∈ subs, IsName c) :
    Act.Ensures (fun t t' => ∀ q, t'.get? q = (t.get? q).or
      (if ∃ sub ∈ subs, q <+: components directory ++ [sub] then some .directory else none))
      (Act.forEach (fun sub => FileTree.make (child directory sub)) subs) := by
  induction subs with
  | nil =>
    intro t _ _ q
    simp
  | cons sub subs ih =>
    refine Act.ensures_bind (fun s t u hmade hrest q => ?_) (get?_make (child directory sub)) fun _ =>
      ih fun c hc => hsubs c (List.mem_cons_of_mem _ hc)
    rw [hrest q, hmade q, (isPlain_child hplain (hsubs sub List.mem_cons_self)).2, Option.or_assoc]
    by_cases hsub : q <+: components directory ++ [sub]
    · simp [hsub]
    · simp [hsub]

/-! ### The whole output -/

/-- What the entities have to be like for all files to stand at places of their own: their names have
no slash, and no two of one kind have the same. -/
structure FitNames (r : Registry) (pool : Pool) : Prop where
  noSlash : ∀ e ∈ pool, '/' ∉ e.name.toList
  models : ((r.modelsIn pool).map fun e => e.2.name).Nodup
  services : ((r.servicesIn pool).map fun e => e.2.name).Nodup

theorem mem_entityFiles {area : String} {es : List (String × Entity)} {file : OutputFile} :
    file ∈ entityFiles area es ↔ ∃ e ∈ es, e.2.declarations.linked = some file.2 ∧
      file.1 = [area, e.2.name ++ ".d.ts"] := by
  rw [entityFiles, List.mem_filterMap]
  refine exists_congr fun e => and_congr_right fun _ => ?_
  rw [Option.map_eq_some_iff]
  constructor
  · rintro ⟨text, htext, rfl⟩
    exact ⟨htext, rfl⟩
  · rintro ⟨htext, hplace⟩
    exact ⟨file.2, htext, Prod.ext hplace.symm rfl⟩

/-- The places of the output's files are directly in its directory, or in one of its directories. -/
theorem place_of_mem_outputFiles {r : Registry} {pool : Pool} {file : OutputFile}
    (h : file ∈ outputFiles r pool) :
    file.1 = ["globals.d.ts"] ∨ (∃ fixed ∈ Template.files, file.1 = ["sails", fixed.1]) ∨
      ∃ area ∈ ["models", "services"], ∃ e ∈ pool, file.1 = [area, e.name ++ ".d.ts"] := by
  have hentity : ∀ area ∈ ["models", "services"], ∀ names : List (String × Nat),
      file ∈ entityFiles area (Registry.entitiesOf pool names) →
      ∃ area ∈ ["models", "services"], ∃ e ∈ pool, file.1 = [area, e.name ++ ".d.ts"] := by
    intro area harea names hfile
    obtain ⟨e, he, _, hplace⟩ := mem_entityFiles.mp hfile
    exact ⟨area, harea, e.2, mem_of_mem_entitiesOf (List.mem_map_of_mem he), hplace⟩
  rw [outputFiles, List.mem_append, List.mem_append, List.mem_cons] at h
  rcases h with (h | rfl | h) | h
  · obtain ⟨fixed, hfixed, rfl⟩ := List.mem_map.mp h
    exact .inr (.inl ⟨fixed, hfixed, rfl⟩)
  · exact .inl rfl
  · exact .inr (.inr (hentity "models" (by decide) r.models h))
  · exact .inr (.inr (hentity "services" (by decide) r.services h))

theorem isName_of_mem_outputFiles {r : Registry} {pool : Pool}
    (hpool : ∀ e ∈ pool, '/' ∉ e.name.toList) :
    ∀ file ∈ outputFiles r pool, ∀ c ∈ file.1, IsName c := by
  intro file hfile
  rcases place_of_mem_outputFiles hfile with hplace | ⟨fixed, hfixed, hplace⟩ |
    ⟨area, harea, e, he, hplace⟩
  · rw [hplace]
    decide
  · rw [hplace, List.forall_mem_cons, List.forall_mem_singleton]
    exact ⟨by decide, (isName_of_mem_files fixed hfixed).1⟩
  · rw [hplace, List.forall_mem_cons, List.forall_mem_singleton]
    have hareas : ∀ area ∈ ["models", "services"], IsName area := by decide
    exact ⟨hareas area harea, isName_entityFile (hpool e he)⟩

theorem head?_entityFiles {area : String} {es : List (String × Entity)} :
    ∀ place ∈ (entityFiles area es).map Prod.fst, place.head? = some area := by
  intro place hplace
  obtain ⟨file, hfile, rfl⟩ := List.mem_map.mp hplace
  obtain ⟨e, _, _, hplace⟩ := mem_entityFiles.mp hfile
  rw [hplace]
  rfl

theorem nodup_entityFiles (area : String) {es : List (String × Entity)}
    (h : (es.map fun e => e.2.name).Nodup) : ((entityFiles area es).map Prod.fst).Nodup := by
  rw [entityFiles, List.map_filterMap, List.Nodup, List.pairwise_filterMap]
  refine (List.pairwise_map.mp h).imp fun hne place hplace place' hplace' heq => hne ?_
  simp only [Option.map_map, Option.map_eq_some_iff, Function.comp_apply] at hplace hplace'
  obtain ⟨_, _, rfl⟩ := hplace
  obtain ⟨_, _, rfl⟩ := hplace'
  have hfile := (List.cons.inj (List.cons.inj heq).2).1
  exact String.append_left_inj _ |>.mp hfile

/-- Places that start with different names are different. -/
theorem nodup_append_of_heads {xs ys : List (List String)} (hx : xs.Nodup) (hy : ys.Nodup)
    (h : ∀ x ∈ xs, ∀ y ∈ ys, x.head? ≠ y.head?) : (xs ++ ys).Nodup := by
  refine List.nodup_append'.mpr ⟨hx, hy, fun place hl hr => ?_⟩
  exact h place hl place hr rfl

/-- **Every file of the output has a place of its own.** -/
theorem nodup_outputFiles {r : Registry} {pool : Pool} (h : FitNames r pool) :
    ((outputFiles r pool).map Prod.fst).Nodup := by
  have hfixed : (Template.files.map fun file => (["sails", file.1], file.2)).map Prod.fst =
      [["sails", "model.d.ts"], ["sails", "public.d.ts"], ["sails", "sails.ts"]] := rfl
  have hfront : ∀ place ∈ [["sails", "model.d.ts"], ["sails", "public.d.ts"], ["sails", "sails.ts"],
      ["globals.d.ts"]], place.head? ≠ some "models" ∧ place.head? ≠ some "services" := by decide
  have hnodup : [["sails", "model.d.ts"], ["sails", "public.d.ts"], ["sails", "sails.ts"],
      ["globals.d.ts"]].Nodup := by decide
  rw [outputFiles, List.map_append, List.map_append, List.map_cons, hfixed, List.append_cons]
  refine nodup_append_of_heads (nodup_append_of_heads hnodup
    (nodup_entityFiles "models" h.models) fun x hx y hy => ?_)
    (nodup_entityFiles "services" h.services) fun x hx y hy => ?_
  · rw [head?_entityFiles y hy]
    exact (hfront x hx).1
  · rw [head?_entityFiles y hy]
    rcases List.mem_append.mp hx with hx | hx
    · exact (hfront x hx).2
    · rw [head?_entityFiles x hx]
      decide

/-- What stands at each path when the output directory has been cleared and its directories made. -/
def afresh (directory : String) (t : FileTree) (q : List String) : Option FileNode :=
  (if components directory <+: q then none else t.get? q).or
    (if ∃ sub ∈ outputDirectories, q <+: components directory ++ [sub] then some .directory else none)

theorem afresh_below (directory : String) (t : FileTree) (q : List String) :
    afresh directory t (components directory ++ q) =
      if q = [] ∨ ∃ sub ∈ outputDirectories, q = [sub] then some .directory else none := by
  have hplace : (∃ sub ∈ outputDirectories,
      components directory ++ q <+: components directory ++ [sub]) ↔
      q = [] ∨ ∃ sub ∈ outputDirectories, q = [sub] := by
    simp only [List.prefix_append_right_inj]
    constructor
    · rintro ⟨sub, hsub, hq⟩
      cases q with
      | nil => exact .inl rfl
      | cons c q =>
        obtain ⟨rfl, hnil⟩ := List.cons_prefix_cons.mp hq
        rw [List.prefix_nil.mp hnil]
        exact .inr ⟨c, hsub, rfl⟩
    · rintro (rfl | ⟨sub, hsub, rfl⟩)
      · exact ⟨"sails", by decide, List.nil_prefix⟩
      · exact ⟨sub, hsub, List.prefix_rfl⟩
  rw [afresh, if_pos (List.prefix_append _ _), Option.none_or]
  simp only [hplace]

theorem lookup_map_file (files : List OutputFile) (q : List String) :
    (files.map fun file => (file.1, FileNode.file file.2.toUTF8)).lookup q =
      (files.lookup q).map fun text => FileNode.file text.toUTF8 := by
  induction files with
  | nil => rfl
  | cons file files ih =>
    rw [List.map_cons, List.lookup_cons, List.lookup_cons, ih]
    split <;> rfl

theorem lookup_map_directory (subs : List String) (q : List String) :
    (subs.map fun sub => ([sub], FileNode.directory)).lookup q =
      if ∃ sub ∈ subs, q = [sub] then some .directory else none := by
  induction subs with
  | nil => simp
  | cons sub subs ih =>
    rw [List.map_cons, List.lookup_cons, ih]
    by_cases hq : q = [sub]
    · simp [hq]
    · simp [hq, beq_eq_false_iff_ne.mpr hq]

/-- The output tree: its files, and its directories. -/
theorem get?_outputTree (r : Registry) (pool : Pool) (q : List String) :
    (outputTree r pool).get? q =
      (((outputFiles r pool).lookup q).map fun text => FileNode.file text.toUTF8).or
        (if q = [] ∨ ∃ sub ∈ outputDirectories, q = [sub] then some .directory else none) := by
  by_cases hq : q = []
  · -- no file stands at the root
    have hnone : (outputFiles r pool).lookup q = none := by
      rw [List.lookup_eq_none_iff]
      intro file hfile
      rw [bne_iff_ne, hq]
      rcases place_of_mem_outputFiles hfile with hplace | ⟨_, _, hplace⟩ | ⟨_, _, _, _, hplace⟩ <;>
        simp [hplace]
    rw [hnone, hq, if_pos (.inl rfl)]
    rfl
  · rw [get?_of_ne_nil _ hq, outputTree, List.lookup_append, lookup_map_file, lookup_map_directory]
    simp only [hq, false_or]

theorem lookup_of_mem {files : List OutputFile} (hnodup : (files.map Prod.fst).Nodup)
    {file : OutputFile} (h : file ∈ files) : files.lookup file.1 = some file.2 := by
  induction files with
  | nil => cases h
  | cons other files ih =>
    rw [List.map_cons, List.nodup_cons] at hnodup
    rcases List.mem_cons.mp h with rfl | h
    · exact List.lookup_cons_self
    · have hne : file.1 ≠ other.1 := fun heq => hnodup.1 (heq ▸ List.mem_map_of_mem h)
      rw [List.lookup_cons, beq_eq_false_iff_ne.mpr hne]
      exact ih hnodup.2 h

/-- Each file of the output stands at its place in the output tree. -/
theorem content?_outputTree {r : Registry} {pool : Pool} (hnames : FitNames r pool)
    {file : OutputFile} (h : file ∈ outputFiles r pool) :
    (outputTree r pool).content? file.1 = some file.2.toUTF8 := by
  rw [content?, get?_outputTree, lookup_of_mem (nodup_outputFiles hnames) h]
  rfl

/-- A file that stands in the output tree is one of the output. -/
theorem exists_mem_outputFiles {r : Registry} {pool : Pool} {q : List String} {content : ByteArray}
    (h : (outputTree r pool).get? q = some (.file content)) :
    ∃ text, (q, text) ∈ outputFiles r pool := by
  rw [get?_outputTree] at h
  cases hlookup : (outputFiles r pool).lookup q with
  | none =>
    rw [hlookup] at h
    change (if _ then some FileNode.directory else none) = _ at h
    split at h <;> cases h
  | some text =>
    obtain ⟨front, rest, hsplit, _⟩ := List.lookup_eq_some_iff.mp hlookup
    rw [hsplit]
    exact ⟨text, List.mem_append_right _ List.mem_cons_self⟩

theorem length_entityFiles (area : String) {es : List (String × Entity)}
    (h : ∀ e ∈ es, e.2.declarations.linked.isSome = true) :
    (entityFiles area es).length = es.length := by
  rw [entityFiles, List.filterMap_length_eq_length]
  intro e he
  rw [Option.isSome_map]
  exact h e he

theorem length_outputFiles {r : Registry} {pool : Pool} (h : AllLinked r pool) :
    (outputFiles r pool).length =
      4 + (r.modelsIn pool).length + (r.servicesIn pool).length := by
  rw [outputFiles, List.length_append, List.length_append, List.length_cons,
    length_entityFiles "models" fun e he => h e (List.mem_append_left _ he),
    length_entityFiles "services" fun e he => h e (List.mem_append_right _ he), List.length_map]
  have hfixed : Template.files.length = 3 := rfl
  omega

/-- The paths of files with different places are different. -/
theorem nodup_pathBelow {directory : String} (hplain : IsPlain directory) {files : List OutputFile}
    (hnames : ∀ file ∈ files, ∀ c ∈ file.1, IsName c) (hnodup : (files.map Prod.fst).Nodup) :
    (files.map fun file => pathBelow directory file.1).Nodup := by
  refine List.Nodup.of_map components ?_
  have hplaces : (files.map fun file => pathBelow directory file.1).map components =
      (files.map Prod.fst).map (components directory ++ ·) := by
    rw [List.map_map, List.map_map]
    exact List.map_congr_left fun file hfile => (isPlain_pathBelow hplain (hnames file hfile)).2
  rw [hplaces]
  exact hnodup.map fun place place' heq => List.append_cancel_left heq

section Whole

variable {directory : String} (hplain : IsPlain directory) (hne : components directory ≠ [])
  (hnull : ¬directory.toList.contains (Char.ofNat 0) = true)
  (henc : Text.encodable directory = true) {r : Registry} {pool : Pool} (hlinked : AllLinked r pool)
  {t : FileTree} (ht : t.IsTree) {paths : List String}
  (h : (writeOutput directory r pool t).result = .ok paths)

include hplain hne hnull henc hlinked ht h

/-- Behind the clearing and making, files are written one by one. -/
theorem writeOutput_ok :
    ∃ made : FileTree, made.get? = afresh directory t ∧
      (Act.mapEach (writeFile directory) (outputFiles r pool) made).result = .ok paths ∧
      (writeOutput directory r pool t).state =
        (Act.mapEach (writeFile directory) (outputFiles r pool) made).state := by
  rw [writeOutput_eq, writeFilesBy_eq directory hlinked] at h ⊢
  obtain ⟨_, hclear, h, hstate⟩ := Act.bind_result_ok h
  obtain ⟨_, hmake, h, hstate'⟩ := Act.bind_result_ok h
  obtain ⟨written, hwritten, h, hstate''⟩ := Act.bind_result_ok h
  obtain ⟨_, hnotice, h, hlast⟩ := Act.bind_result_ok h
  obtain rfl := Except.ok.inj h
  refine ⟨_, funext fun q => ?_, hwritten, ?_⟩
  · rw [get?_makeAll hplain (by decide) _ _ hmake q,
      get?_clear hplain hne hnull henc t _ hclear ht q, afresh]
  · rw [hstate, hstate', hstate'', hlast]
    rfl

/-- **What stands below the output directory** when the output has been written is the output tree,
and the paths that are given are those of its files. -/
theorem get?_writeOutput (hnames : FitNames r pool) :
    paths = (outputFiles r pool).map (fun file => pathBelow directory file.1) ∧
      ∀ q, (writeOutput directory r pool t).state.get? (components directory ++ q) =
        (outputTree r pool).get? q := by
  obtain ⟨made, hmade, hwrite, hstate⟩ := writeOutput_ok hplain hne hnull henc hlinked ht h
  have hplaces := isName_of_mem_outputFiles (r := r) hnames.noSlash
  obtain ⟨hpaths, _, hget⟩ := writeFiles_ok hplain hplaces (nodup_outputFiles hnames) hwrite
  refine ⟨hpaths, fun q => ?_⟩
  rw [hstate, hget q, hmade, afresh_below, get?_outputTree]

end Whole

end Declaration

end Rigging
