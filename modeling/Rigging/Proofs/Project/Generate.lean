import Rigging.Proofs.Declaration.Output
import Rigging.Proofs.Project.Prepare

/-!
# What a run changes

A run that ends with one of the program's own errors leaves the file tree as it was, since all of
them come before anything is written.  A run that succeeds replaces the output directory, and outside
of it the only things that are new are the directories above it and the editor's configuration
(`generate_frame`).
-/

namespace Rigging.Project

open Rigging.Path FileTree

/-! ### Configurations -/

theorem Config.isPlain_make {cwd : String} (hcwd : isAbsolute cwd = true) (root : String)
    (outDir : Option String) (writeJsconfig includeHooks : Bool) (hookMarker : String)
    (maxWorkers : Int) :
    IsPlain (make cwd root outDir writeJsconfig includeHooks hookMarker maxWorkers).root ∧
      IsPlain (make cwd root outDir writeJsconfig includeHooks hookMarker maxWorkers).outDir := by
  have hroot := isPlain_absolute hcwd root
  cases outDir with
  | some d =>
    dsimp only [make]
    exact ⟨hroot, isPlain_absolute hcwd d⟩
  | none =>
    dsimp only [make]
    exact ⟨hroot, (isPlain_join hroot (by decide)).1⟩

/-- A path that the file system can take. -/
theorem checkPath_ok {path : String} (h : checkPath path = .ok ()) :
    ¬path.toList.contains (Char.ofNat 0) = true ∧ Text.encodable path = true := by
  unfold checkPath at h
  split at h
  · cases h
  · rename_i hnull
    split at h
    · cases h
    · rename_i henc
      rw [Bool.not_eq_true', Bool.not_eq_false] at henc
      exact ⟨hnull, henc⟩

theorem checkPath_ok_iff {path : String} : checkPath path = .ok () ↔
    ∀ x ∈ path.toList, x ≠ Char.ofNat 0 ∧ (Text.half? x).isNone = true := by
  constructor
  · intro h x hx
    obtain ⟨hnull, henc⟩ := checkPath_ok h
    refine ⟨?_, List.all_eq_true.mp henc x hx⟩
    rintro rfl
    exact hnull (List.contains_iff_mem.mpr hx)
  · intro h
    have hnull : ¬path.toList.contains (Char.ofNat 0) = true :=
      fun hmem => (h _ (List.contains_iff_mem.mp hmem)).1 rfl
    have henc : Text.encodable path = true := List.all_eq_true.mpr fun x hx => (h x hx).2
    rw [checkPath, if_neg hnull, henc]
    rfl

/-- The check of proper paths: an output directory is refused if it holds the project. -/
theorem checkOutDir_of_proper {root outDir : String} (hroot : checkPath root = .ok ())
    (hout : checkPath outDir = .ok ()) (cwd : String) :
    checkOutDir cwd root outDir =
      if components (join cwd outDir) <+: components (join cwd root) then
        .error (.outputHoldsProject outDir root)
      else .ok () := by
  simp only [checkOutDir, hroot, hout, bind, Except.bind, holds_real]

/-- **An output directory passes the check** if both paths are proper and it does not hold the
project. -/
theorem checkOutDir_ok_iff {cwd root outDir : String} (hroot : IsPlain root) (hout : IsPlain outDir) :
    checkOutDir cwd root outDir = .ok () ↔
      checkPath root = .ok () ∧ checkPath outDir = .ok () ∧
        ¬components outDir <+: components root := by
  cases hr : checkPath root with
  | error e =>
    rw [checkOutDir, hr]
    exact iff_of_false (fun h => nomatch h) fun h => nomatch h.1
  | ok u =>
    cases ho : checkPath outDir with
    | error e =>
      rw [checkOutDir, hr, ho]
      exact iff_of_false (fun h => nomatch h) fun h => nomatch h.2.1
    | ok v =>
      rw [checkOutDir_of_proper hr ho, join_of_isAbsolute hout.isAbsolute,
        join_of_isAbsolute hroot.isAbsolute]
      split <;> simp [*]

/-- An output directory that passes the check is a proper path and does not hold the project. -/
theorem checkOutDir_ok {cwd root outDir : String} (hroot : IsPlain root) (hout : IsPlain outDir)
    (h : checkOutDir cwd root outDir = .ok ()) :
    checkPath outDir = .ok () ∧ ¬components outDir <+: components root :=
  ((checkOutDir_ok_iff hroot hout).mp h).2

/-! ### The editor's configuration -/

/-- Where the editor's configuration stands. -/
def Config.jsconfigPlace (config : Config) : List String :=
  components config.root ++ [jsconfigFile]

/-- What the editor's configuration says. -/
def jsconfigText (cwd root outDir : String) : String :=
  (jsconfig (Path.relative (Path.absolute cwd outDir) (Path.absolute cwd root))).write .config

/-- An editor's configuration that is there is left alone. -/
theorem writeJsconfig_of_existsAt (cwd : String) {root : String} (outDir : String) {t : FileTree}
    (h : t.existsAt (join root jsconfigFile) = true) :
    writeJsconfig cwd root outDir t = ⟨.ok none, t, []⟩ := by
  unfold writeJsconfig
  rw [Act.state_bind]
  dsimp only
  rw [if_pos h]
  rfl

/-- **Writing the editor's configuration**, when it succeeds: one that is there is left alone, and
otherwise the text is written and its path is given. -/
theorem writeJsconfig_cases {cwd root outDir : String} {t : FileTree} {made : Option String}
    (h : (writeJsconfig cwd root outDir t).result = .ok made) :
    (t.existsAt (join root jsconfigFile) = true ∧ made = none ∧
      (writeJsconfig cwd root outDir t).state = t) ∨
    (¬t.existsAt (join root jsconfigFile) = true ∧ made = some (join root jsconfigFile) ∧
      (writeText (join root jsconfigFile) (jsconfigText cwd root outDir) t).result = .ok () ∧
      (writeJsconfig cwd root outDir t).state =
        (writeText (join root jsconfigFile) (jsconfigText cwd root outDir) t).state) := by
  by_cases hexists : t.existsAt (join root jsconfigFile) = true
  · rw [writeJsconfig_of_existsAt cwd outDir hexists] at h ⊢
    exact .inl ⟨hexists, (Except.ok.inj h).symm, rfl⟩
  · unfold writeJsconfig at h ⊢
    rw [Act.state_bind] at h ⊢
    dsimp only at h ⊢
    rw [if_neg hexists] at h ⊢
    obtain ⟨_, hwrite, hrest, hstate⟩ := Act.bind_result_ok h
    exact .inr ⟨hexists, (Except.ok.inj hrest).symm, hwrite, hstate⟩

theorem ensures_writeJsconfig {root : String} (hroot : IsPlain root) (cwd outDir : String) :
    Act.Ensures (fun t t' => ∀ q, t'.get? q = (t.get? q).or
      (if q = components root ++ [jsconfigFile] then
        some (.file (jsconfigText cwd root outDir).toUTF8) else none))
      (writeJsconfig cwd root outDir) := by
  obtain ⟨hpath, hcomponents⟩ := isPlain_join hroot (show IsName jsconfigFile by decide)
  intro t x hx q
  rcases writeJsconfig_cases hx with ⟨hexists, _, hstate⟩ | ⟨hexists, _, hwrite, hstate⟩
  · have hsome := isSome_get?_of_existsAt hexists
    obtain ⟨n, hn⟩ := Option.isSome_iff_exists.mp hsome
    rw [hcomponents] at hn
    rw [hstate]
    by_cases hq : q = components root ++ [jsconfigFile]
    · rw [hq, hn]
      rfl
    · rw [if_neg hq, Option.or_none]
  · obtain ⟨hlocate, hget⟩ := ensures_writeText _ _ t () hwrite
    have hnone := get?_of_not_existsAt hlocate hexists
    rw [hstate]
    refine (hget q).trans ?_
    rw [hcomponents] at hnone ⊢
    by_cases hq : q = components root ++ [jsconfigFile]
    · rw [if_pos hq, if_pos hq, hq, hnone]
      rfl
    · rw [if_neg hq, if_neg hq, Option.or_none]

theorem fails_writeJsconfig {Q : Error → Prop} (hsystem : ∀ fault, Q (.system fault))
    (cwd root outDir : String) : Act.Fails Q (writeJsconfig cwd root outDir) := by
  refine Act.fails_bind Act.fails_state fun t => ?_
  dsimp only
  split
  · exact Act.fails_pure _
  · refine Act.fails_bind (fails_writeText hsystem _ _) fun _ => ?_
    exact Act.fails_bind (Act.fails_notify _) fun _ => Act.fails_pure _

/-! ### Runs -/

/-- What a run adds at a path outside the output directory when nothing stands there: the directories
above the output, and the editor's configuration if it is asked for. -/
def Config.added (config : Config) (cwd : String) (q : List String) : Option FileNode :=
  if q <+: components config.outDir then some .directory
  else if config.writeJsconfig = true ∧ q = config.jsconfigPlace then
    some (.file (jsconfigText cwd config.root config.outDir).toUTF8)
  else none

/-- Behind the output, the editor's configuration is all that can still be new. -/
def Config.AddsJsconfig (config : Config) (cwd : String) (t t' : FileTree) : Prop :=
  ∀ q, t'.get? q = (t.get? q).or
    (if config.writeJsconfig = true ∧ q = config.jsconfigPlace then
      some (.file (jsconfigText cwd config.root config.outDir).toUTF8) else none)

/-- The part of a run that writes. -/
def writeAll (cwd : String) (config : Config) (registry : Registry) (pool : Pool) :
    Act FileTree Report := do
  let files ← Declaration.writeOutput config.outDir registry pool
  if config.writeJsconfig then
    let _ ← writeJsconfig cwd config.root config.outDir
  return {
    root := config.root
    outDir := config.outDir
    models := Assoc.keys registry.models
    services := Assoc.keys registry.services
    files
    summaries := Summaries.ofRun ((registry.modelsIn pool).map Prod.snd)
      ((registry.servicesIn pool).map Prod.snd) config.outDir files.length }

/-- A run checks, prepares and then writes. -/
theorem generate_eq (schedule : Schedule) (cwd : String) (config : Config) :
    generate schedule cwd config = (Act.ofExcept (checkOutDir cwd config.root config.outDir) >>= fun _ =>
      prepare schedule config >>= fun prepared => writeAll cwd config prepared.1 prepared.2) := by
  unfold generate writeAll
  rfl

/-- A run whose check is passed prepares and writes. -/
theorem generate_of_checked {schedule : Schedule} {cwd : String} {config : Config}
    (hcheck : checkOutDir cwd config.root config.outDir = .ok ()) :
    generate schedule cwd config = (prepare schedule config >>= fun prepared =>
      writeAll cwd config prepared.1 prepared.2) := by
  rw [generate_eq, hcheck]
  rfl

/-- Writing is the output, and behind it the editor's configuration if it is asked for. -/
theorem ensures_writeAll_of {cwd : String} {config : Config} {registry : Registry} {pool : Pool}
    {R S T : FileTree → FileTree → Prop} (hcomp : ∀ s t u, R s t → S t u → T s u)
    (houtput : Act.Ensures R (Declaration.writeOutput config.outDir registry pool))
    (hjsconfig : config.writeJsconfig = true →
      Act.Ensures S (writeJsconfig cwd config.root config.outDir))
    (hnone : config.writeJsconfig ≠ true → ∀ t, S t t) :
    Act.Ensures T (writeAll cwd config registry pool) := by
  refine Act.ensures_bind hcomp houtput fun files => ?_
  dsimp only
  split
  · rename_i hjs
    refine Act.ensures_bind (fun s t u h (heq : t = u) => ?_) (hjsconfig hjs) fun _ =>
      Act.ensures_of_keeps (fun _ => rfl) (Act.keeps_pure _)
    exact heq ▸ h
  · rename_i hjs
    exact Act.ensures_of_keeps (hnone hjs) (Act.keeps_pure _)

theorem ensures_writeAll {cwd : String} {config : Config} (hroot : IsPlain config.root)
    (hout : IsPlain config.outDir) (hne : components config.outDir ≠ []) {registry : Registry}
    {pool : Pool} (hpool : ∀ e ∈ pool, '/' ∉ e.name.toList) :
    Act.Ensures (fun t t' => ∀ q, ¬components config.outDir <+: q →
      t'.get? q = (t.get? q).or (config.added cwd q)) (writeAll cwd config registry pool) := by
  refine ensures_writeAll_of (S := config.AddsJsconfig cwd) (fun s t u hmade hrest q hq => ?_)
    (Declaration.ensures_writeOutput hout hne hpool) (fun hjs => ?_) (fun hjs t q => ?_)
  · rw [hrest q, hmade q hq, Option.or_assoc, Config.added]
    split
    · rfl
    · exact congrArg _ Option.none_or
  · unfold Config.AddsJsconfig
    simp only [hjs, true_and]
    exact ensures_writeJsconfig hroot cwd _
  · rw [if_neg fun h => hjs h.1]
    exact Option.or_none.symm

/-- **The parts of a run that succeeds**: the output directory is fit, everything is declared before
anything is written, and then all is written. -/
theorem generate_ok {schedule : Schedule} {cwd : String} {config : Config} {t : FileTree}
    {report : Report} (h : (generate schedule cwd config t).result = .ok report) :
    checkOutDir cwd config.root config.outDir = .ok () ∧
      ∃ prepared, (prepare schedule config t).result = .ok prepared ∧
        (writeAll cwd config prepared.1 prepared.2 t).result = .ok report ∧
        (generate schedule cwd config t).state =
          (writeAll cwd config prepared.1 prepared.2 t).state := by
  rw [generate_eq] at h ⊢
  obtain ⟨u, hcheck, h, hstate⟩ := Act.bind_result_ok h
  have hchecked : checkOutDir cwd config.root config.outDir = .ok () := by
    cases hx : checkOutDir cwd config.root config.outDir with
    | ok u => rfl
    | error e =>
      rw [hx] at hcheck
      cases hcheck
  have hsame : (Act.ofExcept (checkOutDir cwd config.root config.outDir) t).state = t := by
    rw [hchecked]
    rfl
  rw [hsame] at h hstate
  obtain ⟨prepared, hprepare, h, hprepared⟩ := Act.bind_result_ok h
  have hkept : (prepare schedule config t).state = t := keeps_prepare schedule config t
  rw [hkept] at h hprepared
  exact ⟨hchecked, prepared, hprepare, h, hstate.trans hprepared⟩

theorem components_outDir_ne_nil {cwd : String} {config : Config} (hroot : IsPlain config.root)
    (hout : IsPlain config.outDir) (h : checkOutDir cwd config.root config.outDir = .ok ()) :
    components config.outDir ≠ [] := by
  intro hnil
  refine (checkOutDir_ok hroot hout h).2 ?_
  rw [hnil]
  exact List.nil_prefix

/-- **What a run leaves outside its output directory**, path by path. -/
theorem get?_generate {schedule : Schedule} {cwd : String} {config : Config}
    (hroot : IsPlain config.root) (hout : IsPlain config.outDir) :
    Act.Ensures (fun t t' => ∀ q, ¬components config.outDir <+: q →
      t'.get? q = (t.get? q).or (config.added cwd q)) (generate schedule cwd config) := by
  intro t report h
  obtain ⟨hchecked, prepared, hprepare, hwrite, hstate⟩ := generate_ok h
  have hne := components_outDir_ne_nil hroot hout hchecked
  rw [hstate]
  exact ensures_writeAll hroot hout hne (gives_prepare schedule config t prepared hprepare) t report
    hwrite

theorem fails_writeAll {Q : Error → Prop} (hsystem : ∀ fault, Q (.system fault)) (cwd : String)
    (config : Config) {registry : Registry} {pool : Pool}
    (hlinked : ∀ e ∈ registry.modelsIn pool ++ registry.servicesIn pool,
      e.2.declarations.linked = none → Q (.notLinked e.2.describe)) :
    Act.Fails Q (writeAll cwd config registry pool) := by
  refine Act.fails_bind (Declaration.fails_writeOutput hsystem _ hlinked) fun files => ?_
  dsimp only
  split
  · exact Act.fails_bind (fails_writeJsconfig hsystem _ _ _) fun _ => Act.fails_pure _
  · exact Act.fails_pure _

/-- **The program's own errors come before anything is written.** -/
theorem state_generate_of_isOwn {schedule : Schedule} {cwd : String} {config : Config} {t : FileTree}
    {e : Error} (h : (generate schedule cwd config t).result = .error e) (hown : e.isOwn = true) :
    (generate schedule cwd config t).state = t := by
  have hsame : (Act.ofExcept (checkOutDir cwd config.root config.outDir) t).state = t := by
    cases checkOutDir cwd config.root config.outDir <;> rfl
  have hkept : (prepare schedule config t).state = t := keeps_prepare schedule config t
  rw [generate_eq] at h ⊢
  rcases Act.bind_result_error h with ⟨_, hstate⟩ | ⟨u, _, h, hstate⟩
  · rw [hstate, hsame]
  · rw [hsame] at h hstate
    rcases Act.bind_result_error h with ⟨_, hprepared⟩ | ⟨prepared, _, h, _⟩
    · rw [hstate, hprepared, hkept]
    · have hforeign : e.isOwn = false :=
        fails_writeAll (Q := fun e => e.isOwn = false) (fun _ => rfl) cwd config (fun _ _ _ => rfl) _
          e h
      rw [hown] at hforeign
      cases hforeign

/-- What is different outside the output directory, at most: everything that stood there still does,
and all that is new are the directories above the output and the editor's configuration. -/
structure Config.OnlyAdds (config : Config) (before after : FileTree) : Prop where
  kept : ∀ q n, ¬components config.outDir <+: q → before.get? q = some n → after.get? q = some n
  parents : ∀ q, q <+: components config.outDir → q ≠ components config.outDir →
    before.get? q = none → after.get? q = some .directory
  jsconfig : config.writeJsconfig = true → ¬components config.outDir <+: config.jsconfigPlace →
    ¬config.jsconfigPlace <+: components config.outDir → before.get? config.jsconfigPlace = none →
    ∃ content, after.get? config.jsconfigPlace = some (.file content)
  nothingElse : ∀ q, ¬components config.outDir <+: q → before.get? q = none →
    (after.get? q).isSome = true →
    q <+: components config.outDir ∨ config.writeJsconfig = true ∧ q = config.jsconfigPlace

theorem Config.onlyAdds_of_get? {config : Config} {cwd : String} {before after : FileTree}
    (h : ∀ q, ¬components config.outDir <+: q →
      after.get? q = (before.get? q).or (config.added cwd q)) : config.OnlyAdds before after := by
  refine ⟨fun q n hq hn => ?_, fun q hq hne hnone => ?_, fun hjs hout habove hnone => ?_,
    fun q hq hnone hsome => ?_⟩
  · rw [h q hq, hn]
    rfl
  · have houtside : ¬components config.outDir <+: q :=
      fun hbase => hne (hq.eq_of_length_le hbase.length_le)
    rw [h q houtside, hnone, added, if_pos hq]
    rfl
  · refine ⟨(jsconfigText cwd config.root config.outDir).toUTF8, ?_⟩
    rw [h _ hout, hnone, added, if_neg habove, if_pos ⟨hjs, rfl⟩]
    rfl
  · rw [h q hq, hnone, Option.none_or, added] at hsome
    split at hsome
    · rename_i habove
      exact Or.inl habove
    · split at hsome
      · rename_i hplace
        exact Or.inr hplace
      · cases hsome

/-- **The effect of a run on the file tree**: one of the program's own errors leaves it as it was, and
a run that succeeds only adds to what lies outside its output directory. -/
theorem generate_frame (schedule : Schedule) {cwd : String} (hcwd : isAbsolute cwd = true)
    (root : String) (outDir : Option String) (writeJsconfig includeHooks : Bool) (hookMarker : String)
    (maxWorkers : Int) (t : FileTree) :
    let config := Config.make cwd root outDir writeJsconfig includeHooks hookMarker maxWorkers
    (∀ e, (generate schedule cwd config t).result = .error e → e.isOwn = true →
      (generate schedule cwd config t).state = t) ∧
    ∀ report, (generate schedule cwd config t).result = .ok report →
      config.OnlyAdds t (generate schedule cwd config t).state := by
  intro config
  obtain ⟨hroot, hout⟩ := Config.isPlain_make hcwd root outDir writeJsconfig includeHooks hookMarker
    maxWorkers
  exact ⟨fun e h hown => state_generate_of_isOwn h hown, fun report h =>
    Config.onlyAdds_of_get? (get?_generate hroot hout t report h)⟩

/-- A run without faults of the file system succeeds: it is enough that everything can be written. -/
theorem exists_generate_ok {schedule : Schedule} {cwd : String} {config : Config} {t : FileTree}
    {registry : Registry} {pool : Pool} (hcheck : checkOutDir cwd config.root config.outDir = .ok ())
    (hprepare : (prepare schedule config t).result = .ok (registry, pool))
    (hwrite : (writeAll cwd config registry pool t).result.isOk = true) :
    ∃ report, (generate schedule cwd config t).result = .ok report := by
  have hkept : (prepare schedule config t).state = t := keeps_prepare schedule config t
  rw [generate_of_checked hcheck, Act.bind_of_ok hprepare, hkept]
  cases hresult : (writeAll cwd config registry pool t).result with
  | ok report => exact ⟨report, rfl⟩
  | error e =>
    rw [hresult] at hwrite
    cases hwrite

/-- What is written when there are no entities is written like its bytes. -/
theorem writeFilesBy_nothing (directory : String) :
    Declaration.writeFilesBy writeText directory ⟨[], []⟩ [] =
      Declaration.writeFilesBy (fun path text => writeBytes path text.toUTF8) directory ⟨[], []⟩ [] := by
  refine Declaration.writeFilesBy_of_encodable _ ?_ fun _ he => nomatch he
  exact Text.encodable_intercalate (by decide) (by decide)

/-- A project without modules, and with the output of an earlier run. -/
def bareProject : FileTree :=
  ⟨[(["p"], .directory), (["p", "package.json"], .file (ByteArray.mk #[123, 125])),
    (["p", ".types"], .directory), (["p", ".types", "old.d.ts"], .file (ByteArray.mk #[10]))]⟩

/-- A run on it succeeds when its output goes to directories that are to be made. -/
theorem exists_generate_bareProject : ∃ report, (generate .inTurn "/" (Config.make "/" "p/../p"
    (some "p/a/b") true true defaultMarker defaultWorkers) bareProject).result = .ok report := by
  have hconfig : Config.make "/" "p/../p" (some "p/a/b") true true defaultMarker defaultWorkers =
      ⟨"/p", "/p/a/b", true, true, defaultMarker, defaultWorkers⟩ := by decide
  have hcheck : checkOutDir "/" "/p" "/p/a/b" = .ok () := by decide
  have hprepare : (prepare .inTurn ⟨"/p", "/p/a/b", true, true, defaultMarker, defaultWorkers⟩
      bareProject).result = .ok (⟨[], []⟩, []) := by decide +kernel
  have hwrite : (writeAll "/" ⟨"/p", "/p/a/b", true, true, defaultMarker, defaultWorkers⟩ ⟨[], []⟩ []
      bareProject).result.isOk = true := by
    rw [writeAll, Declaration.writeOutput_eq, writeFilesBy_nothing]
    decide +kernel
  rw [hconfig]
  exact exists_generate_ok hcheck hprepare hwrite

/-- The project as it is, and the same without its package file, where an earlier output stays. -/
theorem generate_frame_bareProject :
    let config := Config.make "/" "p/../p" (some "p/a/b") true true defaultMarker defaultWorkers
    let broken := bareProject.remove ["p", "package.json"]
    (∃ report, (generate .inTurn "/" config bareProject).result = .ok report) ∧
      config.OnlyAdds bareProject (generate .inTurn "/" config bareProject).state ∧
      (generate .inTurn "/" config broken).result = .error (.missingPackage "/p/package.json") ∧
      (generate .inTurn "/" config broken).state = broken := by
  intro config broken
  have hcwd : isAbsolute "/" = true := by decide
  have hframe := generate_frame .inTurn hcwd "p/../p" (some "p/a/b") true true defaultMarker
    defaultWorkers
  obtain ⟨report, hreport⟩ := exists_generate_bareProject
  have herror : (generate .inTurn "/" config broken).result =
      .error (.missingPackage "/p/package.json") := by
    decide +kernel
  exact ⟨⟨report, hreport⟩, (hframe bareProject).2 report hreport, herror,
    (hframe broken).1 _ herror rfl⟩

end Rigging.Project
