import Rigging.Proofs.Request

/-!
# Where output may go

A path is walked piece by piece, from the root or from the place one stands at (`placeFrom`).  The
components that the checks compare are the places that walking leads to (`components_join_eq`), so an
output directory is refused by a run exactly if the project lies in it or is it, and by a request
exactly if it does not lie in the project (`checkOutDir_settings`).
-/

namespace Rigging.Path

/-! ### Walking -/

/-- The place that one piece of a path leads to. -/
def stepFrom (place : List String) (piece : String) : List String :=
  if piece = "" ∨ piece = "." then place
  else if piece = ".." then place.dropLast
  else place ++ [piece]

/-- The place that a path leads to from another place. -/
def placeFrom (place : List String) (p : String) : List String :=
  (pieces p).foldl stepFrom (if isAbsolute p then [] else place)

example : placeFrom ["a", "b"] "./x/../..//c/" = ["a", "c"] := by decide

example : placeFrom ["a", "b"] "/../c" = ["c"] := by decide

/-- Settling pieces on a stack of names is walking them from the place that the stack holds. -/
theorem settle_eq_foldl {stack : List String} (cs : List String) (h : ".." ∉ stack) :
    settle true stack cs = cs.foldl stepFrom stack.reverse := by
  induction cs generalizing stack with
  | nil => rfl
  | cons c cs ih =>
    rw [List.foldl_cons]
    by_cases hskip : c = "" ∨ c = "."
    · rw [settle_skip hskip, stepFrom, if_pos hskip]
      exact ih h
    · by_cases hup : c = ".."
      · have hhead : stack.head? ≠ some ".." := fun htop => h (List.mem_of_mem_head? htop)
        rw [stepFrom, if_neg hskip, if_pos hup, hup, settle_up hhead, List.dropLast_reverse]
        exact ih fun hmem => h (List.mem_of_mem_tail hmem)
      · rw [stepFrom, if_neg hskip, if_neg hup, ← List.reverse_cons]
        rw [not_or] at hskip
        rw [settle_name hskip.1 hskip.2 hup]
        refine ih fun hmem => ?_
        rcases List.mem_cons.mp hmem with heq | hmem
        · exact hup heq.symm
        · exact h hmem

theorem components_eq_foldl (p : String) : components p = (pieces p).foldl stepFrom [] :=
  settle_eq_foldl (pieces p) List.not_mem_nil

/-- **One path behind another** leads on from where the first one leads. -/
theorem components_join_eq (p q : String) : components (join p q) = placeFrom (components p) q := by
  by_cases hq : isAbsolute q = true
  · rw [join_of_isAbsolute hq, placeFrom, if_pos hq, components_eq_foldl]
  · rw [Bool.not_eq_true] at hq
    obtain ⟨front, hfront, hjoin⟩ := exists_pieces_join p
    have hp : components p = front.foldl stepFrom [] := by
      rw [components_eq_foldl]
      rcases hfront with h | h
      · rw [h]
      · rw [h, List.foldl_append, List.foldl_cons, List.foldl_nil, stepFrom, if_pos (.inl rfl)]
    rw [components_eq_foldl, hjoin q hq, List.foldl_append, ← hp, placeFrom, hq,
      if_neg Bool.false_ne_true]

/-- The components of an absolute path are those of its walk from the working directory. -/
theorem components_absolute {cwd : String} (h : isAbsolute cwd = true) (p : String) :
    components (absolute cwd p) = placeFrom (components cwd) p := by
  rw [absolute, (isPlain_normal (isAbsolute_join h p)).2, components_join_eq]

end Rigging.Path

namespace Rigging.Request

open Rigging.Path FileTree Project

/-! ### Refusals -/

section Answers

variable {cwd : String} {v : Json} {t : FileTree} {body : Body} (hbody : Body.ofJson v = .ok body)
  {α : Type} (action : Config → Act FileTree α)

include hbody

theorem answer_of_refused {detail : String} (h : settings cwd t body = .ok (.error detail)) :
    (answer cwd v action t).result = .ok (.refused detail) := by
  unfold answer
  rw [hbody]
  dsimp only
  rw [Act.state_bind, h, Act.ofExcept_ok, Act.pure_bind]
  rfl

/-- A request is answered with 400 only if its settings are refused. -/
theorem status_answer_of_settings {config : Config} (h : settings cwd t body = .ok (.ok config))
    {response : Response α} (hresponse : (answer cwd v action t).result = .ok response) :
    response.status ≠ 400 := by
  rw [(answer_of_settings hbody h action).1] at hresponse
  cases hresult : (action config t).result with
  | ok a =>
    rw [hresult] at hresponse
    obtain rfl := Except.ok.inj hresponse
    exact (by decide : 200 ≠ 400)
  | error e =>
    rw [hresult, respond] at hresponse
    split at hresponse
    · obtain rfl := Except.ok.inj hresponse
      exact (by decide : 422 ≠ 400)
    · cases hresponse

end Answers

/-! ### Admission -/

/-- A text that can name a path: no NUL and no half character is in it. -/
def Nameable (path : String) : Prop :=
  ∀ x ∈ path.toList, x ≠ Char.ofNat 0 ∧ (Text.half? x).isNone = true

instance (path : String) : Decidable (Nameable path) :=
  inferInstanceAs (Decidable (∀ x ∈ path.toList, _))

/-- **Output goes where it takes nothing of the project with it.**  A run refuses an output directory
exactly if the place of the project is in it or is it.  A request for a project that is there refuses
one, with 400, exactly if its place is not below the project.  So no run refuses the settings of a
request. -/
theorem checkOutDir_settings {cwd : String} (hcwd : isAbsolute cwd = true) :
    let here := placeFrom [] cwd
    (∀ root outDir, Nameable root → Nameable outDir → checkOutDir cwd root outDir =
      if placeFrom here outDir <+: placeFrom here root then .error (.outputHoldsProject outDir root)
      else .ok ()) ∧
    (∀ t body given, t.isDirectoryAt (absolute cwd body.rootPath) = true →
      body.outDir = some given → Nameable given →
      let root := placeFrom here body.rootPath
      (settings cwd t body = .ok (.error ("Invalid out_dir: " ++ given)) ↔
        ¬Below root (placeFrom root given)) ∧
      ((∃ config, settings cwd t body = .ok (.ok config)) ↔ Below root (placeFrom root given)) ∧
      ∀ v, Body.ofJson v = .ok body → ∀ (α : Type) (action : Config → Act FileTree α),
        (∃ response, (answer cwd v action t).result = .ok response ∧ response.status = 400) ↔
          ¬Below root (placeFrom root given)) ∧
    ∀ t body config, settings cwd t body = .ok (.ok config) →
      checkOutDir cwd config.root config.outDir = .ok () := by
  intro here
  have hhere : here = components cwd := by
    show placeFrom [] cwd = _
    rw [placeFrom, ite_self, components_eq_foldl]
  refine ⟨?_, ?_, fun t body config h => checkOutDir_of_settings hcwd h⟩
  · intro root outDir hroot hout
    rw [checkOutDir_of_proper (checkPath_ok_iff.mpr hroot) (checkPath_ok_iff.mpr hout),
      components_join_eq, components_join_eq, hhere]
  · intro t body given hdirectory hgiven hproper root
    have hroot : components (absolute cwd body.rootPath) = root := by
      rw [components_absolute hcwd, ← hhere]
    have hsettings := settings_of_given hcwd hdirectory hgiven (checkPath_ok_iff.mpr hproper)
    dsimp only at hsettings
    rw [components_join_eq, hroot] at hsettings
    by_cases hbelow : Below root (placeFrom root given)
    · rw [if_pos hbelow] at hsettings
      refine ⟨?_, ?_, fun v hv α action => ?_⟩
      · rw [hsettings]
        simp [hbelow]
      · exact iff_of_true ⟨_, hsettings⟩ hbelow
      · refine iff_of_false ?_ (not_not.mpr hbelow)
        rintro ⟨response, hresponse, hstatus⟩
        exact status_answer_of_settings hv action hsettings hresponse hstatus
    · rw [if_neg hbelow] at hsettings
      refine ⟨iff_of_true hsettings hbelow, ?_, fun v hv α action => ?_⟩
      · rw [hsettings]
        simp [hbelow]
      · exact iff_of_true ⟨_, answer_of_refused hv action hsettings, rfl⟩ hbelow

/-- Steps up, needless slashes and names that begin alike: the directory above a project is refused by
a run, a directory beside it by a request, and one in it by neither. -/
theorem checkOutDir_settings_walksProject :
    checkOutDir "/w" "/p/q" "../p//." = .error (.outputHoldsProject "../p//." "/p/q") ∧
      checkOutDir "/w" "/p/q" "/p/./qs" = .ok () ∧
      settings "/w" walksProject ⟨"/p", some "../ps", false⟩ = .ok (.error "Invalid out_dir: ../ps") ∧
      ∃ config, settings "/w" walksProject ⟨"../p", some "x/..//api", false⟩ = .ok (.ok config) ∧
        checkOutDir "/w" config.root config.outDir = .ok () := by
  obtain ⟨hcheck, hrequest, hnever⟩ := checkOutDir_settings (show isAbsolute "/w" = true by decide)
  have hthere : walksProject.isDirectoryAt (absolute "/w" "/p") = true := by decide
  have hupward : walksProject.isDirectoryAt (absolute "/w" "../p") = true := by decide
  have hbeside := (hrequest walksProject ⟨"/p", some "../ps", false⟩ _ hthere rfl (by decide)).1
  have hinside :=
    (hrequest walksProject ⟨"../p", some "x/..//api", false⟩ _ hupward rfl (by decide)).2.1
  obtain ⟨config, hconfig⟩ := hinside.mpr (by decide)
  refine ⟨?_, ?_, hbeside.mpr (by decide), config, hconfig, hnever _ _ _ hconfig⟩
  · rw [hcheck "/p/q" "../p//." (by decide) (by decide), if_pos (by decide)]
  · rw [hcheck "/p/q" "/p/./qs" (by decide) (by decide), if_neg (by decide)]

end Rigging.Request
