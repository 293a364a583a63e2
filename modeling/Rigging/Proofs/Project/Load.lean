import Rigging.CommandLine.Command
import Rigging.Proofs.Entity.Extract
import Rigging.Proofs.Project.Discover
import Rigging.Proofs.Request

/-!
# How loading fails

A module is loaded from its content: bytes that are no text, a text that is no script, and attributes
in conflict are the program's own errors, which the front ends tell.  The one other end is a code that
is too large (`OversizedAt`), which goes through both front ends.  `load_family` puts this together,
from a single text to a run.
-/

namespace Rigging.Project

open Rigging.Path FileTree Extraction

variable {t : FileTree}

/-! ### Modules -/

/-- A module with a code that is too large. -/
def OversizedAt (t : FileTree) (source : Source) : Prop :=
  ∃ content text, t.contentAt? source.path = some content ∧ Text.Utf8.decode content = .ok text ∧
    OversizedText text

theorem load_readsUnless (source : Source) :
    ReadsUnless (OversizedAt t source) (load source t).result := by
  have hunreadable : ∀ reason, ∀ e, (.error (.unreadableModule source.kind source.path reason) :
      Except Error Entity) = .error e → e.family = .structural ∨ e.family = .load := by
    intro reason e he
    rw [← Except.error.inj he]
    exact .inr rfl
  cases hcontent : t.contentAt? source.path with
  | none =>
    refine .inr ⟨by simp [OversizedAt, hcontent], ?_⟩
    rw [load, Act.state_bind, hcontent]
    exact hunreadable _
  | some content =>
    cases hdecode : Text.Utf8.decode content with
    | error fault =>
      refine .inr ⟨by simp [OversizedAt, hcontent, hdecode], ?_⟩
      rw [load, Act.state_bind, hcontent]
      dsimp only
      rw [hdecode]
      exact hunreadable _
    | ok text =>
      rw [result_load hcontent hdecode]
      refine (Entity.ofSource_readsUnless _ _ _ _ text).congr ?_
      simp [OversizedAt, hcontent, hdecode]

theorem isOwn_of_loadAll_error {sources : List Source} {order : List Nat} {e : Error}
    (h : (loadAll order sources t).result = .error e) :
    e.isOwn = true ∨ e = tooLarge ∧ ∃ source ∈ sources, OversizedAt t source := by
  obtain ⟨source, hsource, hload⟩ := exists_of_loadAll_error h
  rcases load_readsUnless (t := t) source with ⟨hoversized, hlarge⟩ | ⟨_, hfamily⟩
  · exact .inr ⟨Except.error.inj (hload.symm.trans hlarge), source, hsource, hoversized⟩
  · refine .inl ?_
    unfold Error.isOwn
    rcases hfamily e hload with hfamily | hfamily <;> rw [hfamily]

/-! ### Front ends -/

/-- **What the front ends make of an error**: the program's own errors are told, by both requests as a
failure and by the command as its exit code; any other error goes through. -/
structure ReportsError (schedule : Schedule) (cwd : String) (config : Config) (t : FileTree)
    (e : Error) : Prop where
  preview : ∀ {v body}, Request.Body.ofJson v = .ok body →
    Request.settings cwd t body = .ok (.ok config) →
    (Request.preview schedule cwd v t).result = Request.respond (.error e)
  generate : ∀ {v body}, Request.Body.ofJson v = .ok body →
    Request.settings cwd t body = .ok (.ok config) →
    (Request.generate schedule cwd v t).result = Request.respond (.error e)
  command : ∀ {seconds fields json}, Config.ofFields cwd fields = .ok config →
    checkOutDir cwd config.root config.outDir = .ok () →
    (CommandLine.runGenerate schedule cwd seconds fields json t).result =
      if e.isOwn = true then .ok (.silent 1) else .error e

theorem prepare_of_loadAll_error {schedule : Schedule} {config : Config} {sources : List Source}
    {e : Error} (hsources : (collect config t).result = .ok sources)
    (h : (loadAll (schedule.order sources.length) sources t).result = .error e) :
    (prepare schedule config t).result = .error e := by
  have hkept : (collect config t).state = t := keeps_collect config t
  unfold prepare
  rw [Act.bind_of_ok hsources, hkept, Act.bind_of_error h]

theorem reportsError_of_prepare {schedule : Schedule} {cwd : String} {config : Config} {e : Error}
    (hcwd : isAbsolute cwd = true) (h : (prepare schedule config t).result = .error e) :
    ReportsError schedule cwd config t e where
  preview hbody hsettings := by
    rw [Request.result_preview schedule hbody hsettings, h]
    rfl
  generate hbody hsettings := by
    have hcheck := Request.checkOutDir_of_settings hcwd hsettings
    rw [Request.generate, (Request.answer_of_settings hbody hsettings _).1,
      generate_of_checked hcheck, Act.bind_of_error h]
  command hconfig hcheck := by
    have hgenerate : (Project.generate schedule cwd config t).result = .error e := by
      rw [generate_of_checked hcheck, Act.bind_of_error h]
    unfold CommandLine.runGenerate
    rw [hconfig, Act.ofExcept_ok, Act.pure_bind, Act.notify_bind]
    dsimp only
    rw [Act.bind_of_ok (x := (Project.generate schedule cwd config t).result) rfl, hgenerate]
    dsimp only
    split <;> rfl

/-- **How loading fails.**  A text and a module are loaded, or fail with an error of a broken or
unreadable module or of a conflict, unless extraction comes to a code that is too large; and when the
loading of a project's modules fails, the front ends tell that, unless one of the modules has such a
code. -/
theorem load_family (t : FileTree) :
    (∀ name filename kind owner text, Text.encodable text = true →
      ReadsUnless (OversizedText text) (Entity.ofText name filename kind owner text ()).result) ∧
    (∀ source, ReadsUnless (OversizedAt t source) (load source t).result) ∧
    ∀ schedule cwd config sources e, isAbsolute cwd = true → (collect config t).result = .ok sources →
      (loadAll (schedule.order sources.length) sources t).result = .error e →
      (e.isOwn = true ∨ e = tooLarge ∧ ∃ source ∈ sources, OversizedAt t source) ∧
        ReportsError schedule cwd config t e := by
  refine ⟨?_, load_readsUnless, ?_⟩
  · intro name filename kind owner text htext
    unfold Entity.ofText
    rw [htext, Bool.not_true, if_neg Bool.false_ne_true]
    exact Entity.ofSource_readsUnless name filename kind owner text
  · intro schedule cwd config sources e hcwd hsources hload
    exact ⟨isOwn_of_loadAll_error hload,
      reportsError_of_prepare hcwd (prepare_of_loadAll_error hsources hload)⟩

/-- A model with a key that names a character by a code that is too large. -/
def codedProject : FileTree :=
  ⟨[(["p"], .directory), (["p", "package.json"], .file "\x7b\x7d".toUTF8), (["p", "api"], .directory),
    (["p", "api", "models"], .directory),
    (["p", "api", "models", "Pet.js"],
      .file "module.exports = \x7b '\\u\x7b80000000\x7d': 1 \x7d;".toUTF8)]⟩

theorem prepare_codedProject :
    (prepare .inTurn (Config.make "/" "/p" none false true defaultMarker defaultWorkers)
      codedProject).result = .error tooLarge := by
  decide +kernel

/-- The code goes through a request, although it stands under a key that is not even looked for. -/
theorem generate_codedProject :
    (Request.generate .inTurn "/" (.object [("root_path", .string "/p")]) codedProject).result =
      .error tooLarge := by
  have hbody : Request.Body.ofJson (.object [("root_path", .string "/p")]) =
      .ok ⟨"/p", none, false⟩ := by
    decide
  have hsettings : Request.settings "/" codedProject ⟨"/p", none, false⟩ =
      .ok (.ok (Config.make "/" "/p" none false true defaultMarker defaultWorkers)) := by
    decide
  rw [(reportsError_of_prepare (by decide) prepare_codedProject).generate hbody hsettings]
  rfl

end Rigging.Project
