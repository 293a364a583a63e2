import Rigging.Proofs.Json.ReadBack
import Rigging.Proofs.Path.Relative
import Rigging.Proofs.Project.Generate
import Rigging.Proofs.Project.Lookup
import Rigging.Proofs.Template

/-!
# The editor's configuration

The configuration that is written can be read from its file again, and the entry that it includes first,
put behind the root and made normal, is the file of the globals in the output directory
(`writeJsconfig_leads`), wherever the two directories are.
-/

namespace Rigging.Project

open Rigging.Path FileTree

variable {t : FileTree}

/-! ### Files that have been written -/

/-- A text that is written is the content of the file that its path leads to. -/
theorem contentAt?_writeText {path text : String} (hpath : IsPlain path) {u : Unit}
    (h : (writeText path text t).result = .ok u) :
    (writeText path text t).state.contentAt? path = some text.toUTF8 := by
  obtain ⟨hlocate, hget⟩ := ensures_writeText path text t u h
  obtain ⟨hfits, _, hreached⟩ := (locate_eq_ok_iff hpath).mp hlocate
  have hreached' : (writeText path text t).state.Reached (components path) := by
    intro q hq hne
    rw [isDirectory, hget q, if_neg hne]
    exact hreached q hq hne
  refine contentAt?_eq_some_iff.mpr ⟨_, (locate_eq_ok_iff hpath).mpr ⟨hfits, rfl, hreached'⟩, ?_⟩
  rw [content?_eq_some_iff, hget, if_pos rfl]

/-- The value in the file that a path leads to, if its bytes are a text and the text is JSON. -/
def jsonAt? (t : FileTree) (path : String) : Option Json :=
  (t.contentAt? path).bind fun content =>
    (Text.Utf8.decode content).toOption.bind fun text => (Json.parse text).toOption

theorem jsonAt?_of_contentAt? {path : String} {v : Json} (hv : Json.Textual v)
    (h : t.contentAt? path = some (v.write .config).toUTF8) : jsonAt? t path = some v := by
  rw [jsonAt?, h, Option.bind_some, Json.decode_write hv]
  show (Json.parse (v.write .config)).toOption = some v
  rw [Json.parse_write hv]
  rfl

/-! ### The configuration -/

/-- What a configuration includes first. -/
def firstInclude? (config : Json) : Option String :=
  (config.get? "include").bind fun entries => entries.items.head?.bind Json.string?

theorem textual_strings {ss : List String} (h : ∀ s ∈ ss, Text.encodable s = true) :
    Json.Textual (.strings ss) := by
  refine .array fun x hx => ?_
  obtain ⟨s, hs, rfl⟩ := List.mem_map.mp hx
  exact .string (h s hs)

theorem textual_jsconfig {relativeOut : String} (h : Text.encodable relativeOut = true) :
    Json.Textual (jsconfig relativeOut) := by
  have hentry : Text.encodable ("./" ++ relativeOut ++ "/globals.d.ts") = true :=
    Text.encodable_append (Text.encodable_append (by decide) h) (by decide)
  have hnodup : ["compilerOptions", "include", "exclude"].Nodup := by decide
  refine .object hnodup ?_ ?_ <;> simp only [List.forall_mem_cons]
  · exact ⟨by decide, by decide, by decide, fun _ hm => absurd hm List.not_mem_nil⟩
  · refine ⟨.object (by decide) (by decide) (List.forall_mem_singleton.mpr (.string (by decide))),
      textual_strings ?_, textual_strings (by decide), fun _ hm => absurd hm List.not_mem_nil⟩
    exact List.forall_mem_cons.mpr ⟨hentry, List.forall_mem_singleton.mpr (by decide)⟩

theorem encodable_relative {p : String} (hp : IsPlain p) (h : Text.encodable p = true) (q : String) :
    Text.encodable (relative p q) = true := by
  rw [relative_eq]
  split
  · decide
  · refine Text.encodable_intercalate (by decide) fun c hc => ?_
    rcases List.mem_append.mp hc with hc | hc
    · rw [List.eq_of_mem_replicate hc]
      decide
    · have hcomponent := List.mem_of_mem_drop hc
      rw [components_of_isPlain hp] at hcomponent
      refine List.all_eq_true.mpr fun x hx => ?_
      exact List.all_eq_true.mp h x (mem_of_mem_pieces (List.mem_filter.mp hcomponent).1 hx)

/-- What has been written when a path is given. -/
theorem writeJsconfig_ok {cwd root outDir path : String} (hroot : IsPlain root)
    (h : (writeJsconfig cwd root outDir t).result = .ok (some path)) :
    path = join root jsconfigFile ∧
      (writeJsconfig cwd root outDir t).state.contentAt? path =
        some (jsconfigText cwd root outDir).toUTF8 := by
  rcases writeJsconfig_cases h with ⟨_, hmade, _⟩ | ⟨_, hmade, hwrite, hstate⟩
  · cases hmade
  · obtain rfl := Option.some.inj hmade
    rw [hstate]
    exact ⟨rfl, contentAt?_writeText (isPlain_join hroot (by decide)).1 hwrite⟩

/-- **The editor finds the globals.**  When the configuration has been written, its file holds a value
whose first included entry leads from the root to the globals in the output directory. -/
theorem writeJsconfig_leads {cwd root outDir path : String} (hroot : IsNormal root)
    (hout : IsNormal outDir) (h : (writeJsconfig cwd root outDir t).result = .ok (some path)) :
    ∃ config entry,
      (writeJsconfig cwd root outDir t).state.contentAt? path = some (config.write .config).toUTF8 ∧
      (Text.encodable outDir = true →
        jsonAt? (writeJsconfig cwd root outDir t).state path = some config) ∧
      firstInclude? config = some entry ∧
      normal (join root entry) = join outDir "globals.d.ts" := by
  obtain ⟨_, hcontent⟩ := writeJsconfig_ok hroot.isPlain h
  rw [jsconfigText, hroot.absolute, hout.absolute] at hcontent
  have hslash : "/globals.d.ts" = "/" ++ "globals.d.ts" := rfl
  refine ⟨jsconfig (relative outDir root), "./" ++ relative outDir root ++ "/globals.d.ts", hcontent,
    fun hencodable => ?_, rfl, ?_⟩
  · have hrelative := encodable_relative hout.isPlain hencodable root
    exact jsonAt?_of_contentAt? (textual_jsconfig hrelative) hcontent
  · rw [hslash, ← String.append_assoc]
    exact normal_join_relative hout hroot (by decide)

/-- A root and, beside it, the directory above the output. -/
def siblings : FileTree :=
  ⟨[(["work"], .directory), (["work", "pets"], .directory), (["work", "types"], .directory)]⟩

theorem writeJsconfig_siblings :
    (writeJsconfig "/" "/work/pets" "/work/types/out" siblings).result =
      .ok (some "/work/pets/jsconfig.json") := by
  decide +kernel

/-- From a root beside the output the way goes up first. -/
theorem writeJsconfig_leads_siblings :
    ∃ config entry,
      (writeJsconfig "/" "/work/pets" "/work/types/out" siblings).state.contentAt?
        "/work/pets/jsconfig.json" = some (config.write .config).toUTF8 ∧
      (Text.encodable "/work/types/out" = true →
        jsonAt? (writeJsconfig "/" "/work/pets" "/work/types/out" siblings).state
          "/work/pets/jsconfig.json" = some config) ∧
      firstInclude? config = some entry ∧
      normal (join "/work/pets" entry) = join "/work/types/out" "globals.d.ts" :=
  writeJsconfig_leads ⟨by decide, by decide, by decide⟩ ⟨by decide, by decide, by decide⟩
    writeJsconfig_siblings

end Rigging.Project
