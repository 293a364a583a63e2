import Rigging.Proofs.Text.Blank
import Rigging.Template.Files
import Rigging.Text.Surrogate

/-!
# The texts of the fixed files

A text without half characters can be encoded, and a text of lines when its lines can be
(`encodable_intercalate`).  The fixed files are such texts, so writing one of them fails for the sake
of its path only.
-/

namespace Rigging

namespace Text

theorem encodable_ofList {cs : List Char} (h : (cs.all fun c => (half? c).isNone) = true) :
    encodable (String.ofList cs) = true := by
  rw [encodable, String.toList_ofList, h]

theorem encodable_append {s s' : String} (h : encodable s = true) (h' : encodable s' = true) :
    encodable (s ++ s') = true := by
  rw [encodable, String.toList_append, List.all_append, Bool.and_eq_true]
  exact ⟨h, h'⟩

theorem encodable_intercalate {sep : String} (hsep : encodable sep = true) {ss : List String}
    (h : ∀ s ∈ ss, encodable s = true) : encodable (String.intercalate sep ss) = true := by
  rw [encodable, List.all_eq_true]
  intro c hc
  rw [String.toList_intercalate] at hc
  rcases mem_intercalate hc with hc | ⟨cs, hcs, hc⟩
  · exact List.all_eq_true.mp hsep c hc
  · obtain ⟨s, hs, rfl⟩ := List.mem_map.mp hcs
    exact List.all_eq_true.mp (h s hs) c hc

/-- Texts with the characters that they are spelled with. -/
inductive Spelled : List String → List (List Char) → Prop
  | nil : Spelled [] []
  | cons {s : String} {cs : List Char} {ss : List String} {css : List (List Char)} :
      s = String.ofList cs → Spelled ss css → Spelled (s :: ss) (cs :: css)

theorem Spelled.encodable {ss : List String} {css : List (List Char)} (hspelled : Spelled ss css)
    (h : (css.all fun cs => cs.all fun c => (half? c).isNone) = true) :
    ∀ s ∈ ss, Text.encodable s = true := by
  intro s hs
  induction hspelled with
  | nil => cases hs
  | cons hspell _ ih =>
    rw [List.all_cons, Bool.and_eq_true] at h
    rcases List.mem_cons.mp hs with rfl | hs
    · rw [hspell]
      exact encodable_ofList h.1
    · exact ih h.2 hs

end Text

namespace Template

open Text

set_option maxRecDepth 2000 in
/-- Every fixed file can be encoded. -/
theorem encodable_files : ∀ file ∈ files, encodable file.2 = true := by
  unfold files modelLines publicLines sailsLines
  simp only [List.forall_mem_cons, List.not_mem_nil, false_implies, implies_true, and_true]
  refine ⟨?_, ?_, ?_⟩
  all_goals
    apply encodable_intercalate (by decide)
    apply Spelled.encodable
    -- the characters come from the literals: taking a literal apart by evaluation is far slower
    · repeat (first | exact Spelled.nil | apply Spelled.cons rfl)
    · decide +kernel

end Template

end Rigging
