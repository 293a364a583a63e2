import Rigging.Proofs.FileTree.WellFormed
import Rigging.Proofs.Project.Input

/-!
# Paths that lead through two trees

A path may step up on its way, so where it leads depends on directories that it does not end in.  Each
of them is one that the path steps up from (`mem_stepUps_of_leaves`), and the others lie above its end.
So if two trees agree on the directories that a path steps up from, and on those above its end, then it
leads to the same place in both (`follow_transfer`).

A tree that is renewed at a directory is another one below it, and around it what was there stays and
no new file is named like an input (`Renewed`).  A path to an input that steps up from directories of
both trees leads to the same content in both (`Renewed.contentAt?_eq`).
-/

namespace Rigging

namespace Path

/-- The places that components step up from, seen from a stack of components. -/
def stepUps (stack : List String) : List String → List (List String)
  | [] => []
  | c :: cs =>
    if c = "" ∨ c = "." then stepUps stack cs
    else if c = ".." then stack.reverse :: stepUps stack.tail cs
    else stepUps (c :: stack) cs

section StepUps

variable {c : String} {cs stack place : List String}

theorem stepUps_skip (h : c = "" ∨ c = ".") : stepUps stack (c :: cs) = stepUps stack cs := by
  rw [stepUps, if_pos h]

theorem stepUps_up (stack cs : List String) :
    stepUps stack (".." :: cs) = stack.reverse :: stepUps stack.tail cs := by
  rw [stepUps, if_neg (by decide), if_pos rfl]

theorem stepUps_name (hempty : c ≠ "") (hpoint : c ≠ ".") (hup : c ≠ "..") :
    stepUps stack (c :: cs) = stepUps (c :: stack) cs := by
  rw [stepUps, if_neg (not_or.mpr ⟨hempty, hpoint⟩), if_neg hup]

theorem stepUps_eq_nil (h : ".." ∉ cs) : stepUps stack cs = [] := by
  induction cs generalizing stack with
  | nil => rfl
  | cons c cs ih =>
    obtain ⟨hc, hcs⟩ := not_or.mp (mt List.mem_cons.mpr h)
    rw [stepUps, if_neg (Ne.symm hc), ih hcs, ih hcs, ite_self]

/-- Components behind others step up from places of their own. -/
theorem exists_stepUps_append (front stack : List String) : ∃ stack', ∀ cs,
    stepUps stack (front ++ cs) = stepUps stack front ++ stepUps stack' cs := by
  induction front generalizing stack with
  | nil => exact ⟨stack, fun cs => rfl⟩
  | cons c front ih =>
    by_cases hskip : c = "" ∨ c = "."
    · simp only [List.cons_append, stepUps_skip hskip]
      exact ih stack
    by_cases hup : c = ".."
    · subst hup
      simp only [List.cons_append, stepUps_up, List.cons.injEq, true_and]
      exact ih stack.tail
    · obtain ⟨hempty, hpoint⟩ := not_or.mp hskip
      simp only [List.cons_append, stepUps_name hempty hpoint hup]
      exact ih (c :: stack)

/-- What is joined to a path without a step up of its own adds none. -/
theorem stepUps_join {p q q' : String} (hq : isAbsolute q = false) (hq' : isAbsolute q' = false)
    (hnone : ".." ∉ pieces q) :
    stepUps [] (pieces (join p q)) ⊆ stepUps [] (pieces (join p q')) := by
  obtain ⟨before, _, hjoin⟩ := exists_pieces_join p
  obtain ⟨stack, happend⟩ := exists_stepUps_append before []
  rw [hjoin q hq, hjoin q' hq', happend, happend, stepUps_eq_nil hnone, List.append_nil]
  exact List.subset_append_left _ _

/-- A way that does not end below where it starts steps up from there. -/
theorem mem_stepUps_of_leaves (above : List String) (hstack : ∀ x ∈ above ++ stack, x ≠ "..")
    (h : ¬stack.reverse <+: settle true (above ++ stack) cs) :
    stack.reverse ∈ stepUps (above ++ stack) cs := by
  -- `above` is what has been entered since and not left again
  induction cs generalizing above with
  | nil =>
    refine absurd ?_ h
    rw [settle, List.reverse_append]
    exact List.prefix_append _ _
  | cons c cs ih =>
    by_cases hskip : c = "" ∨ c = "."
    · rw [settle_skip hskip] at h
      rw [stepUps_skip hskip]
      exact ih above hstack h
    obtain ⟨hempty, hpoint⟩ := not_or.mp hskip
    by_cases hup : c = ".."
    · subst hup
      rw [stepUps_up]
      cases above with
      | nil => exact List.mem_cons_self
      | cons x above =>
        have hhead : (x :: above ++ stack).head? ≠ some ".." :=
          fun hmem => hstack _ (List.mem_of_mem_head? hmem) rfl
        rw [settle_up hhead] at h
        exact List.mem_cons_of_mem _ (ih above (fun y hy => hstack y (List.mem_cons_of_mem _ hy)) h)
    · rw [settle_name hempty hpoint hup] at h
      rw [stepUps_name hempty hpoint hup]
      exact ih (c :: above) (List.forall_mem_cons.mpr ⟨hup, hstack⟩) h

end StepUps

end Path

namespace FileTree

open Rigging.Path

/-- A way that is there has directories where it steps up. -/
theorem isDirectory_of_mem_stepUps {t : FileTree} {cs stack place p : List String}
    (hplace : place ∈ stepUps stack cs) (h : t.follow stack cs = .ok p) :
    t.isDirectory place = true := by
  induction cs generalizing stack with
  | nil => cases hplace
  | cons c cs ih =>
    rw [follow_cons_ok_iff] at h
    rcases h with ⟨hempty, h⟩ | ⟨hdirectory, ⟨hpoint, h⟩ | ⟨rfl, h⟩ | ⟨⟨hempty, hpoint, hup⟩, _, h⟩⟩
    · rw [stepUps_skip (.inl hempty)] at hplace
      exact ih hplace h
    · rw [stepUps_skip (.inr hpoint)] at hplace
      exact ih hplace h
    · rw [stepUps_up] at hplace
      rcases List.mem_cons.mp hplace with rfl | hplace
      · exact hdirectory
      · exact ih hplace h
    · rw [stepUps_name hempty hpoint hup] at hplace
      exact ih hplace h

section Transfer

variable {s u : FileTree} {p : List String} {W : List String → Prop}
  (hclosed : ∀ q r, q <+: r → W q → W r)

include hclosed

/-- **A way to a place outside of a set** is there in another tree too, if the tree has the directories
outside of the set and those that are stepped up from. -/
theorem follow_transfer {cs stack : List String} (hstack : ∀ c ∈ stack, c ≠ "..")
    (hsteps : ∀ place ∈ stepUps stack cs, s.isDirectory place = true → u.isDirectory place = true)
    (hdirectories : ∀ q, ¬W q → s.isDirectory q = true → u.isDirectory q = true) (hp : ¬W p)
    (h : s.follow stack cs = .ok p) : u.follow stack cs = .ok p := by
  -- at each piece it is asked whether the place that has been reached is a directory
  induction cs generalizing stack with
  | nil => exact h
  | cons c cs ih =>
    have hhere : s.isDirectory stack.reverse = true → u.isDirectory stack.reverse = true := by
      by_cases hW : W stack.reverse
      · -- the way has to leave the set, and so this place
        refine hsteps _ (mem_stepUps_of_leaves [] hstack fun hprefix => hp ?_)
        rw [follow_eq_settle hstack h]
        exact hclosed _ _ hprefix hW
      · exact hdirectories _ hW
    rw [follow_cons_ok_iff] at h ⊢
    rcases h with ⟨hempty, h⟩ | ⟨hdirectory, ⟨hpoint, h⟩ | ⟨rfl, h⟩ | ⟨hname, hshort, h⟩⟩
    · rw [stepUps_skip (.inl hempty)] at hsteps
      exact .inl ⟨hempty, ih hstack hsteps h⟩
    · rw [stepUps_skip (.inr hpoint)] at hsteps
      exact .inr ⟨hhere hdirectory, .inl ⟨hpoint, ih hstack hsteps h⟩⟩
    · rw [stepUps_up] at hsteps
      refine .inr ⟨hhere hdirectory, .inr (.inl ⟨rfl, ?_⟩)⟩
      exact ih (fun x hx => hstack x (List.mem_of_mem_tail hx))
        (fun q hq => hsteps q (List.mem_cons_of_mem _ hq)) h
    · refine .inr ⟨hhere hdirectory, .inr (.inr ⟨hname, hshort, ?_⟩)⟩
      obtain ⟨hempty, hpoint, hup⟩ := hname
      rw [stepUps_name hempty hpoint hup] at hsteps
      exact ih (List.forall_mem_cons.mpr ⟨hup, hstack⟩) hsteps h

theorem locate_transfer {path : String}
    (hsteps : ∀ place ∈ stepUps [] (pieces path), s.isDirectory place = true →
      u.isDirectory place = true)
    (hdirectories : ∀ q, ¬W q → s.isDirectory q = true → u.isDirectory q = true) (hp : ¬W p)
    (h : s.locate path = .ok p) : u.locate path = .ok p := by
  rw [locate_ok_iff] at h ⊢
  exact ⟨h.1, follow_transfer hclosed (List.forall_mem_nil _) hsteps hdirectories hp h.2⟩

end Transfer

theorem content?_eq_some_iff {t : FileTree} {p : List String} {content : ByteArray} :
    t.content? p = some content ↔ t.get? p = some (.file content) := by
  unfold content?
  split
  · rename_i c hc
    rw [hc, Option.some.injEq, Option.some.injEq, FileNode.file.injEq]
  · rename_i hne
    exact iff_of_false (fun h => nomatch h) (hne content)

theorem contentAt?_eq_some_iff {t : FileTree} {path : String} {content : ByteArray} :
    t.contentAt? path = some content ↔
      ∃ p, t.locate path = .ok p ∧ t.content? p = some content := by
  unfold contentAt?
  cases h : t.locate path with
  | ok p => simp
  | error fault => simp

end FileTree

namespace Project

open Rigging.Path FileTree

/-- Two trees agree on the directories that a path steps up from. -/
def SameSteps (t t' : FileTree) (path : String) : Prop :=
  ∀ place ∈ stepUps [] (pieces path), t'.isDirectory place = t.isDirectory place

/-- A tree as it is left when the directory `out` has been renewed. -/
structure Renewed (out : List String) (t t' : FileTree) : Prop where
  kept : ∀ q n, ¬out <+: q → t.get? q = some n → t'.get? q = some n
  files : ∀ q content, t'.get? q = some (.file content) → out <+: q ∨ t.get? q = none →
    ¬NamedLikeInput q

namespace Renewed

variable {out p : List String} {t t' : FileTree} (h : Renewed out t t') {path : String}
  (hsteps : SameSteps t t' path)

include h

/-- A file that is named like an input is one that was there, outside. -/
theorem get?_of_namedLikeInput {content : ByteArray} (hname : NamedLikeInput p)
    (hfile : t'.get? p = some (.file content)) : ¬out <+: p ∧ t.get? p = some (.file content) := by
  obtain ⟨hout, hsome⟩ := not_or.mp (mt (h.files p content hfile) (not_not_intro hname))
  obtain ⟨n, hn⟩ := Option.ne_none_iff_exists'.mp hsome
  refine ⟨hout, ?_⟩
  rw [hn, ← h.kept p n hout hn, hfile]

include hsteps

/-- A path to a place outside leads there also in the renewed tree. -/
theorem locate_ok (hp : ¬out <+: p) (hlocate : t.locate path = .ok p) : t'.locate path = .ok p := by
  refine locate_transfer (W := fun q => out <+: q) (fun q r hq hout => hout.trans hq)
    (fun q hq hdirectory => ?_) (fun q hq hdirectory => ?_) hp hlocate
  · rw [hsteps q hq]
    exact hdirectory
  · rw [isDirectory_iff] at hdirectory ⊢
    exact h.kept q _ hq hdirectory

/-- A path that leads in the renewed tree to something that has been there before has led there. -/
theorem locate_ok_of_renewed (ht : t.IsTree) (hp : ¬out <+: p) (hsome : t.get? p ≠ none)
    (hlocate : t'.locate path = .ok p) : t.locate path = .ok p := by
  -- what is new has to be kept away from too, since the way is there in the renewed tree
  refine locate_transfer (W := fun q => out <+: q ∨ t.get? q = none) (fun q r hq hW => ?_)
    (fun q hq hdirectory => ?_) (fun q hq hdirectory => ?_) (not_or.mpr ⟨hp, hsome⟩) hlocate
  · exact hW.imp (fun hout => hout.trans hq) fun hnone => ht.get?_below_none hnone hq
  · rw [← hsteps q hq]
    exact hdirectory
  · rw [not_or] at hq
    obtain ⟨n, hn⟩ := Option.ne_none_iff_exists'.mp hq.2
    rw [isDirectory_iff, h.kept q n hq.1 hn] at hdirectory
    rw [isDirectory_iff, hn, hdirectory]

/-- **What a path to an input leads to** is the same in both trees, unless it lay in the directory. -/
theorem contentAt?_eq (ht : t.IsTree) (hending : ∃ cs ∈ inputEndings, cs <:+ path.toList)
    (hinput : ∀ p, t.locate path = .ok p → (t.content? p).isSome = true → ¬out <+: p) :
    t'.contentAt? path = t.contentAt? path := by
  refine Option.ext fun content => ?_
  rw [contentAt?_eq_some_iff, contentAt?_eq_some_iff]
  constructor
  · rintro ⟨p, hlocate, hcontent⟩
    rw [content?_eq_some_iff] at hcontent
    have hname := namedLikeInput_of_locate hending hlocate
    obtain ⟨hout, hold⟩ := h.get?_of_namedLikeInput hname hcontent
    have hsome : t.get? p ≠ none := by
      rw [hold]
      exact Option.some_ne_none _
    refine ⟨p, h.locate_ok_of_renewed hsteps ht hout hsome hlocate, ?_⟩
    exact content?_eq_some_iff.mpr hold
  · rintro ⟨p, hlocate, hcontent⟩
    have hout := hinput p hlocate (by rw [hcontent]; rfl)
    refine ⟨p, h.locate_ok hsteps hout hlocate, ?_⟩
    rw [content?_eq_some_iff] at hcontent ⊢
    exact h.kept p _ hout hcontent

end Renewed

end Project

end Rigging
