import Rigging.Proofs.Declaration.Files

/-!
# Writing the output again

Each step of writing leaves a tree when it finds one (`isTree_writeOutput`), so a second writing finds
the output directory in order.  What the first one needed of paths and texts (`fits_of_writeOutput`)
and a directory at its place are all that the second one needs (`exists_writeOutput_ok`).
-/

namespace Rigging

namespace FileTree

/-- Where there was a tree there is one. -/
def StaysTree (t t' : FileTree) : Prop := t.IsTree → t'.IsTree

theorem staysTree_refl (t : FileTree) : StaysTree t t := id

theorem staysTree_trans (s t u : FileTree) (h : StaysTree s t) (h' : StaysTree t u) : StaysTree s u :=
  fun hs => h' (h hs)

theorem isTree_clear {path : String} (hne : Path.components path ≠ []) :
    Act.Ensures StaysTree (clear path) := by
  refine ensures_change fun t t' h ht => ?_
  split at h
  · rename_i p hp
    obtain rfl := components_of_locate hp
    split at h
    · obtain rfl := Except.ok.inj h
      exact isTree_remove ht hne
    · cases h
    · obtain rfl := Except.ok.inj h
      exact ht
  · cases h
  · obtain rfl := Except.ok.inj h
    exact ht

theorem isTree_make (path : String) : Act.Ensures StaysTree (make path) := by
  refine ensures_change fun t t' h ht => ?_
  split at h
  · cases h
  · unfold makeDirectory at h
    split at h
    · cases h
    · exact isTree_makeDirectories ht rfl h

theorem isTree_writeText (path text : String) : Act.Ensures StaysTree (writeText path text) := by
  intro t x hx ht
  unfold writeText at hx ⊢
  rw [Act.state_bind] at hx ⊢
  cases hopen : t.openFile path with
  | error fault =>
    rw [hopen] at hx
    cases hx
  | ok opened =>
    obtain ⟨p, opened⟩ := opened
    rw [hopen] at hx
    obtain ⟨hp, hne, hdirectory, rfl⟩ := openFile_ok hopen
    have hparent : t.isDirectory p.dropLast = true :=
      reached_of_locate hp _ (List.dropLast_prefix _) (dropLast_ne hne)
    have hopened := isTree_put ht hne hparent (n := .file ByteArray.empty) (.inr hdirectory)
    dsimp only at hx ⊢
    rw [Act.modify_bind] at hx ⊢
    split at hx
    · rename_i hencodable
      rw [if_pos hencodable]
      refine isTree_put hopened hne ?_ (.inr ?_)
      · rw [isDirectory_put hne, if_neg (dropLast_ne hne)]
        exact hparent
      · rw [isDirectory_put hne, if_pos rfl]
        exact Bool.false_ne_true
    · cases hx

theorem change_of_ok {f : FileTree → Except SystemFault FileTree} {t t' : FileTree}
    (h : f t = .ok t') : change f t = ⟨.ok (), t', []⟩ := by
  unfold change
  rw [Act.state_bind, h]
  rfl

/-- A directory that is there is cleared. -/
theorem clear_of_directory {path : String} (hpath : Path.IsPlain path) (hfits : Fits path)
    {t : FileTree} (ht : t.IsTree) (hdirectory : t.get? (Path.components path) = some .directory) :
    clear path t = ⟨.ok (), t.remove (Path.components path), []⟩ := by
  have hreached := ht.reached (Path.components path) (by rw [hdirectory]; rfl)
  refine change_of_ok ?_
  rw [(locate_eq_ok_iff hpath).mpr ⟨hfits, rfl, hreached⟩]
  dsimp only
  rw [hdirectory]

/-- A directory is made where there is nothing yet and no file is in the way. -/
theorem make_ok {path : String} (hnull : ¬path.toList.contains (Char.ofNat 0) = true)
    {t : FileTree} (hnew : t.get? (Path.components path) = none)
    (hway : ∀ q content, q <+: Path.components path → t.get? q ≠ some (.file content)) :
    (make path t).result = .ok () := by
  obtain ⟨made, hmade⟩ : ∃ made, t.makeDirectories [] (Path.components path) = .ok made :=
    exists_makeDirectories_ok hway
  have hdirectory : ¬t.isDirectory (Path.components path) = true := by
    rw [isDirectory_iff, hnew]
    rintro ⟨⟩
  have hchange : make path t = ⟨.ok (), made, []⟩ := by
    refine change_of_ok ?_
    rw [if_neg hnull, makeDirectory, if_neg hdirectory, hmade]
  rw [hchange]

end FileTree

namespace Declaration

open FileTree Rigging.Path

section Output

variable {directory : String} (hplain : IsPlain directory) {r : Registry} {pool : Pool}

include hplain

/-- **Writing the output leaves a tree.** -/
theorem isTree_writeOutput (hne : components directory ≠ [])
    (hpool : ∀ e ∈ pool, '/' ∉ e.name.toList) :
    Act.Ensures StaysTree (writeOutput directory r pool) := by
  rw [writeOutput_eq]
  refine Act.ensures_bind staysTree_trans (isTree_clear hne) fun _ => ?_
  refine Act.ensures_bind staysTree_trans
    (Act.ensures_forEach staysTree_refl staysTree_trans fun c _ => isTree_make _) fun _ => ?_
  exact ensures_writeFiles hplain staysTree_refl staysTree_trans
    (fun path text _ => isTree_writeText path text) hpool

/-- The directories of the output are made where there are none and no file is in the way. -/
theorem makeAll_ok (hnull : ¬directory.toList.contains (Char.ofNat 0) = true) {subs : List String}
    (hsubs : ∀ c ∈ subs, IsName c ∧ ¬c.toList.contains (Char.ofNat 0) = true) (hnodup : subs.Nodup)
    {t : FileTree} (hnew : ∀ c ∈ subs, t.get? (components directory ++ [c]) = none)
    (hway : ∀ q content, q <+: components directory → t.get? q ≠ some (.file content)) :
    (Act.forEach (fun sub => FileTree.make (child directory sub)) subs t).result = .ok () := by
  induction subs generalizing t with
  | nil => rfl
  | cons sub subs ih =>
    obtain ⟨hsub, hnodup⟩ := List.nodup_cons.mp hnodup
    obtain ⟨hname, hproper⟩ := hsubs sub List.mem_cons_self
    have hcomponents := (isPlain_child hplain hname).2
    have hmake : (FileTree.make (child directory sub) t).result = .ok () := by
      refine make_ok (fun hmem => ?_) ?_ fun q content hq => ?_
      · rw [child_eq_join directory hname] at hmem
        rcases mem_join (List.contains_iff_mem.mp hmem) with hslash | hmem | hmem
        · exact absurd hslash (by decide)
        · exact hnull (List.contains_iff_mem.mpr hmem)
        · exact hproper (List.contains_iff_mem.mpr hmem)
      · rw [hcomponents]
        exact hnew sub List.mem_cons_self
      · rw [hcomponents] at hq
        rcases List.prefix_concat_iff.mp hq with rfl | hq
        · rw [hnew sub List.mem_cons_self]
          rintro ⟨⟩
        · exact hway q content hq
    have hmade := get?_make (child directory sub) t () hmake
    rw [hcomponents] at hmade
    rw [Act.forEach_cons, Act.bind_of_ok hmake]
    refine ih (fun c hc => hsubs c (List.mem_cons_of_mem _ hc)) hnodup (fun c hc => ?_)
      fun q content hq => ?_
    · have hother : ¬components directory ++ [c] <+: components directory ++ [sub] := by
        intro hprefix
        rw [List.prefix_append_right_inj] at hprefix
        exact hsub ((List.cons_prefix_cons.mp hprefix).1 ▸ hc)
      rw [hmade, hnew c (List.mem_cons_of_mem _ hc), if_neg hother]
      rfl
    · rw [hmade]
      cases hget : t.get? q with
      | none =>
        split
        · rintro ⟨⟩
        · rintro ⟨⟩
      | some node => exact fun h => hway q content hq (hget.trans h)

/-- What the files of the output need: their paths fit, and their texts can be encoded. -/
theorem fits_of_writeOutput (hne : components directory ≠ [])
    (hnull : ¬directory.toList.contains (Char.ofNat 0) = true)
    (henc : Text.encodable directory = true) (hlinked : AllLinked r pool) (hnames : FitNames r pool)
    {t : FileTree} (ht : t.IsTree) {paths : List String}
    (h : (writeOutput directory r pool t).result = .ok paths) :
    ∀ file ∈ outputFiles r pool,
      Fits (pathBelow directory file.1) ∧ Text.encodable file.2 = true := by
  obtain ⟨made, _, hwrite, _⟩ := writeOutput_ok hplain hne hnull henc hlinked ht h
  exact (writeFiles_ok hplain (isName_of_mem_outputFiles hnames.noSlash) (nodup_outputFiles hnames)
    hwrite).2.1

omit hplain in
/-- A directory that the files of the output fit into fits. -/
theorem fits_directory (hfits : ∀ file ∈ outputFiles r pool, Fits (pathBelow directory file.1)) :
    Fits directory := by
  have hglobals : (["globals.d.ts"], r.globals) ∈ outputFiles r pool :=
    List.mem_append_left _ (List.mem_append_right _ List.mem_cons_self)
  have hfile := hfits _ hglobals
  rw [show pathBelow directory ["globals.d.ts"] = child directory "globals.d.ts" from rfl,
    child_eq_join directory (by decide)] at hfile
  exact Fits.of_join (by decide) hfile

omit hplain in
/-- A file of the output stands in the output directory itself, or in one of the directories of the
output. -/
theorem shape_of_mem_outputFiles {file : OutputFile} (h : file ∈ outputFiles r pool) :
    (∃ name, file.1 = [name] ∧ name ∉ outputDirectories) ∨
      ∃ sub ∈ outputDirectories, ∃ name, file.1 = [sub, name] := by
  rcases place_of_mem_outputFiles h with hplace | ⟨fixed, _, hplace⟩ | ⟨area, harea, e, _, hplace⟩
  · exact .inl ⟨_, hplace, by decide⟩
  · exact .inr ⟨"sails", by decide, _, hplace⟩
  · exact .inr ⟨area, List.mem_cons_of_mem _ harea, _, hplace⟩

omit hplain in
/-- Once the directories have been made, the output directory is there, with all that is above it. -/
theorem isDirectory_afresh_above {t made : FileTree} (hmade : made.get? = afresh directory t)
    (hreached : t.Reached (components directory)) {q : List String}
    (hq : q <+: components directory) : made.isDirectory q = true := by
  rw [isDirectory_iff, hmade]
  by_cases heq : q = components directory
  · rw [heq, ← List.append_nil (components directory), afresh_below, if_pos (.inl rfl)]
  · have hother : ¬components directory <+: q := fun h => heq (hq.eq_of_length_le h.length_le)
    rw [afresh, if_neg hother, isDirectory_iff.mp (hreached q hq heq)]
    rfl

omit hplain in
/-- Below it, the directories are those of the output. -/
theorem isDirectory_afresh_below {t made : FileTree} (hmade : made.get? = afresh directory t)
    (q : List String) : made.isDirectory (components directory ++ q) = true ↔
      q = [] ∨ ∃ sub ∈ outputDirectories, q = [sub] := by
  rw [isDirectory_iff, hmade, afresh_below]
  split
  · rename_i hq
    exact iff_of_true rfl hq
  · rename_i hq
    exact iff_of_false (by rintro ⟨⟩) hq

omit hplain in
/-- When the directories have been made, the way to every file of the output is open. -/
theorem open_afresh {t made : FileTree} (hmade : made.get? = afresh directory t)
    (hreached : t.Reached (components directory)) {file : OutputFile}
    (hfile : file ∈ outputFiles r pool) :
    made.Reached (components directory ++ file.1) ∧
      ¬made.isDirectory (components directory ++ file.1) = true := by
  refine ⟨fun q hq hne => ?_, ?_⟩
  · rcases List.prefix_or_prefix_of_prefix hq (List.prefix_append _ _) with hq' | ⟨rest, rfl⟩
    · exact isDirectory_afresh_above hmade hreached hq'
    · rw [List.prefix_append_right_inj] at hq
      rw [isDirectory_afresh_below hmade]
      have hrest : rest ≠ file.1 := fun heq => hne (by rw [heq])
      rcases shape_of_mem_outputFiles hfile with ⟨name, hplace, _⟩ | ⟨sub, hsub, name, hplace⟩
      · rw [hplace, ← List.nil_append [name], List.prefix_concat_iff] at hq
        rcases hq with rfl | hq
        · exact absurd hplace.symm hrest
        · exact .inl (List.prefix_nil.mp hq)
      · rw [hplace, ← List.singleton_append, List.prefix_concat_iff] at hq
        rcases hq with rfl | hq
        · exact absurd hplace.symm hrest
        · rcases List.prefix_concat_iff.mp (show rest <+: [] ++ [sub] from hq) with rfl | hq
          · exact .inr ⟨sub, hsub, rfl⟩
          · exact .inl (List.prefix_nil.mp hq)
  · rw [isDirectory_afresh_below hmade]
    rcases shape_of_mem_outputFiles hfile with ⟨name, hplace, hname⟩ | ⟨sub, _, name, hplace⟩
    · rw [hplace]
      rintro (h | ⟨sub, hsub, h⟩)
      · cases h
      · exact hname ((List.cons.inj h).1 ▸ hsub)
    · rw [hplace]
      rintro (h | ⟨_, _, h⟩) <;> cases h

/-- **The output can be written again** where its directory is in a tree, if its files fit. -/
theorem exists_writeOutput_ok (hne : components directory ≠ []) (hlinked : AllLinked r pool)
    (hnames : FitNames r pool)
    (hfits : ∀ file ∈ outputFiles r pool,
      Fits (pathBelow directory file.1) ∧ Text.encodable file.2 = true)
    {t : FileTree} (ht : t.IsTree) (hdirectory : t.get? (components directory) = some .directory) :
    ∃ paths, (writeOutput directory r pool t).result = .ok paths := by
  have hfit := fits_directory fun file hfile => (hfits file hfile).1
  have hreached := ht.reached (components directory) (by rw [hdirectory]; rfl)
  have hclear := clear_of_directory hplain hfit ht hdirectory
  have hmake : (Act.forEach (fun sub => FileTree.make (child directory sub)) outputDirectories
      (t.remove (components directory))).result = .ok () := by
    refine makeAll_ok hplain hfit.noNull (by decide) (by decide) (fun c _ => ?_) fun q content hq => ?_
    · rw [get?_remove t hne, if_pos (List.prefix_append _ _)]
    · rw [get?_remove t hne]
      split
      · rintro ⟨⟩
      · rename_i hother
        have hq' : q ≠ components directory := fun heq => hother (heq ▸ List.prefix_rfl)
        rw [isDirectory_iff.mp (hreached q hq hq')]
        rintro ⟨⟩
  have hmade : ((Act.forEach (fun sub => FileTree.make (child directory sub)) outputDirectories)
      (t.remove (components directory))).state.get? = afresh directory t := by
    funext q
    rw [get?_makeAll hplain (by decide) _ _ hmake q, get?_remove t hne, afresh]
  obtain ⟨paths, hpaths⟩ := exists_writeFiles_ok hplain (isName_of_mem_outputFiles hnames.noSlash)
    hfits fun file hfile => open_afresh hmade hreached hfile
  refine ⟨paths, ?_⟩
  rw [writeOutput_eq, writeFilesBy_eq directory hlinked,
    Act.bind_of_ok (congrArg Outcome.result hclear), hclear]
  dsimp only
  rw [Act.bind_of_ok hmake]
  dsimp only
  rw [Act.bind_of_ok hpaths]
  rfl

end Output

end Declaration

end Rigging
