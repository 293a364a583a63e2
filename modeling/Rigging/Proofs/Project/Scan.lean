import Rigging.Proofs.Distinct
import Rigging.Proofs.Project.Lookup

/-!
# Modules found again

A scan goes down a tree by the names in each directory, in order.  What it finds depends on the names
alone and not on how they are listed (`InOrder.ext`), nor on its fuel once that is more than
the tree is large (`modulesBelow_fuel`).  In a renewed tree a scan finds what it found before, if none
of that lay in the renewed directory (`scan_of_renewed`): what has come is not named like a module,
and directories without modules do not matter.
-/

namespace Rigging

namespace FileTree

/-- Every component of a path where something stands is a name. -/
def IsNamed (t : FileTree) : Prop :=
  ∀ q, (t.get? q).isSome = true → ∀ c ∈ q, Path.IsName c

theorem isNamed_iff {t : FileTree} :
    t.IsNamed ↔ ∀ key ∈ t.entries.map Prod.fst, ∀ c ∈ key, Path.IsName c := by
  constructor
  · intro h key hkey c hc
    have hne : key ≠ [] := List.ne_nil_of_mem hc
    exact h key ((isSome_get?_iff hne).mpr hkey) c hc
  · intro h q hq c hc
    exact h q ((isSome_get?_iff (List.ne_nil_of_mem hc)).mp hq) c hc

instance (t : FileTree) : Decidable t.IsNamed :=
  decidable_of_iff' _ isNamed_iff

end FileTree

namespace Project

open Rigging.Path FileTree

/-! ### Names in order -/

/-- Names in order, each once. -/
structure InOrder (names : List String) : Prop where
  pairwise : names.Pairwise (· ≤ ·)
  nodup : names.Nodup

theorem inOrder_sorted {names : List String} (h : names.Nodup) : InOrder (sorted names) := by
  have hsorted : (sorted names).Pairwise fun a b => decide (a ≤ b) = true := by
    refine List.pairwise_mergeSort (fun a b c hab hbc => ?_) (fun a b => ?_) names
    · exact decide_eq_true (String.le_trans (of_decide_eq_true hab) (of_decide_eq_true hbc))
    · simpa using String.le_total a b
  exact ⟨hsorted.imp fun hle => of_decide_eq_true hle, (List.mergeSort_perm names _).nodup_iff.mpr h⟩

theorem InOrder.filter {names : List String} (h : InOrder names) (keep : String → Bool) :
    InOrder (names.filter keep) :=
  ⟨h.pairwise.filter keep, h.nodup.filter keep⟩

/-- Names in order are known by which names they are. -/
theorem InOrder.ext {names names' : List String} (h : InOrder names) (h' : InOrder names')
    (hmem : ∀ n, n ∈ names ↔ n ∈ names') : names = names' :=
  List.Perm.eq_of_pairwise (fun _ _ _ _ => String.le_antisymm) h.pairwise h'.pairwise
    ((List.perm_ext_iff_of_nodup h.nodup h'.nodup).mpr hmem)

theorem mem_sorted {names : List String} {n : String} : n ∈ sorted names ↔ n ∈ names :=
  (List.mergeSort_perm names _).mem_iff

/-! ### One directory -/

/-- The modules in a directory. -/
def moduleNames (t : FileTree) (place : List String) : List String :=
  (sorted (t.names place)).filter fun n =>
    !t.isDirectory (place ++ [n]) && sourceExtension.toList.isSuffixOf n.toList

/-- The directories in a directory that are looked into. -/
def directoryNames (t : FileTree) (place : List String) : List String :=
  (sorted (t.names place)).filter fun n =>
    t.isDirectory (place ++ [n]) && !ignoredDirectories.contains n

theorem modulesBelow_succ (t : FileTree) (fuel : Nat) (text : String) (place : List String) :
    modulesBelow t (fuel + 1) text place =
      if longestPath < text.utf8ByteSize then []
      else (moduleNames t place).map (join text) ++ (directoryNames t place).flatMap fun n =>
        modulesBelow t fuel (join text n) (place ++ [n]) :=
  rfl

section Directory

variable {t : FileTree} {place : List String} {n : String}

/-- A module in a directory is a file. -/
theorem mem_moduleNames : n ∈ moduleNames t place ↔
    (∃ content, t.get? (place ++ [n]) = some (.file content)) ∧
      sourceExtension.toList <:+ n.toList := by
  rw [moduleNames, List.mem_filter, mem_sorted, mem_names_iff, Bool.and_eq_true, Bool.not_eq_true',
    ← Bool.not_eq_true, isDirectory_iff, List.isSuffixOf_iff_suffix, ← and_assoc]
  refine and_congr_left fun _ => ?_
  cases t.get? (place ++ [n]) with
  | none => simp
  | some node => cases node <;> simp

theorem mem_directoryNames : n ∈ directoryNames t place ↔
    t.get? (place ++ [n]) = some .directory ∧ n ∉ ignoredDirectories := by
  rw [directoryNames, List.mem_filter, mem_sorted, mem_names_iff, Bool.and_eq_true, isDirectory_iff,
    ← and_assoc]
  simp +contextual

theorem inOrder_moduleNames (ht : t.IsTree) (place : List String) : InOrder (moduleNames t place) :=
  (inOrder_sorted (nodup_names ht.once place)).filter _

theorem inOrder_directoryNames (ht : t.IsTree) (place : List String) :
    InOrder (directoryNames t place) :=
  (inOrder_sorted (nodup_names ht.once place)).filter _

theorem namedLikeInput_of_mem_moduleNames (h : n ∈ moduleNames t place) :
    NamedLikeInput (place ++ [n]) :=
  ⟨n, List.getLast?_concat, _, List.mem_cons_self, (mem_moduleNames.mp h).2⟩

end Directory

section Below

variable {t : FileTree}

/-- Where no file is named like an input, no module is found. -/
theorem modulesBelow_eq_nil {fuel : Nat} {text : String} {place : List String}
    (h : ∀ q content, place <+: q → t.get? q = some (.file content) → ¬NamedLikeInput q) :
    modulesBelow t fuel text place = [] := by
  induction fuel generalizing text place with
  | zero => rfl
  | succ fuel ih =>
    rw [modulesBelow_succ]
    split
    · rfl
    · have hfiles : moduleNames t place = [] := by
        refine List.eq_nil_iff_forall_not_mem.mpr fun n hn => ?_
        obtain ⟨content, hcontent⟩ := (mem_moduleNames.mp hn).1
        exact h _ content (List.prefix_append _ _) hcontent (namedLikeInput_of_mem_moduleNames hn)
      rw [hfiles, List.map_nil, List.nil_append, List.flatMap_eq_nil_iff]
      exact fun n _ => ih fun q content hq => h q content ((List.prefix_append _ _).trans hq)

/-- **More fuel than the tree is large** finds nothing more. -/
theorem modulesBelow_fuel (ht : t.IsTree) {fuel more : Nat} (hle : fuel ≤ more) {place : List String}
    (h : t.entries.length < fuel + place.length) (text : String) :
    modulesBelow t more text place = modulesBelow t fuel text place := by
  induction fuel generalizing more text place with
  | zero =>
    -- so deep in the tree there is nothing any more
    refine modulesBelow_eq_nil fun q content hq hcontent => ?_
    have hlength := length_le_entries ht (q := q) (by rw [hcontent]; rfl)
    have hle := hq.length_le
    omega
  | succ fuel ih =>
    obtain ⟨more, rfl⟩ := Nat.exists_eq_add_one_of_ne_zero (show more ≠ 0 by omega)
    rw [modulesBelow_succ, modulesBelow_succ]
    refine if_congr Iff.rfl rfl (congrArg _ (List.flatMap_congr fun n _ => ih (by omega) ?_ _))
    rw [List.length_append, List.length_singleton]
    omega

/-- The path of a module goes on from the path of the directory. -/
theorem prefix_of_mem_modulesBelow (hnamed : t.IsNamed) {fuel : Nat} {text m : String}
    {place : List String} (h : m ∈ modulesBelow t fuel text place) :
    components text <+: components m := by
  have hjoin : ∀ (place : List String) (text n : String), (t.get? (place ++ [n])).isSome = true →
      components text <+: components (join text n) := by
    intro place text n hn
    rw [components_join text (hnamed _ hn n (List.mem_append_right _ List.mem_cons_self))]
    exact List.prefix_append _ _
  induction fuel generalizing text place with
  | zero => cases h
  | succ fuel ih =>
    rw [modulesBelow_succ] at h
    split at h
    · cases h
    · rcases List.mem_append.mp h with h | h
      · obtain ⟨n, hn, rfl⟩ := List.mem_map.mp h
        obtain ⟨content, hcontent⟩ := (mem_moduleNames.mp hn).1
        exact hjoin place text n (by rw [hcontent]; rfl)
      · obtain ⟨n, hn, h⟩ := List.mem_flatMap.mp h
        exact (hjoin place text n (by rw [(mem_directoryNames.mp hn).1]; rfl)).trans (ih h)

end Below

/-- The modules that a scan of a directory finds. -/
def modulesAt (t : FileTree) (directory : String) : List String :=
  match t.locate directory with
  | .error _ => []
  | .ok place =>
    if t.isDirectory place then modulesBelow t (t.entries.length + 1) directory place else []

theorem scanKind_eq (t : FileTree) (root owner : String) (kind : EntityKind) :
    scanKind t root owner kind = (modulesAt t (join root (sourceDirectory kind))).map fun path =>
      ⟨path, Path.relative path root, entityName path, kind, owner⟩ := by
  unfold scanKind modulesAt
  dsimp only
  cases t.locate (join root (sourceDirectory kind)) with
  | error fault => rfl
  | ok place =>
    dsimp only
    split <;> rfl

/-! ### A renewed tree -/

/-- Just below a place that is outside, only the directory itself is not. -/
theorem not_prefix_concat {out place : List String} {n : String} (h : ¬out <+: place)
    (hne : place ++ [n] ≠ out) : ¬out <+: place ++ [n] := by
  intro hout
  rcases List.prefix_concat_iff.mp hout with heq | hout
  · exact hne heq.symm
  · exact h hout

section Renewed

variable {out place : List String} {t t' : FileTree} (h : Renewed out t t') (ht : t.IsTree)

include h ht

/-- In a place that has been cleared or made there are no modules. -/
theorem modulesBelow_of_new {fuel : Nat} {text : String}
    (hplace : out <+: place ∨ t.get? place = none) : modulesBelow t' fuel text place = [] := by
  refine modulesBelow_eq_nil fun q content hq hcontent => h.files q content hcontent ?_
  exact hplace.imp (fun hout => hout.trans hq) fun hnone => ht.get?_below_none hnone hq

variable (ht' : t'.IsTree)

include ht'

/-- The modules in a directory outside are those that were there. -/
theorem moduleNames_of_renewed (hplace : ¬out <+: place)
    (hmodules : ∀ n ∈ moduleNames t place, place ++ [n] ≠ out) :
    moduleNames t' place = moduleNames t place := by
  refine (inOrder_moduleNames ht' place).ext (inOrder_moduleNames ht place)
    fun n => ⟨fun hn => ?_, fun hn => ?_⟩
  · obtain ⟨⟨content, hcontent⟩, hending⟩ := mem_moduleNames.mp hn
    have hold := h.get?_of_namedLikeInput (namedLikeInput_of_mem_moduleNames hn) hcontent
    exact mem_moduleNames.mpr ⟨⟨content, hold.2⟩, hending⟩
  · obtain ⟨⟨content, hcontent⟩, hending⟩ := mem_moduleNames.mp hn
    have houtside := not_prefix_concat hplace (hmodules n hn)
    exact mem_moduleNames.mpr ⟨⟨content, h.kept _ _ houtside hcontent⟩, hending⟩

/-- What is gathered over the directories in a directory outside is what was, if nothing comes from
those that have been renewed or are new. -/
theorem flatMap_directoryNames_of_renewed {f f' : String → List String} (hplace : ¬out <+: place)
    (hrenewed : ∀ n ∈ directoryNames t place, place ++ [n] = out → f n = [])
    (hnew : ∀ n, out <+: place ++ [n] ∨ t.get? (place ++ [n]) = none → f' n = [])
    (hsame : ∀ n ∈ directoryNames t place, ¬out <+: place ++ [n] → f' n = f n) :
    (directoryNames t' place).flatMap f' = (directoryNames t place).flatMap f := by
  -- the directories that count were there and are outside
  let keep : String → Bool := fun n => t.isDirectory (place ++ [n]) && place ++ [n] != out
  have hkeep : ∀ n, keep n = true ↔
      t.get? (place ++ [n]) = some .directory ∧ place ++ [n] ≠ out := by
    intro n
    rw [Bool.and_eq_true, isDirectory_iff, bne_iff_ne]
  have hcommon : (directoryNames t' place).filter keep = (directoryNames t place).filter keep := by
    refine ((inOrder_directoryNames ht' place).filter keep).ext
      ((inOrder_directoryNames ht place).filter keep) fun n => ?_
    rw [List.mem_filter, List.mem_filter, mem_directoryNames, mem_directoryNames]
    refine and_congr_left fun hn => and_congr_left fun _ => ?_
    obtain ⟨hdirectory, hne⟩ := (hkeep n).mp hn
    exact iff_of_true (h.kept _ _ (not_prefix_concat hplace hne) hdirectory) hdirectory
  have hold : ∀ n ∈ directoryNames t place, keep n = false → f n = [] := by
    intro n hn hother
    refine hrenewed n hn (Classical.byContradiction fun hne => ?_)
    rw [(hkeep n).mpr ⟨(mem_directoryNames.mp hn).1, hne⟩] at hother
    cases hother
  have hnow : ∀ n ∈ directoryNames t' place, keep n = false → f' n = [] := by
    intro n hn hother
    refine hnew n (Classical.or_iff_not_imp_left.mpr fun hout => ?_)
    refine Option.eq_none_iff_forall_ne_some.mpr fun node hnode => ?_
    have hkept := h.kept _ node hout hnode
    rw [(mem_directoryNames.mp hn).1] at hkept
    rw [(hkeep n).mpr ⟨hnode.trans hkept.symm, fun heq => hout (heq ▸ List.prefix_rfl)⟩] at hother
    cases hother
  rw [← flatMap_filter hold, ← flatMap_filter hnow, hcommon]
  refine List.flatMap_congr fun n hn => ?_
  obtain ⟨hmem, hn⟩ := List.mem_filter.mp hn
  exact hsame n hmem (not_prefix_concat hplace ((hkeep n).mp hn).2)

/-- **The modules below a directory outside** are those that were there, if none of them lay in the
renewed directory. -/
theorem modulesBelow_of_renewed (hnamed : t.IsNamed) {fuel : Nat} {text : String}
    (htext : components text = place) (hplace : ¬out <+: place)
    (hmodules : ∀ m ∈ modulesBelow t fuel text place, ¬out <+: components m) :
    modulesBelow t' fuel text place = modulesBelow t fuel text place := by
  induction fuel generalizing text place with
  | zero => rfl
  | succ fuel ih =>
    rw [modulesBelow_succ] at hmodules ⊢
    rw [modulesBelow_succ]
    split
    · rfl
    rename_i hlong
    rw [if_neg hlong] at hmodules
    have hjoin : ∀ n node, t.get? (place ++ [n]) = some node →
        components (join text n) = place ++ [n] := by
      intro n node hn
      have hname := hnamed _ (by rw [hn]; rfl) n (List.mem_append_right _ List.mem_cons_self)
      rw [components_join text hname, htext]
    have hfiles : moduleNames t' place = moduleNames t place := by
      refine moduleNames_of_renewed h ht ht' hplace fun n hn hout => ?_
      obtain ⟨content, hcontent⟩ := (mem_moduleNames.mp hn).1
      refine hmodules (join text n) (List.mem_append_left _ (List.mem_map_of_mem hn)) ?_
      exact ((hjoin n _ hcontent).trans hout).symm ▸ List.prefix_rfl
    have hbelow : ∀ n ∈ directoryNames t place,
        ∀ m ∈ modulesBelow t fuel (join text n) (place ++ [n]), ¬out <+: components m :=
      fun n hn m hm => hmodules m (List.mem_append_right _ (List.mem_flatMap.mpr ⟨n, hn, hm⟩))
    rw [hfiles]
    refine congrArg _ (flatMap_directoryNames_of_renewed h ht ht' hplace (fun n hn hout => ?_)
      (fun n hn => modulesBelow_of_new h ht hn) fun n hn houtside => ?_)
    · refine List.eq_nil_iff_forall_not_mem.mpr fun m hm => hbelow n hn m hm ?_
      rw [← hout, ← hjoin n _ (mem_directoryNames.mp hn).1]
      exact prefix_of_mem_modulesBelow hnamed hm
    · exact ih (hjoin n _ (mem_directoryNames.mp hn).1) houtside (hbelow n hn)

/-- A scan of a directory outside, which is there before and behind, finds the modules again. -/
theorem modulesAt_of_kept (hnamed : t.IsNamed) {directory : String}
    (hsteps : SameSteps t t' directory) (hlocate : t.locate directory = .ok place)
    (hdirectory : t.get? place = some .directory) (hplace : ¬out <+: place)
    (hmodules : ∀ m ∈ modulesAt t directory, ¬out <+: components m) :
    modulesAt t' directory = modulesAt t directory := by
  have hlocate' := h.locate_ok hsteps hplace hlocate
  have hdirectory' := h.kept place _ hplace hdirectory
  have hat : modulesAt t directory = modulesBelow t (t.entries.length + 1) directory place := by
    rw [modulesAt, hlocate]
    exact if_pos (isDirectory_iff.mpr hdirectory)
  have hat' : modulesAt t' directory = modulesBelow t' (t'.entries.length + 1) directory place := by
    rw [modulesAt, hlocate']
    exact if_pos (isDirectory_iff.mpr hdirectory')
  rw [hat] at hmodules
  rw [hat, hat']
  -- with enough fuel for both
  let more := t.entries.length + t'.entries.length + 1
  have hfuel : modulesBelow t more directory place =
      modulesBelow t (t.entries.length + 1) directory place :=
    modulesBelow_fuel ht (by omega) (by omega) directory
  have hfuel' : modulesBelow t' more directory place =
      modulesBelow t' (t'.entries.length + 1) directory place :=
    modulesBelow_fuel ht' (by omega) (by omega) directory
  rw [← hfuel] at hmodules
  rw [← hfuel, ← hfuel']
  exact modulesBelow_of_renewed h ht ht' hnamed (components_of_locate hlocate).symm hplace hmodules

/-- **A scan finds the modules again.** -/
theorem modulesAt_of_renewed (hnamed : t.IsNamed) {directory : String}
    (hsteps : SameSteps t t' directory)
    (hmodules : ∀ m ∈ modulesAt t directory, ¬out <+: components m) :
    modulesAt t' directory = modulesAt t directory := by
  -- the directory is there in both trees, outside of what has been renewed, or neither has modules
  by_cases hcommon : ∃ place, t.locate directory = .ok place ∧ t.get? place = some .directory ∧
      ¬out <+: place
  · obtain ⟨place, hlocate, hdirectory, hplace⟩ := hcommon
    exact modulesAt_of_kept h ht ht' hnamed hsteps hlocate hdirectory hplace hmodules
  · have hbefore : modulesAt t directory = [] := by
      refine List.eq_nil_iff_forall_not_mem.mpr fun m hm => hmodules m hm ?_
      unfold modulesAt at hm
      split at hm
      · cases hm
      rename_i place hlocate
      split at hm
      · rename_i hdirectory
        have hplace : out <+: place := Classical.byContradiction fun hplace =>
          hcommon ⟨place, hlocate, isDirectory_iff.mp hdirectory, hplace⟩
        rw [components_of_locate hlocate] at hplace
        exact hplace.trans (prefix_of_mem_modulesBelow hnamed hm)
      · cases hm
    rw [hbefore, modulesAt]
    split
    · rfl
    rename_i place hlocate
    split
    · rename_i hdirectory
      refine modulesBelow_of_new h ht (Classical.byContradiction fun hold => hcommon ?_)
      rw [not_or] at hold
      obtain ⟨node, hnode⟩ := Option.ne_none_iff_exists'.mp hold.2
      have hkept := h.kept place node hold.1 hnode
      rw [isDirectory_iff.mp hdirectory] at hkept
      exact ⟨place, h.locate_ok_of_renewed hsteps ht hold.1 hold.2 hlocate, hnode.trans hkept.symm,
        hold.1⟩
    · rfl

/-- The same for both kinds of modules; a scan steps up only where the look-up of the package does. -/
theorem scan_of_renewed (hnamed : t.IsNamed) {root owner : String}
    (hsteps : SameSteps t t' (join root packageFile))
    (hmodules : ∀ source ∈ scan t root owner, ¬out <+: components source.path) :
    scan t' root owner = scan t root owner := by
  have hkind : ∀ kind, (∀ source ∈ scanKind t root owner kind, ¬out <+: components source.path) →
      scanKind t' root owner kind = scanKind t root owner kind := by
    intro kind hfound
    have hdirectory : isAbsolute (sourceDirectory kind) = false ∧
        ".." ∉ pieces (sourceDirectory kind) := by
      cases kind <;> decide
    rw [scanKind_eq, scanKind_eq, modulesAt_of_renewed h ht ht' hnamed (fun place hplace => ?_)
      fun m hm => ?_]
    · exact hsteps place (stepUps_join hdirectory.1 (by decide) hdirectory.2 hplace)
    · rw [scanKind_eq] at hfound
      exact hfound _ (List.mem_map_of_mem hm)
  rw [scan, scan, hkind .model fun source hsource => hmodules source (List.mem_append_left _ hsource),
    hkind .service fun source hsource => hmodules source (List.mem_append_right _ hsource)]

end Renewed

end Project

end Rigging
