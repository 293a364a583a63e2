import Rigging.Proofs.Project.Scan

/-!
# What a scan finds

A module is known by its way down from the directory of its kind.  Going down a tree lists the ways to
the modules below a directory (`mem_waysBelow`), in an order that the ways alone decide
(`pairwise_waysBelow`), so the list is the only one with these ways in this order (`Lists.ext`).  So a
scan finds the modules of a project, each once, and finds them in the same order however the tree
lists its entries (`scan_lists`).

A directory whose path is too long as a text is not looked into.  Its modules are missed without a
word (`scan_detour`).
-/

namespace Rigging.FileTree

variable {t t' : FileTree}

/-! ### Entries in another order -/

theorem lookup_perm {entries entries' : List (List String × FileNode)} (h : entries'.Perm entries)
    (hnodup : (entries.map Prod.fst).Nodup) (q : List String) :
    entries'.lookup q = entries.lookup q := by
  induction h with
  | nil => rfl
  | cons e h ih =>
    rw [List.map_cons, List.nodup_cons] at hnodup
    rw [List.lookup_cons, List.lookup_cons, ih hnodup.2]
  | swap e f entries =>
    have hne : e.1 ≠ f.1 := by
      rw [List.map_cons, List.nodup_cons, List.map_cons] at hnodup
      exact fun heq => hnodup.1 (heq ▸ List.mem_cons_self)
    by_cases hq : q = e.1
    · rw [lookup_cons_of_ne (hq ▸ hne), hq, List.lookup_cons_self, List.lookup_cons_self]
    · rw [lookup_cons_of_ne hq]
      by_cases hq' : q = f.1
      · rw [hq', List.lookup_cons_self, List.lookup_cons_self]
      · rw [lookup_cons_of_ne hq', lookup_cons_of_ne hq', lookup_cons_of_ne hq]
  | trans h h' ih ih' => rw [ih ((h'.map Prod.fst).nodup_iff.mpr hnodup), ih' hnodup]

/-- What stands where does not depend on the order of the entries. -/
theorem get?_of_perm (ht : t.IsTree) (h : t'.entries.Perm t.entries) : t'.get? = t.get? := by
  funext q
  by_cases hq : q = []
  · rw [hq, get?_nil, get?_nil]
  · rw [get?_of_ne_nil _ hq, get?_of_ne_nil _ hq, lookup_perm h ht.once]

section SameNodes

variable (h : t'.get? = t.get?)

include h

theorem isDirectory_congr (q : List String) : t'.isDirectory q = t.isDirectory q := by
  rw [isDirectory, isDirectory, h]

theorem follow_congr (stack cs : List String) : t'.follow stack cs = t.follow stack cs := by
  induction cs generalizing stack with
  | nil => rfl
  | cons c cs ih =>
    have hcontains : t'.contains stack.reverse = t.contains stack.reverse := by
      rw [contains, contains, h]
    simp only [follow, isDirectory_congr h, hcontains, ih]

theorem locate_congr (path : String) : t'.locate path = t.locate path := by
  rw [locate, locate, follow_congr h]

theorem isTree_congr (ht : t.IsTree) (honce : (t'.entries.map Prod.fst).Nodup) : t'.IsTree := by
  refine ⟨honce, fun q hq p hp hne => ?_⟩
  rw [isDirectory_congr h]
  exact ht.reached q (h ▸ hq) p hp hne

end SameNodes

end Rigging.FileTree

namespace Rigging.Project

open Rigging.Path FileTree

/-! ### The order of ways -/

/-- The order in which modules are found, by their ways down from one directory: first the files of the
directory by name, then what lies in its directories, one after the other by name. -/
inductive Before : List String → List String → Prop
  | files {m n : String} (h : m < n) : Before [m] [n]
  | above {m d : String} {s : List String} (hs : s ≠ []) : Before [m] (d :: s)
  | across {d e : String} {r s : List String} (h : d < e) (hr : r ≠ []) (hs : s ≠ []) :
      Before (d :: r) (e :: s)
  | within {d : String} {r s : List String} (h : Before r s) : Before (d :: r) (d :: s)

theorem not_before_nil (r : List String) : ¬Before r [] := by
  rintro ⟨⟩

theorem not_nil_before (s : List String) : ¬Before [] s := by
  rintro ⟨⟩

theorem Before.asymm {r s : List String} (h : Before r s) : ¬Before s r := by
  induction h with
  | files h =>
    intro h'
    cases h' with
    | files h' => exact String.lt_asymm h h'
    | above hs => exact hs rfl
    | across h' hr => exact hr rfl
    | within h' => exact not_before_nil _ h'
  | above hs =>
    intro h'
    cases h' with
    | files => exact hs rfl
    | above hs' => exact hs' rfl
    | across _ _ hs' => exact hs' rfl
    | within h' => exact not_before_nil _ h'
  | across h hr hs =>
    intro h'
    cases h' with
    | files => exact hr rfl
    | above hs' => exact hs rfl
    | across h' => exact String.lt_asymm h h'
    | within => exact String.lt_irrefl _ h
  | within h ih =>
    intro h'
    cases h' with
    | files => exact not_nil_before _ h
    | above => exact not_before_nil _ h
    | across h' => exact String.lt_irrefl _ h'
    | within h' => exact ih h'

theorem InOrder.pairwise_lt {names : List String} (h : InOrder names) : names.Pairwise (· < ·) := by
  refine h.pairwise.imp₂ (fun a b hle hne => ?_) h.nodup
  exact Classical.byContradiction fun hlt => hne (String.le_antisymm hle (String.not_lt.mp hlt))

/-! ### Going down -/

/-- The way down from a directory to a module: it ends at a file that is named like one, and does not
pass a directory that holds no modules. -/
structure IsModule (t : FileTree) (base way : List String) : Prop where
  file : ∃ content, t.get? (base ++ way) = some (.file content)
  ending : ∃ name, way.getLast? = some name ∧ sourceExtension.toList <:+ name.toList
  passes : ∀ c ∈ way.dropLast, c ∉ ignoredDirectories

/-- The ways to the modules below a directory, in the order in which they are found. -/
def waysBelow (t : FileTree) : Nat → String → List String → List (List String)
  | 0, _, _ => []
  | fuel + 1, text, place =>
    if longestPath < text.utf8ByteSize then []
    else (moduleNames t place).map (fun n => [n]) ++ (directoryNames t place).flatMap fun n =>
      (waysBelow t fuel (join text n) (place ++ [n])).map (n :: ·)

theorem modulesBelow_eq (t : FileTree) (fuel : Nat) (text : String) (place : List String) :
    modulesBelow t fuel text place = (waysBelow t fuel text place).map (joinAll text) := by
  induction fuel generalizing text place with
  | zero => rfl
  | succ fuel ih =>
    rw [modulesBelow_succ, waysBelow]
    split
    · rfl
    · rw [List.map_append, List.map_map, List.map_flatMap]
      congr 1
      refine List.flatMap_congr fun n _ => ?_
      rw [ih, List.map_map]
      rfl

section Ways

variable {t : FileTree} {base way : List String} {n : String}

theorem not_isModule_nil : ¬IsModule t base [] := by
  rintro ⟨_, ⟨name, hname, _⟩, _⟩
  cases hname

theorem isModule_singleton : IsModule t base [n] ↔ n ∈ moduleNames t base := by
  rw [mem_moduleNames]
  constructor
  · rintro ⟨hfile, ⟨name, hname, hending⟩, _⟩
    obtain rfl := Option.some.inj hname
    exact ⟨hfile, hending⟩
  · rintro ⟨hfile, hending⟩
    exact ⟨hfile, ⟨n, rfl, hending⟩, List.forall_mem_nil _⟩

/-- A longer way leads first into a directory. -/
theorem isModule_cons (ht : t.IsTree) (hway : way ≠ []) :
    IsModule t base (n :: way) ↔ n ∈ directoryNames t base ∧ IsModule t (base ++ [n]) way := by
  rw [mem_directoryNames]
  constructor
  · rintro ⟨⟨content, hcontent⟩, ⟨name, hname, hending⟩, hpasses⟩
    rw [List.dropLast_cons_of_ne_nil hway, List.forall_mem_cons] at hpasses
    rw [List.getLast?_cons_of_ne_nil hway] at hname
    rw [List.append_cons] at hcontent
    refine ⟨⟨?_, hpasses.1⟩, ⟨content, hcontent⟩, ⟨name, hname, hending⟩, hpasses.2⟩
    refine isDirectory_iff.mp (ht.reached _ ?_ _ (List.prefix_append _ way) fun heq => hway ?_)
    · rw [hcontent]
      rfl
    · exact List.self_eq_append_right.mp heq
  · rintro ⟨⟨_, hignored⟩, ⟨content, hcontent⟩, ⟨name, hname, hending⟩, hpasses⟩
    refine ⟨⟨content, ?_⟩, ⟨name, ?_, hending⟩, ?_⟩
    · rw [List.append_cons]
      exact hcontent
    · rw [List.getLast?_cons_of_ne_nil hway]
      exact hname
    · rw [List.dropLast_cons_of_ne_nil hway]
      exact List.forall_mem_cons.mpr ⟨hignored, hpasses⟩

theorem IsModule.isName (hnamed : t.IsNamed) (h : IsModule t base way) : ∀ c ∈ way, IsName c := by
  obtain ⟨content, hcontent⟩ := h.file
  exact fun c hc => hnamed _ (by rw [hcontent]; rfl) c (List.mem_append_right _ hc)

theorem utf8ByteSize_le_join (text : String) {c : String} (h : isAbsolute c = false) :
    text.utf8ByteSize ≤ (join text c).utf8ByteSize := by
  rw [join, h, if_neg Bool.false_ne_true]
  split <;> simp only [String.utf8ByteSize_append] <;> omega

theorem utf8ByteSize_le_joinAll (text : String) {names : List String} (h : ∀ c ∈ names, IsName c) :
    text.utf8ByteSize ≤ (joinAll text names).utf8ByteSize := by
  induction names generalizing text with
  | nil => exact Nat.le_refl _
  | cons c names ih =>
    rw [List.forall_mem_cons] at h
    exact (utf8ByteSize_le_join text h.1.not_isAbsolute).trans (ih (join text c) h.2)

/-- **The ways that are listed** are those to the modules that lie in a directory with a text that is
short enough.  The directories before it have shorter ones. -/
theorem mem_waysBelow (ht : t.IsTree) (hnamed : t.IsNamed) {fuel : Nat} {text : String}
    (hfuel : t.entries.length < fuel + base.length) :
    way ∈ waysBelow t fuel text base ↔
      IsModule t base way ∧ (joinAll text way.dropLast).utf8ByteSize ≤ longestPath := by
  induction fuel generalizing text base way with
  | zero =>
    -- so deep in the tree there is nothing any more
    refine iff_of_false List.not_mem_nil ?_
    rintro ⟨hmodule, _⟩
    obtain ⟨content, hcontent⟩ := hmodule.file
    have hlength := length_le_entries ht (q := base ++ way) (by rw [hcontent]; rfl)
    rw [List.length_append] at hlength
    omega
  | succ fuel ih =>
    rw [waysBelow]
    split
    · rename_i hlong
      refine iff_of_false List.not_mem_nil ?_
      rintro ⟨hmodule, hshort⟩
      have hle := utf8ByteSize_le_joinAll text
        fun c hc => hmodule.isName hnamed c (List.dropLast_subset _ hc)
      omega
    · rename_i hshort
      rw [List.mem_append, List.mem_map, List.mem_flatMap]
      have hbelow : ∀ (n : String) (way : List String),
          way ∈ waysBelow t fuel (join text n) (base ++ [n]) ↔ IsModule t (base ++ [n]) way ∧
            (joinAll (join text n) way.dropLast).utf8ByteSize ≤ longestPath :=
        fun n way => ih (by rw [List.length_append, List.length_singleton]; omega)
      simp only [List.mem_map, hbelow]
      match way with
      | [] =>
        simp [not_isModule_nil]
      | [n] =>
        have hhere : (joinAll text [n].dropLast).utf8ByteSize ≤ longestPath := Nat.le_of_not_lt hshort
        rw [isModule_singleton, and_iff_left hhere]
        constructor
        · rintro (⟨m, hm, heq⟩ | ⟨d, _, rest, ⟨hmodule, _⟩, heq⟩)
          · rwa [← (List.cons.inj heq).1]
          · rw [(List.cons.inj heq).2] at hmodule
            exact absurd hmodule not_isModule_nil
        · exact fun hn => .inl ⟨n, hn, rfl⟩
      | d :: e :: rest =>
        have hne : e :: rest ≠ [] := List.cons_ne_nil _ _
        rw [isModule_cons ht hne, List.dropLast_cons_of_ne_nil hne, and_assoc]
        constructor
        · rintro (⟨m, _, heq⟩ | ⟨d', hd, rest', hrest, heq⟩)
          · cases heq
          · obtain ⟨rfl, rfl⟩ := List.cons.inj heq
            exact ⟨hd, hrest⟩
        · exact fun h => .inr ⟨d, h.1, e :: rest, h.2, rfl⟩

/-- **The ways are listed in order.** -/
theorem pairwise_waysBelow (ht : t.IsTree) (fuel : Nat) (text : String) (base : List String) :
    (waysBelow t fuel text base).Pairwise Before ∧ [] ∉ waysBelow t fuel text base := by
  induction fuel generalizing text base with
  | zero => exact ⟨List.Pairwise.nil, List.not_mem_nil⟩
  | succ fuel ih =>
    rw [waysBelow]
    split
    · exact ⟨List.Pairwise.nil, List.not_mem_nil⟩
    have hne : ∀ d, ∀ rest ∈ waysBelow t fuel (join text d) (base ++ [d]), rest ≠ [] :=
      fun d rest hrest hnil => (ih (join text d) (base ++ [d])).2 (hnil ▸ hrest)
    refine ⟨?_, by simp⟩
    rw [List.pairwise_append, List.pairwise_map, List.pairwise_flatMap]
    refine ⟨(inOrder_moduleNames ht base).pairwise_lt.imp .files, ⟨fun d _ => ?_, ?_⟩, ?_⟩
    · exact List.pairwise_map.mpr ((ih _ _).1.imp .within)
    · refine (inOrder_directoryNames ht base).pairwise_lt.imp fun {d e} hlt r hr s hs => ?_
      obtain ⟨r', hr', rfl⟩ := List.mem_map.mp hr
      obtain ⟨s', hs', rfl⟩ := List.mem_map.mp hs
      exact .across hlt (hne d r' hr') (hne e s' hs')
    · intro r hr s hs
      obtain ⟨m, _, rfl⟩ := List.mem_map.mp hr
      obtain ⟨d, _, hd⟩ := List.mem_flatMap.mp hs
      obtain ⟨s', hs', rfl⟩ := List.mem_map.mp hd
      exact .above (hne d s' hs')

end Ways

/-! ### The modules of a project -/

/-- The way from a directory to a module that a scan of the directory finds: the directory is there,
and so far down the texts of the paths are short enough. -/
def IsFound (t : FileTree) (directory : String) (way : List String) : Prop :=
  ∃ base, t.locate directory = .ok base ∧ IsModule t base way ∧
    (joinAll directory way.dropLast).utf8ByteSize ≤ longestPath

/-- What is found depends only on what stands where. -/
theorem isFound_congr {t t' : FileTree} (h : t'.get? = t.get?) (directory : String)
    (way : List String) : IsFound t' directory way ↔ IsFound t directory way := by
  have hmodule : ∀ base, IsModule t' base way ↔ IsModule t base way := by
    intro base
    refine ⟨fun hway => ⟨?_, hway.ending, hway.passes⟩, fun hway => ⟨?_, hway.ending, hway.passes⟩⟩
    · exact h ▸ hway.file
    · exact h ▸ hway.file
  simp only [IsFound, locate_congr h, hmodule]

/-- The ways to the modules that are found, each once and in order. -/
structure Lists (t : FileTree) (directory : String) (ways : List (List String)) : Prop where
  mem : ∀ way, way ∈ ways ↔ IsFound t directory way
  pairwise : ways.Pairwise Before

theorem nodup_of_pairwise_before {ways : List (List String)} (h : ways.Pairwise Before) :
    ways.Nodup := by
  refine h.imp fun hbefore => ?_
  rintro rfl
  exact hbefore.asymm hbefore

/-- There is only one such list. -/
theorem Lists.ext {t t' : FileTree} {directory : String} {ways ways' : List (List String)}
    (h : Lists t directory ways) (h' : Lists t' directory ways')
    (hfound : ∀ way, IsFound t directory way ↔ IsFound t' directory way) : ways = ways' := by
  have hnodup := nodup_of_pairwise_before h.pairwise
  have hnodup' := nodup_of_pairwise_before h'.pairwise
  refine List.Perm.eq_of_pairwise (fun _ _ _ _ hab hba => absurd hba hab.asymm) h.pairwise h'.pairwise
    ((List.perm_ext_iff_of_nodup hnodup hnodup').mpr fun way => ?_)
  rw [h.mem, h'.mem, hfound]

theorem exists_lists {t : FileTree} (ht : t.IsTree) (hnamed : t.IsNamed) (directory : String) :
    ∃ ways, Lists t directory ways ∧ modulesAt t directory = ways.map (joinAll directory) := by
  unfold modulesAt
  cases hlocate : t.locate directory with
  | error fault =>
    refine ⟨[], ⟨fun way => iff_of_false List.not_mem_nil ?_, List.Pairwise.nil⟩, rfl⟩
    rintro ⟨base, hbase, _⟩
    rw [hlocate] at hbase
    cases hbase
  | ok base =>
    have hfound : ∀ way, IsFound t directory way ↔ IsModule t base way ∧
        (joinAll directory way.dropLast).utf8ByteSize ≤ longestPath := by
      intro way
      constructor
      · rintro ⟨base', hbase', h⟩
        obtain rfl := Except.ok.inj (hlocate.symm.trans hbase')
        exact h
      · exact fun h => ⟨base, hlocate, h⟩
    dsimp only
    split
    · refine ⟨waysBelow t (t.entries.length + 1) directory base, ⟨fun way => ?_, ?_⟩,
        modulesBelow_eq ..⟩
      · rw [hfound, mem_waysBelow ht hnamed (by omega)]
      · exact (pairwise_waysBelow ht _ _ _).1
    · rename_i hfile
      refine ⟨[], ⟨fun way => iff_of_false List.not_mem_nil fun h => hfile ?_, List.Pairwise.nil⟩, rfl⟩
      -- a way leads down from a directory
      obtain ⟨hmodule, _⟩ := (hfound way).mp h
      obtain ⟨content, hcontent⟩ := hmodule.file
      refine ht.reached _ (by rw [hcontent]; rfl) base (List.prefix_append _ _) fun heq => ?_
      rw [List.self_eq_append_right.mp heq] at hmodule
      exact not_isModule_nil hmodule

/-- The module at the end of a way. -/
def sourceAt (root owner : String) (kind : EntityKind) (way : List String) : Source :=
  let path := joinAll (join root (sourceDirectory kind)) way
  ⟨path, Path.relative path root, entityName path, kind, owner⟩

/-- The path of a module leads from the directory down the way. -/
theorem components_sourceAt (root owner : String) (kind : EntityKind) {way : List String}
    (h : ∀ c ∈ way, IsName c) : components (sourceAt root owner kind way).path =
      components (join root (sourceDirectory kind)) ++ way := by
  show components (joinAll (join root (sourceDirectory kind)) way) = _
  generalize join root (sourceDirectory kind) = text
  induction way generalizing text with
  | nil => exact (List.append_nil _).symm
  | cons c way ih =>
    rw [List.forall_mem_cons] at h
    show components (joinAll (join text c) way) = _
    rw [ih h.2, components_join text h.1, ← List.append_cons]

theorem exists_scan {t : FileTree} (ht : t.IsTree) (hnamed : t.IsNamed) (root owner : String) :
    ∃ ways : EntityKind → List (List String),
      (∀ kind, Lists t (join root (sourceDirectory kind)) (ways kind)) ∧
      scan t root owner = (ways .model).map (sourceAt root owner .model) ++
        (ways .service).map (sourceAt root owner .service) := by
  choose ways hways hat using exists_lists ht hnamed
  refine ⟨fun kind => ways (join root (sourceDirectory kind)), fun kind => hways _, ?_⟩
  rw [scan, scanKind_eq, scanKind_eq, hat, hat, List.map_map, List.map_map]
  rfl

/-- **A scan finds the modules of a project**, the models and then the services.  In each kind it finds
every module below the directory of the kind that is not in a directory with too long a path, once
and in the order of the ways.  The order in which the directories list what is in them does not
matter. -/
theorem scan_lists {t : FileTree} (ht : t.IsTree) (hnamed : t.IsNamed) (root owner : String) :
    (∃ ways : EntityKind → List (List String),
      scan t root owner = (ways .model).map (sourceAt root owner .model) ++
        (ways .service).map (sourceAt root owner .service) ∧
      ∀ kind, (ways kind).Nodup ∧ (ways kind).Pairwise Before ∧
        (∀ way, way ∈ ways kind ↔ IsFound t (join root (sourceDirectory kind)) way) ∧
        ∀ way ∈ ways kind, components (sourceAt root owner kind way).path =
          components (join root (sourceDirectory kind)) ++ way) ∧
    ∀ t' : FileTree, t'.entries.Perm t.entries → scan t' root owner = scan t root owner := by
  obtain ⟨ways, hways, hscan⟩ := exists_scan ht hnamed root owner
  refine ⟨⟨ways, hscan, fun kind => ?_⟩, fun t' hperm => ?_⟩
  · refine ⟨nodup_of_pairwise_before (hways kind).pairwise, (hways kind).pairwise, (hways kind).mem,
      fun way hway => ?_⟩
    obtain ⟨base, _, hmodule, _⟩ := ((hways kind).mem way).mp hway
    exact components_sourceAt root owner kind (hmodule.isName hnamed)
  · have hget : t'.get? = t.get? := get?_of_perm ht hperm
    have ht' : t'.IsTree := isTree_congr hget ht ((hperm.map Prod.fst).nodup_iff.mpr ht.once)
    obtain ⟨ways', hways', hscan'⟩ :=
      exists_scan ht' (fun q hq => hnamed q (hget ▸ hq)) root owner
    have hsame : ways' = ways :=
      funext fun kind => (hways' kind).ext (hways kind) (isFound_congr hget _)
    rw [hscan', hscan, hsame]

/-- A project with models in a directory and in one below it, listed out of order. -/
def kennelProject : FileTree :=
  ⟨[(["p"], .directory), (["p", "api"], .directory), (["p", "api", "models"], .directory),
    (["p", "api", "models", "cats"], .directory),
    (["p", "api", "models", "cats", "Ant.js"], .file "".toUTF8),
    (["p", "api", "models", "Zoo.js"], .file "".toUTF8),
    (["p", "api", "models", "node_modules"], .directory),
    (["p", "api", "models", "node_modules", "Lost.js"], .file "".toUTF8),
    (["p", "api", "models", "Pet.js"], .file "".toUTF8)]⟩

/-- The models are found whichever way round the project is listed, but for the one in a directory that
is not looked into. -/
theorem scan_lists_kennelProject :
    kennelProject.IsTree ∧ kennelProject.IsNamed ∧ ∃ ways : EntityKind → List (List String),
      scan ⟨kennelProject.entries.reverse⟩ "/p" Entity.rootOwner =
        (ways .model).map (sourceAt "/p" Entity.rootOwner .model) ++
          (ways .service).map (sourceAt "/p" Entity.rootOwner .service) ∧
      (ways .model).Pairwise Before ∧ ["Zoo.js"] ∈ ways .model ∧ ["cats", "Ant.js"] ∈ ways .model ∧
      ["node_modules", "Lost.js"] ∉ ways .model := by
  have htree : kennelProject.IsTree := by decide
  have hnamed : kennelProject.IsNamed := by decide
  obtain ⟨⟨ways, hscan, hways⟩, hperm⟩ := scan_lists htree hnamed "/p" Entity.rootOwner
  obtain ⟨_, hpairwise, hmem, _⟩ := hways .model
  have hlocate : kennelProject.locate (join "/p" (sourceDirectory .model)) =
      .ok ["p", "api", "models"] := by decide
  refine ⟨htree, hnamed, ways, ?_, hpairwise, ?_, ?_, ?_⟩
  · rw [← hscan]
    exact hperm ⟨_⟩ (List.reverse_perm kennelProject.entries)
  · exact (hmem _).mpr
      ⟨_, hlocate, ⟨⟨_, rfl⟩, ⟨"Zoo.js", rfl, by decide⟩, by decide⟩, by decide⟩
  · exact (hmem _).mpr
      ⟨_, hlocate, ⟨⟨_, rfl⟩, ⟨"Ant.js", rfl, by decide⟩, by decide⟩, by decide⟩
  · intro hlost
    obtain ⟨_, _, hmodule, _⟩ := (hmem _).mp hlost
    exact hmodule.passes "node_modules" List.mem_cons_self (by decide)

/-! ### Paths that are too long -/

theorem modulesAt_of_long (t : FileTree) {directory : String}
    (h : longestPath < directory.utf8ByteSize) : modulesAt t directory = [] := by
  unfold modulesAt
  cases hlocate : t.locate directory with
  | error fault => rfl
  | ok base => exact absurd (locate_ok_iff.mp hlocate).1.2.2 (Nat.not_le_of_lt h)

/-- The path `/p` by way of needless steps up. -/
def detour : Nat → String
  | 0 => "/p"
  | n + 1 => detour n ++ "/../p"

theorem components_detour (n : Nat) : components (detour n) = ["p"] := by
  induction n with
  | zero => decide
  | succ n ih =>
    have hpieces : pieces (detour (n + 1)) = pieces (detour n) ++ ["..", "p"] := by
      have hsplit : detour (n + 1) = detour n ++ "/" ++ "../p" := by
        rw [detour, String.append_assoc]
        rfl
      rw [hsplit, pieces_append_slash]
      rfl
    rw [components, hpieces, settle_append, ← components, ih]
    decide

theorem utf8ByteSize_detour (n : Nat) : (detour n).utf8ByteSize = 2 + 5 * n := by
  induction n with
  | zero => rfl
  | succ n ih =>
    rw [detour, String.utf8ByteSize_append, ih, show "/../p".utf8ByteSize = 5 by rfl]
    omega

/-- **Modules are missed** if the path of the project is too long as a text, though it leads to the
directory that has them. -/
theorem scan_detour :
    components (detour 819) = ["p"] ∧ IsModule kennelProject ["p", "api", "models"] ["Pet.js"] ∧
      scan kennelProject (detour 819) Entity.rootOwner = [] := by
  have hlong : ∀ kind, longestPath < (join (detour 819) (sourceDirectory kind)).utf8ByteSize := by
    intro kind
    have hle := utf8ByteSize_le_join (detour 819)
      (show isAbsolute (sourceDirectory kind) = false by cases kind <;> decide)
    rw [utf8ByteSize_detour] at hle
    exact Nat.lt_of_lt_of_le (by decide) hle
  have hmodule : "Pet.js" ∈ moduleNames kennelProject ["p", "api", "models"] :=
    mem_moduleNames.mpr ⟨⟨_, rfl⟩, by decide⟩
  refine ⟨components_detour 819, isModule_singleton.mpr hmodule, ?_⟩
  rw [scan, scanKind_eq, scanKind_eq, modulesAt_of_long _ (hlong .model),
    modulesAt_of_long _ (hlong .service)]
  rfl

end Rigging.Project
