import Mathlib.Data.List.Nodup
import Mathlib.Data.List.Induction
import Rigging.Proofs.FileTree

/-!
# Well-formed file trees

`FileTree.IsTree` is what makes a list of paths a tree: each path is listed once, and whatever stands
somewhere is reached through directories (`isTree_iff`).  The names in a directory are then those at
which something stands (`mem_names_iff`), each once (`nodup_names`), and no path is longer than the tree
is large (`length_le_entries`).

A path that fits is one that the file system takes for its length and its characters
(`FileTree.Fits`).  A plain path leads to its place exactly when it fits and the place can be reached
(`locate_eq_ok_iff`).
-/

namespace Rigging.FileTree

variable {t t' : FileTree} {p q : List String}

/-- A list of paths that is a tree. -/
structure IsTree (t : FileTree) : Prop where
  once : (t.entries.map Prod.fst).Nodup
  reached : ∀ q, (t.get? q).isSome = true → t.Reached q

theorem isSome_get?_iff (hq : q ≠ []) :
    (t.get? q).isSome = true ↔ q ∈ t.entries.map Prod.fst := by
  rw [get?_of_ne_nil t hq, List.lookup_isSome_iff, List.mem_map]
  refine exists_congr fun e => and_congr_right fun _ => ?_
  rw [beq_iff_eq, eq_comm]

theorem isDirectory_iff : t.isDirectory p = true ↔ t.get? p = some .directory := by
  unfold isDirectory
  split
  · rename_i h
    exact iff_of_true rfl h
  · rename_i h
    exact iff_of_false Bool.false_ne_true h

theorem dropLast_ne {p : List String} (hp : p ≠ []) : p.dropLast ≠ p := by
  intro heq
  have hlength := congrArg List.length heq
  rw [List.length_dropLast] at hlength
  have hpos := List.length_pos_iff.mpr hp
  omega

/-- Below a missing place everything is missing. -/
theorem IsTree.get?_below_none (h : t.IsTree) {r : List String} (hnone : t.get? q = none)
    (hq : q <+: r) : t.get? r = none := by
  rw [← Option.not_isSome_iff_eq_none]
  intro hsome
  by_cases heq : q = r
  · rw [← heq, hnone] at hsome
    cases hsome
  · have hdirectory := h.reached r hsome q hq heq
    rw [isDirectory_iff, hnone] at hdirectory
    cases hdirectory

/-- It is enough that each listed path has a directory above it. -/
theorem isTree_iff : t.IsTree ↔ (t.entries.map Prod.fst).Nodup ∧
    ∀ key ∈ t.entries.map Prod.fst, t.isDirectory key.dropLast = true := by
  constructor
  · refine fun h => ⟨h.once, fun key hkey => ?_⟩
    by_cases hnil : key = []
    · rw [hnil]
      rfl
    · exact h.reached key ((isSome_get?_iff hnil).mpr hkey) _ (List.dropLast_prefix _)
        (dropLast_ne hnil)
  · rintro ⟨honce, habove⟩
    refine ⟨honce, fun q => ?_⟩
    -- up from a path to the directory above it, until the root
    induction q using List.reverseRecOn with
    | nil => exact fun _ p hp hne => absurd (List.prefix_nil.mp hp) hne
    | append_singleton above c ih =>
      intro hsome
      have hdirectory := habove _ ((isSome_get?_iff (List.concat_ne_nil c above)).mp hsome)
      rw [List.dropLast_concat] at hdirectory
      refine reached_concat (ih ?_) hdirectory
      rw [isDirectory_iff.mp hdirectory]
      rfl

instance (t : FileTree) : Decidable t.IsTree :=
  decidable_of_iff' _ isTree_iff

/-! ### Names -/

/-- The name that a path has in a directory. -/
def nameIn? (p key : List String) : Option String :=
  match key.getLast? with
  | some name => if key.dropLast = p then some name else none
  | none => none

theorem nameIn?_eq_some {key : List String} {n : String} : nameIn? p key = some n ↔ key = p ++ [n] := by
  rcases List.eq_nil_or_concat key with rfl | ⟨above, last, rfl⟩
  · simp [nameIn?]
  · rw [List.concat_eq_append, nameIn?, List.getLast?_concat, List.dropLast_concat]
    dsimp only
    constructor
    · intro h
      split at h
      · rename_i heq
        rw [heq, Option.some.inj h]
      · cases h
    · intro h
      obtain ⟨rfl, hlast⟩ := List.append_inj' h rfl
      rw [if_pos rfl, (List.cons.inj hlast).1]

theorem names_eq (t : FileTree) (p : List String) :
    t.names p = (t.entries.map Prod.fst).filterMap (nameIn? p) := by
  rw [List.filterMap_map]
  rfl

/-- **The names in a directory** are those at which something stands. -/
theorem mem_names_iff {n : String} : n ∈ t.names p ↔ (t.get? (p ++ [n])).isSome = true := by
  rw [isSome_get?_iff (List.concat_ne_nil n p), names_eq, List.mem_filterMap]
  constructor
  · rintro ⟨key, hkey, hname⟩
    rwa [nameIn?_eq_some.mp hname] at hkey
  · exact fun hkey => ⟨_, hkey, nameIn?_eq_some.mpr rfl⟩

theorem nodup_names (h : (t.entries.map Prod.fst).Nodup) (p : List String) : (t.names p).Nodup := by
  rw [names_eq]
  refine h.filterMap fun key key' n hkey hkey' => ?_
  rw [nameIn?_eq_some.mp hkey, nameIn?_eq_some.mp hkey']

/-- In a tree no path has more components than there are paths, since every directory on the way is
listed. -/
theorem length_le_entries (h : t.IsTree) (hq : (t.get? q).isSome = true) :
    q.length ≤ t.entries.length := by
  let way := (List.range q.length).map fun i => q.take (i + 1)
  have hlisted : way ⊆ t.entries.map Prod.fst := by
    intro p hp
    obtain ⟨i, hi, rfl⟩ := List.mem_map.mp hp
    have hlength : (q.take (i + 1)).length = i + 1 :=
      List.length_take_of_le (List.mem_range.mp hi)
    rw [← isSome_get?_iff (List.ne_nil_of_length_eq_add_one hlength)]
    by_cases heq : q.take (i + 1) = q
    · rwa [heq]
    · rw [isDirectory_iff.mp (h.reached q hq _ (List.take_prefix _ _) heq)]
      rfl
  have hnodup : way.Nodup := by
    refine List.Nodup.of_map List.length ?_
    have hlengths : way.map List.length = (List.range q.length).map (· + 1) := by
      rw [List.map_map]
      exact List.map_congr_left fun i hi => List.length_take_of_le (List.mem_range.mp hi)
    rw [hlengths]
    exact List.nodup_range.map fun _ _ => Nat.succ.inj
  have hle := hnodup.length_le_of_subset hlisted
  rwa [List.length_map, List.length_map, List.length_range] at hle

/-! ### Changes -/

theorem isDirectory_put (hp : p ≠ []) (n : FileNode) :
    (t.put p n).isDirectory q = if q = p then (n matches .directory) else t.isDirectory q := by
  unfold isDirectory
  rw [get?_put t hp]
  by_cases hq : q = p
  · rw [if_pos hq, if_pos hq]
    cases n <;> rfl
  · rw [if_neg hq, if_neg hq]

theorem keys_put (t : FileTree) (p : List String) (n : FileNode) :
    (t.put p n).entries.map Prod.fst =
      t.entries.map Prod.fst ++ if t.contains p = true then [] else [p] := by
  unfold put
  split
  · rw [List.append_nil, List.map_map]
    refine List.map_congr_left fun e _ => ?_
    rw [Function.comp_apply]
    split
    · rename_i heq
      exact heq.symm
    · rfl
  · rw [List.map_append]
    rfl

/-- Something put into a directory, and not in the place of one unless it is one itself, leaves a
tree. -/
theorem isTree_put (h : t.IsTree) (hp : p ≠ []) (hparent : t.isDirectory p.dropLast = true)
    {n : FileNode} (hn : n = .directory ∨ ¬t.isDirectory p = true) : (t.put p n).IsTree := by
  rw [isTree_iff] at h ⊢
  rw [keys_put]
  have hdirectory : ∀ q, t.isDirectory q = true → (t.put p n).isDirectory q = true := by
    intro q hq
    rw [isDirectory_put hp]
    split
    · rename_i heq
      rw [hn.resolve_right fun hnot => hnot (heq ▸ hq)]
    · exact hq
  refine ⟨?_, fun key hkey => hdirectory _ ?_⟩
  · split
    · rw [List.append_nil]
      exact h.1
    · rename_i hnew
      rw [List.nodup_append']
      refine ⟨h.1, List.nodup_singleton _, fun key hkey hmem => hnew ?_⟩
      rw [List.mem_singleton.mp hmem] at hkey
      exact (isSome_get?_iff hp).mpr hkey
  · rcases List.mem_append.mp hkey with hkey | hkey
    · exact h.2 key hkey
    · split at hkey
      · cases hkey
      · rw [List.mem_singleton.mp hkey]
        exact hparent

theorem isTree_remove (h : t.IsTree) (hp : p ≠ []) : (t.remove p).IsTree := by
  refine ⟨?_, fun q hq q' hq' hne => ?_⟩
  · exact h.once.sublist (List.filter_sublist.map _)
  · rw [get?_remove t hp] at hq
    split at hq
    · cases hq
    · rename_i hbelow
      rw [isDirectory_iff, get?_remove t hp, if_neg fun habove => hbelow (habove.trans hq'),
        ← isDirectory_iff]
      exact h.reached q hq q' hq' hne

theorem isTree_makeDirectories {cs above : List String} (h : t.IsTree)
    (habove : t.isDirectory above = true) (hmake : t.makeDirectories above cs = .ok t') :
    t'.IsTree := by
  induction cs generalizing t above with
  | nil =>
    obtain rfl := Except.ok.inj hmake
    exact h
  | cons c cs ih =>
    rw [makeDirectories] at hmake
    split at hmake
    · rename_i hthere
      exact ih h (isDirectory_iff.mpr hthere) hmake
    · cases hmake
    · have hne : above ++ [c] ≠ [] := by simp
      refine ih (isTree_put h hne ?_ (.inl rfl)) ?_ hmake
      · rw [List.dropLast_concat]
        exact habove
      · rw [isDirectory_put hne, if_pos rfl]

/-- Directories can be made unless a file is in the way. -/
theorem exists_makeDirectories_ok {cs above : List String}
    (h : ∀ q content, q <+: above ++ cs → t.get? q ≠ some (.file content)) :
    ∃ t', t.makeDirectories above cs = .ok t' := by
  induction cs generalizing t above with
  | nil => exact ⟨t, rfl⟩
  | cons c cs ih =>
    rw [List.append_cons] at h
    rw [makeDirectories]
    split
    · exact ih h
    · rename_i content hfile
      exact absurd hfile (h _ content (List.prefix_append _ _))
    · refine ih fun q content hq => ?_
      rw [get?_put _ (by simp)]
      split
      · rintro ⟨⟩
      · exact h q content hq

/-! ### Paths that fit -/

/-- A path that the file system takes for its length and its characters. -/
structure Fits (path : String) : Prop where
  noNull : ¬path.toList.contains (Char.ofNat 0) = true
  encodable : Text.encodable path = true
  short : path.utf8ByteSize ≤ longestPath
  names : ∀ c ∈ Path.pieces path, c.utf8ByteSize ≤ longestName

theorem follow_eq_ok_iff {cs stack : List String} (hcs : ∀ c ∈ cs, c ≠ "." ∧ c ≠ "..")
    (hstack : t.Reached stack.reverse) :
    t.follow stack cs = .ok p ↔ (∀ c ∈ cs, c.utf8ByteSize ≤ longestName) ∧
      p = stack.reverse ++ cs.filter (· != "") ∧ t.Reached p := by
  induction cs generalizing stack with
  | nil =>
    rw [follow, List.filter_nil, List.append_nil, Except.ok.injEq, eq_comm]
    refine ⟨fun h => ⟨List.forall_mem_nil _, h, ?_⟩, fun h => h.2.1⟩
    rwa [h]
  | cons c cs ih =>
    obtain ⟨hpoint, hup⟩ := hcs c List.mem_cons_self
    have hrest := fun x hx => hcs x (List.mem_cons_of_mem c hx)
    rw [List.forall_mem_cons, follow]
    by_cases hempty : c = ""
    · subst hempty
      rw [if_pos rfl, ih hrest hstack, List.filter_cons_of_neg (by decide)]
      refine and_congr_left fun _ => (and_iff_right ?_).symm
      decide
    · rw [if_neg hempty, if_neg hpoint, if_neg hup, List.filter_cons_of_pos (by simp [hempty])]
      by_cases hdirectory : t.isDirectory stack.reverse = true
      · have hreached : t.Reached (c :: stack).reverse := by
          rw [List.reverse_cons]
          exact reached_concat hstack hdirectory
        rw [if_neg (by simp [hdirectory]), List.append_cons, ← List.reverse_cons]
        split
        · rename_i hlong
          exact iff_of_false (by rintro ⟨⟩) fun h => Nat.not_le_of_lt hlong h.1.1
        · rename_i hlong
          rw [ih hrest hreached, and_iff_right (Nat.le_of_not_lt hlong)]
      · rw [if_pos (by simpa using hdirectory)]
        refine iff_of_false (by rintro ⟨⟩) ?_
        rintro ⟨_, rfl, hreached⟩
        refine hdirectory (hreached _ (List.prefix_append _ _) fun heq => ?_)
        exact List.cons_ne_nil _ _ (List.append_right_eq_self.mp heq.symm)

/-- **Where a plain path leads**: to its place if it fits and the place can be reached. -/
theorem locate_eq_ok_iff {path : String} (hpath : Path.IsPlain path) :
    t.locate path = .ok p ↔ Fits path ∧ p = Path.components path ∧ t.Reached p := by
  have hroot : t.Reached ([] : List String).reverse :=
    fun q hq hne => absurd (List.prefix_nil.mp hq) hne
  have hfollow := follow_eq_ok_iff (p := p) hpath.pieces hroot
  rw [List.reverse_nil, List.nil_append, ← Path.components_of_isPlain hpath] at hfollow
  rw [locate_ok_iff, hfollow]
  constructor
  · rintro ⟨⟨hnull, henc, hshort⟩, hnames, hplace⟩
    exact ⟨⟨hnull, henc, hshort, hnames⟩, hplace⟩
  · rintro ⟨hfits, hplace⟩
    exact ⟨⟨hfits.noNull, hfits.encodable, hfits.short⟩, hfits.names, hplace⟩

/-- In a tree, a plain path leads to something if it fits and something stands at its place. -/
theorem existsAt_iff (h : t.IsTree) {path : String} (hpath : Path.IsPlain path) :
    t.existsAt path = true ↔ Fits path ∧ (t.get? (Path.components path)).isSome = true := by
  unfold existsAt
  constructor
  · intro hexists
    split at hexists
    · rename_i p hp
      obtain ⟨hfits, rfl, _⟩ := (locate_eq_ok_iff hpath).mp hp
      exact ⟨hfits, hexists⟩
    · cases hexists
  · rintro ⟨hfits, hsome⟩
    rw [(locate_eq_ok_iff hpath).mpr ⟨hfits, rfl, h.reached _ hsome⟩]
    exact hsome

/-- A directory fits if a path in it does. -/
theorem Fits.of_join {d c : String} (hc : Path.isAbsolute c = false) (h : Fits (Path.join d c)) :
    Fits d := by
  obtain ⟨rest, hrest⟩ : ∃ rest, Path.join d c = d ++ rest := by
    unfold Path.join
    rw [hc, if_neg Bool.false_ne_true]
    split
    · exact ⟨c, rfl⟩
    · exact ⟨"/" ++ c, String.append_assoc⟩
  obtain ⟨front, hfront, hpieces⟩ := Path.exists_pieces_join d
  have hnames := h.names
  rw [hpieces c hc] at hnames
  rw [hrest] at h
  refine ⟨fun hnull => h.noNull ?_, List.all_eq_true.mpr fun x hx => ?_, ?_, fun x hx => ?_⟩
  · rw [List.contains_iff_mem] at hnull ⊢
    rw [String.toList_append]
    exact List.mem_append_left _ hnull
  · refine List.all_eq_true.mp h.encodable x ?_
    rw [String.toList_append]
    exact List.mem_append_left _ hx
  · have hshort := h.short
    rw [String.utf8ByteSize_append] at hshort
    omega
  · rcases hfront with heq | heq
    · exact hnames x (List.mem_append_left _ (heq ▸ hx))
    · rw [heq] at hx
      rcases List.mem_append.mp hx with hx | hx
      · exact hnames x (List.mem_append_left _ hx)
      · rw [List.mem_singleton.mp hx]
        decide

end Rigging.FileTree
