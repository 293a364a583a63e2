import Rigging.Proofs.Path

/-!
# Laws of file trees

What stands at each path after a change: one equation for each of `put`, `remove` and
`makeDirectories`, from which everything about larger changes is read off.  A path leads to its
components or nowhere (`components_of_locate`), and through directories (`reached_of_locate`).
-/

namespace Rigging.FileTree

variable {t t' : FileTree} {p q : List String}

@[simp] theorem get?_nil (t : FileTree) : t.get? [] = some .directory := rfl

theorem get?_of_ne_nil (t : FileTree) (hq : q ≠ []) : t.get? q = t.entries.lookup q := by
  rw [get?, List.isEmpty_eq_false_iff.mpr hq, if_neg Bool.false_ne_true]

theorem lookup_cons_of_ne {key : List String} (h : q ≠ key) (node : FileNode)
    (entries : List (List String × FileNode)) :
    ((key, node) :: entries).lookup q = entries.lookup q := by
  rw [List.lookup_cons, beq_eq_false_iff_ne.mpr h]

theorem lookup_map_put (entries : List (List String × FileNode)) (p q : List String) (n : FileNode) :
    (entries.map fun e => if e.1 = p then (p, n) else e).lookup q =
      if q = p then (entries.lookup p).map fun _ => n else entries.lookup q := by
  induction entries with
  | nil =>
    split <;> rfl
  | cons e entries ih =>
    obtain ⟨key, node⟩ := e
    rw [List.map_cons]
    by_cases hkey : key = p
    · subst hkey
      rw [if_pos rfl]
      by_cases hq : q = key
      · rw [hq, if_pos rfl, List.lookup_cons_self, List.lookup_cons_self]
        rfl
      · rw [lookup_cons_of_ne hq, ih, if_neg hq, if_neg hq, lookup_cons_of_ne hq]
    · rw [if_neg hkey, lookup_cons_of_ne (Ne.symm hkey)]
      by_cases hq : q = key
      · rw [hq, if_neg hkey, List.lookup_cons_self, List.lookup_cons_self]
      · rw [lookup_cons_of_ne hq, ih, lookup_cons_of_ne hq]

/-- **What stands at a path is what was put there last.** -/
theorem get?_put (t : FileTree) (hp : p ≠ []) (n : FileNode) (q : List String) :
    (t.put p n).get? q = if q = p then some n else t.get? q := by
  by_cases hq : q = []
  · rw [hq, if_neg (Ne.symm hp)]
    rfl
  · have hlookup : t.get? p = t.entries.lookup p := get?_of_ne_nil t hp
    rw [get?_of_ne_nil _ hq, get?_of_ne_nil _ hq, put, contains, hlookup]
    split
    · rename_i hsome
      obtain ⟨m, hm⟩ := Option.isSome_iff_exists.mp hsome
      rw [lookup_map_put, hm]
      rfl
    · rename_i hnone
      rw [Bool.not_eq_true, Option.isSome_eq_false_iff, Option.isNone_iff_eq_none] at hnone
      rw [List.lookup_append]
      split
      · rename_i hqp
        rw [hqp, hnone, Option.none_or, List.lookup_cons_self]
      · rename_i hqp
        rw [lookup_cons_of_ne hqp]
        exact Option.or_none

/-- **Nothing stands below a path that has been removed**, and all else is as before. -/
theorem get?_remove (t : FileTree) (hp : p ≠ []) (q : List String) :
    (t.remove p).get? q = if p <+: q then none else t.get? q := by
  have hlookup : ∀ entries : List (List String × FileNode),
      (entries.filter fun e => !p.isPrefixOf e.1).lookup q =
        if p <+: q then none else entries.lookup q := by
    intro entries
    induction entries with
    | nil => simp
    | cons e entries ih =>
      obtain ⟨key, node⟩ := e
      by_cases hkey : p <+: key
      · have hdrop : ¬(!p.isPrefixOf key) = true := by
          rw [List.isPrefixOf_iff_prefix.mpr hkey]
          exact Bool.false_ne_true
        rw [List.filter_cons, if_neg hdrop, ih]
        split
        · rfl
        · rename_i hpq
          have hq : q ≠ key := by
            rintro rfl
            exact hpq hkey
          rw [lookup_cons_of_ne hq]
      · have hkeep : (!p.isPrefixOf key) = true := by
          rw [Bool.not_eq_true', ← Bool.not_eq_true, List.isPrefixOf_iff_prefix]
          exact hkey
        rw [List.filter_cons, if_pos hkeep]
        by_cases hq : q = key
        · rw [hq, if_neg hkey, List.lookup_cons_self, List.lookup_cons_self]
        · rw [lookup_cons_of_ne hq, ih, lookup_cons_of_ne hq]
  by_cases hq : q = []
  · have hnil : ¬p <+: [] := fun h => hp (List.prefix_nil.mp h)
    rw [hq, if_neg hnil]
    rfl
  · rw [get?_of_ne_nil _ hq, get?_of_ne_nil _ hq]
    exact hlookup t.entries

/-! ### Making directories -/

/-- **The directories that are made** are those on the way that were missing, and they are all that is
new. -/
theorem get?_makeDirectories {cs above : List String} (h : t.makeDirectories above cs = .ok t')
    (q : List String) :
    t'.get? q = (t.get? q).or
      (if q <+: above ++ cs ∧ above.length < q.length then some .directory else none) := by
  induction cs generalizing t above with
  | nil =>
    have hnone : ¬(q <+: above ++ [] ∧ above.length < q.length) := by
      rintro ⟨hq, hlt⟩
      rw [List.append_nil] at hq
      exact absurd hq.length_le (Nat.not_le_of_lt hlt)
    rw [if_neg hnone, Option.or_none, ← Except.ok.inj h]
  | cons c cs ih =>
    let here := above ++ [c]
    -- one step further down, the way is the same but for the directory that has been reached
    have hstep : (q <+: above ++ c :: cs ∧ above.length < q.length) ↔
        q = here ∨ (q <+: here ++ cs ∧ here.length < q.length) := by
      have hlength : here.length = above.length + 1 := List.length_append
      rw [List.append_cons]
      constructor
      · rintro ⟨hq, hlt⟩
        by_cases hlen : here.length < q.length
        · exact Or.inr ⟨hq, hlen⟩
        · have hfront : q <+: here :=
            List.prefix_of_prefix_length_le hq (List.prefix_append _ _) (Nat.le_of_not_lt hlen)
          exact Or.inl (hfront.eq_of_length (by omega))
      · rintro (rfl | ⟨hq, hlt⟩)
        · exact ⟨List.prefix_append _ _, by omega⟩
        · exact ⟨hq, by omega⟩
    simp only [hstep]
    rw [makeDirectories] at h
    cases hhere : t.get? here with
    | none =>
      simp only [here, hhere] at h
      rw [ih h, get?_put _ (by simp)]
      by_cases hq : q = here
      · rw [if_pos hq, if_pos (Or.inl hq), hq, hhere]
        rfl
      · rw [if_neg hq]
        simp only [here, hq, false_or]
    | some node =>
      cases node with
      | file content =>
        simp only [here, hhere] at h
        cases h
      | directory =>
        simp only [here, hhere] at h
        rw [ih h]
        by_cases hq : q = here
        · rw [hq, hhere]
          rfl
        · simp only [here, hq, false_or]

/-! ### Places -/

/-- **One step of following**: an empty component is skipped, and every other one is taken from a
directory, be it a point, a step up or a name. -/
theorem follow_cons_ok_iff {c : String} {cs stack : List String} :
    t.follow stack (c :: cs) = .ok p ↔
      c = "" ∧ t.follow stack cs = .ok p ∨
      t.isDirectory stack.reverse = true ∧
        (c = "." ∧ t.follow stack cs = .ok p ∨
          c = ".." ∧ t.follow stack.tail cs = .ok p ∨
          (c ≠ "" ∧ c ≠ "." ∧ c ≠ "..") ∧ c.utf8ByteSize ≤ longestName ∧
            t.follow (c :: stack) cs = .ok p) := by
  rw [follow]
  by_cases hempty : c = ""
  · simp [hempty]
  by_cases hdirectory : t.isDirectory stack.reverse = true
  · by_cases hpoint : c = "."
    · simp [hpoint, hdirectory]
    by_cases hup : c = ".."
    · simp [hup, hdirectory]
    by_cases hlong : longestName < c.utf8ByteSize
    · simp [hempty, hdirectory, hpoint, hup, hlong, Nat.not_le_of_lt hlong]
    · simp [hempty, hdirectory, hpoint, hup, hlong, Nat.le_of_not_lt hlong]
  · simp [hempty, hdirectory]

/-- Following settles the components on the way. -/
theorem follow_eq_settle {cs stack : List String} (hstack : ∀ c ∈ stack, c ≠ "..")
    (h : t.follow stack cs = .ok p) : p = Path.settle true stack cs := by
  induction cs generalizing stack with
  | nil => exact (Except.ok.inj h).symm
  | cons c cs ih =>
    rw [follow_cons_ok_iff] at h
    rcases h with ⟨hempty, h⟩ | ⟨_, ⟨hpoint, h⟩ | ⟨rfl, h⟩ | ⟨⟨hempty, hpoint, hup⟩, _, h⟩⟩
    · rw [Path.settle_skip (.inl hempty), ih hstack h]
    · rw [Path.settle_skip (.inr hpoint), ih hstack h]
    · have hhead : stack.head? ≠ some ".." := fun hmem => hstack _ (List.mem_of_mem_head? hmem) rfl
      rw [Path.settle_up hhead, ih (fun x hx => hstack x (List.mem_of_mem_tail hx)) h]
    · rw [Path.settle_name hempty hpoint hup]
      exact ih (List.forall_mem_cons.mpr ⟨hup, hstack⟩) h

/-- **What a path takes to lead somewhere**: its text is proper, and its pieces can be followed. -/
theorem locate_ok_iff {path : String} : t.locate path = .ok p ↔
    (¬path.toList.contains (Char.ofNat 0) = true ∧ Text.encodable path = true ∧
      path.utf8ByteSize ≤ longestPath) ∧ t.follow [] (Path.pieces path) = .ok p := by
  unfold locate
  by_cases hnull : path.toList.contains (Char.ofNat 0) = true
  · rw [if_pos hnull]
    exact iff_of_false (fun h => nomatch h) fun h => h.1.1 hnull
  rw [if_neg hnull]
  by_cases henc : Text.encodable path = true
  · rw [if_neg (by simp [henc])]
    by_cases hlong : longestPath < path.utf8ByteSize
    · rw [if_pos hlong]
      exact iff_of_false (fun h => nomatch h) fun h => Nat.not_le_of_lt hlong h.1.2.2
    · rw [if_neg hlong]
      exact ⟨fun h => ⟨⟨hnull, henc, Nat.le_of_not_lt hlong⟩, h⟩, And.right⟩
  · rw [if_pos (by simp [henc])]
    exact iff_of_false (fun h => nomatch h) fun h => henc h.1.2.1

theorem follow_of_locate {path : String} (h : t.locate path = .ok p) :
    t.follow [] (Path.pieces path) = .ok p :=
  (locate_ok_iff.mp h).2

/-- **A path leads to its components**, or nowhere. -/
theorem components_of_locate {path : String} (h : t.locate path = .ok p) :
    p = Path.components path :=
  follow_eq_settle (fun _ hc => nomatch hc) (follow_of_locate h)

theorem isSome_get?_of_existsAt {path : String} (h : t.existsAt path = true) :
    (t.get? (Path.components path)).isSome = true := by
  unfold existsAt at h
  split at h
  · rename_i p hp
    rw [← components_of_locate hp]
    exact h
  · cases h

theorem get?_of_not_existsAt {path : String} (hp : t.locate path = .ok p)
    (h : ¬t.existsAt path = true) : t.get? p = none := by
  rw [existsAt, hp, Bool.not_eq_true] at h
  exact Option.isNone_iff_eq_none.mp (Option.isSome_eq_false_iff.mp h)

/-- A file that is opened stands where its path leads, which is no directory and so not the root. -/
theorem openFile_ok {path : String} (h : t.openFile path = .ok (p, t')) :
    t.locate path = .ok p ∧ p ≠ [] ∧ ¬t.isDirectory p = true ∧
      t' = t.put p (.file ByteArray.empty) := by
  unfold openFile at h
  cases hplace : t.locate path with
  | error fault =>
    rw [hplace] at h
    cases h
  | ok place =>
    rw [hplace] at h
    change (if t.isDirectory place then _ else _) = _ at h
    split at h
    · cases h
    · rename_i hdirectory
      split at h
      · cases h
      · obtain ⟨rfl, rfl⟩ := Prod.mk.inj (Except.ok.inj h)
        refine ⟨rfl, ?_, hdirectory, rfl⟩
        rintro rfl
        exact hdirectory rfl

/-! ### The way to a place -/

/-- Everything above a place is a directory. -/
def Reached (t : FileTree) (p : List String) : Prop :=
  ∀ q, q <+: p → q ≠ p → t.isDirectory q = true

theorem reached_concat {c : String} (h : t.Reached p) (hp : t.isDirectory p = true) :
    t.Reached (p ++ [c]) := by
  intro q hq hne
  rcases List.prefix_concat_iff.mp hq with rfl | hq
  · exact absurd rfl hne
  · by_cases hqp : q = p
    · rw [hqp]
      exact hp
    · exact h q hq hqp

theorem Reached.of_prefix (h : t.Reached p) (hq : q <+: p) : t.Reached q := by
  intro q' hq' hne
  refine h q' (hq'.trans hq) ?_
  rintro rfl
  exact hne (hq'.eq_of_length_le hq.length_le)

/-- Following components leads through directories. -/
theorem reached_of_follow {cs stack : List String} (hstack : t.Reached stack.reverse)
    (h : t.follow stack cs = .ok p) : t.Reached p := by
  induction cs generalizing stack with
  | nil =>
    obtain rfl := Except.ok.inj h
    exact hstack
  | cons c cs ih =>
    rw [follow_cons_ok_iff] at h
    rcases h with ⟨_, h⟩ | ⟨hdirectory, ⟨_, h⟩ | ⟨_, h⟩ | ⟨_, _, h⟩⟩
    · exact ih hstack h
    · exact ih hstack h
    · exact ih (hstack.of_prefix (List.reverse_prefix.mpr (List.tail_suffix stack))) h
    · refine ih ?_ h
      rw [List.reverse_cons]
      exact reached_concat hstack hdirectory

/-- A last component that is a name is the name of the place. -/
theorem follow_concat {cs stack : List String} {c : String} (hempty : c ≠ "") (hpoint : c ≠ ".")
    (hup : c ≠ "..") (h : t.follow stack (cs ++ [c]) = .ok p) : ∃ above, p = above ++ [c] := by
  induction cs generalizing stack with
  | nil =>
    rw [List.nil_append, follow_cons_ok_iff] at h
    rcases h with ⟨rfl, _⟩ | ⟨_, ⟨rfl, _⟩ | ⟨rfl, _⟩ | ⟨_, _, h⟩⟩
    · exact absurd rfl hempty
    · exact absurd rfl hpoint
    · exact absurd rfl hup
    · rw [← Except.ok.inj h, List.reverse_cons]
      exact ⟨_, rfl⟩
  | cons d cs ih =>
    rw [List.cons_append, follow_cons_ok_iff] at h
    rcases h with ⟨_, h⟩ | ⟨_, ⟨_, h⟩ | ⟨_, h⟩ | ⟨_, _, h⟩⟩ <;> exact ih h

/-- **A place that a path leads to is reached through directories.** -/
theorem reached_of_locate {path : String} (h : t.locate path = .ok p) : t.Reached p := by
  refine reached_of_follow ?_ (follow_of_locate h)
  intro q hq hne
  exact absurd (List.prefix_nil.mp hq) hne

/-- Components without points, all of which but the last are directories, lead to their place unless a
name is too long. -/
theorem follow_of_reached {cs stack : List String} (hcs : ∀ c ∈ cs, c ≠ "." ∧ c ≠ "..")
    (h : t.Reached (stack.reverse ++ cs.filter (· != ""))) :
    t.follow stack cs = .ok (stack.reverse ++ cs.filter (· != "")) ∨
      t.follow stack cs = .error .nameTooLong := by
  induction cs generalizing stack with
  | nil =>
    rw [List.filter_nil, List.append_nil]
    exact Or.inl rfl
  | cons c cs ih =>
    obtain ⟨hpoint, hup⟩ := hcs c List.mem_cons_self
    have hrest := fun x hx => hcs x (List.mem_cons_of_mem c hx)
    by_cases hempty : c = ""
    · rw [List.filter_cons_of_neg (by simp [hempty])] at h ⊢
      rw [follow, if_pos hempty]
      exact ih hrest h
    · rw [List.filter_cons_of_pos (by simp [hempty]), List.append_cons, ← List.reverse_cons] at h ⊢
      have hdirectory : t.isDirectory stack.reverse = true := by
        refine h _ ?_ ?_
        · rw [List.reverse_cons, List.append_assoc]
          exact List.prefix_append _ _
        · intro heq
          have hlength := congrArg List.length heq
          simp at hlength
      rw [follow, if_neg hempty, hdirectory, if_neg hpoint, if_neg hup]
      simp only [Bool.not_true, Bool.false_eq_true, if_false]
      split
      · exact Or.inr rfl
      · exact ih hrest h

/-- A plain path to a place that can be reached leads there, unless it is too long. -/
theorem locate_of_reached {path : String} (hpath : Path.IsPlain path)
    (hnull : ¬path.toList.contains (Char.ofNat 0) = true) (henc : Text.encodable path = true)
    (h : t.Reached (Path.components path)) :
    t.locate path = .ok (Path.components path) ∨ t.locate path = .error .nameTooLong := by
  rw [locate, if_neg hnull, henc]
  simp only [Bool.not_true, Bool.false_eq_true, if_false]
  split
  · exact Or.inr rfl
  · rw [Path.components_of_isPlain hpath] at h ⊢
    exact follow_of_reached hpath.pieces h

end Rigging.FileTree
