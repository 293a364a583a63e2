import Rigging.Proofs.Path

/-!
# The way from one path to another

A normal path with a single slash in front is the path of its components (`IsNormal.eq_ofComponents`).
The way from one such path to another steps up to what both have in common and then down again, and its
steps lead there whatever names follow (`settle_way`).  So a name behind the way, put behind the first
path, is that name behind the second one (`normal_join_relative`).
-/

namespace Rigging.Path

/-- A normal path from the root that has a single slash in front. -/
structure IsNormal (p : String) : Prop where
  isAbsolute : isAbsolute p = true
  normal : normal p = p
  single : p.toList.take 2 ≠ ['/', '/']

/-! ### Normal paths and their components -/

section Slashes

variable {p : String}

theorem leadingSlashes_of_single (h : isAbsolute p = true) (hsingle : p.toList.take 2 ≠ ['/', '/']) :
    leadingSlashes p = "/" := by
  rw [isAbsolute, beq_iff_eq] at h
  obtain ⟨cs, hcs⟩ := List.head?_eq_some_iff.mp h
  rw [hcs] at hsingle
  have hnext : cs.takeWhile (· == '/') = [] := by
    cases cs with
    | nil => rfl
    | cons c cs =>
      refine List.takeWhile_cons_of_neg fun hc => hsingle ?_
      rw [beq_iff_eq.mp hc]
      rfl
  rw [leadingSlashes, hcs, List.takeWhile_cons_of_pos (by decide), hnext]
  rfl

theorem IsNormal.eq_ofComponents (h : IsNormal p) : p = ofComponents (components p) := by
  have hp := h.normal
  rw [normal_of_isAbsolute h.isAbsolute, leadingSlashes_of_single h.isAbsolute h.single] at hp
  exact hp.symm

theorem IsNormal.isPlain (h : IsNormal p) : IsPlain p :=
  h.normal ▸ (isPlain_normal h.isAbsolute).1

theorem IsNormal.absolute (h : IsNormal p) (cwd : String) : absolute cwd p = p := by
  rw [Path.absolute, join_of_isAbsolute h.isAbsolute, h.normal]

/-- What is put behind such a path adds no slash to its front. -/
theorem single_join (h : IsNormal p) {q : String} (hq : Path.isAbsolute q = false) :
    (join p q).toList.take 2 ≠ ['/', '/'] := by
  obtain ⟨cs, hcs⟩ := List.head?_eq_some_iff.mp (beq_iff_eq.mp h.isAbsolute)
  have hsingle := h.single
  rw [hcs] at hsingle
  rw [join, hq, if_neg Bool.false_ne_true]
  cases cs with
  | nil =>
    rw [if_pos (by simp [hcs]), String.toList_append, hcs]
    rw [Path.isAbsolute, beq_eq_false_iff_ne] at hq
    cases hqs : q.toList with
    | nil => simp
    | cons d ds =>
      rw [hqs] at hq
      simpa using hq
  | cons c cs =>
    split
    · rw [String.toList_append, hcs]
      exact hsingle
    · rw [String.append_assoc, String.toList_append, hcs]
      exact hsingle

end Slashes

/-- A path of names ends like the last of them. -/
theorem getLast?_ofComponents (cs : List String) {c : String} (hc : IsName c) :
    (ofComponents (cs ++ [c])).toList.getLast? ≠ some '/' := by
  obtain ⟨front, hfront⟩ : ∃ front, ofComponents (cs ++ [c]) = front ++ c := by
    by_cases hnil : cs = []
    · exact ⟨"/", by rw [hnil, ofComponents, List.nil_append, String.intercalate_singleton]⟩
    · refine ⟨"/" ++ (String.intercalate "/" cs ++ "/"), ?_⟩
      rw [ofComponents, String.intercalate_append_of_ne_nil hnil (List.cons_ne_nil _ _),
        String.intercalate_singleton, ← String.append_assoc]
  have hne : c.toList ≠ [] := fun h => hc.ne_empty (String.toList_eq_nil_iff.mp h)
  rw [hfront, String.toList_append, Text.getLast?_append_of_ne_nil _ hne]
  exact fun hlast => hc.noSlash (List.mem_of_getLast? hlast)

/-- A name behind a path of names. -/
theorem join_ofComponents {cs : List String} (hcs : ∀ c ∈ cs, IsName c) {c : String} (hc : IsName c) :
    join (ofComponents cs) c = ofComponents (cs ++ [c]) := by
  rw [join, hc.not_isAbsolute, if_neg Bool.false_ne_true]
  rcases List.eq_nil_or_concat cs with rfl | ⟨ds, d, rfl⟩
  · rfl
  · rw [List.concat_eq_append] at hcs ⊢
    have hlast := getLast?_ofComponents ds (hcs d (by simp))
    have hne : ofComponents (ds ++ [d]) ≠ "" := by
      intro hempty
      have hlist := congrArg String.toList hempty
      rw [ofComponents, String.toList_append] at hlist
      cases hlist
    have htext : String.intercalate "/" (ds ++ [d] ++ [c]) =
        String.intercalate "/" (ds ++ [d]) ++ "/" ++ c := by
      rw [String.intercalate_append_of_ne_nil (by simp) (List.cons_ne_nil _ _),
        String.intercalate_singleton]
    rw [if_neg (by simp [hne, hlast]), ofComponents, ofComponents, htext, ← String.append_assoc,
      ← String.append_assoc]

/-! ### Steps up -/

theorem settle_ups (n : Nat) {stack cs : List String} (hstack : ".." ∉ stack) :
    settle true stack (List.replicate n ".." ++ cs) = settle true (stack.drop n) cs := by
  induction n generalizing stack with
  | zero => rfl
  | succ n ih =>
    have hhead : stack.head? ≠ some ".." := fun h => hstack (List.mem_of_mem_head? h)
    rw [List.replicate_succ, List.cons_append, settle_up hhead,
      ih fun h => hstack (List.mem_of_mem_tail h), List.drop_tail]

theorem take_commonLength (as bs : List String) :
    as.take (commonLength as bs) = bs.take (commonLength as bs) := by
  fun_induction commonLength as bs with
  | case1 a as bs ih => rw [List.take_succ_cons, List.take_succ_cons, ih]
  | case2 => rfl
  | case3 => rfl

/-! ### The way -/

/-- The steps of the way from one list of components to another. -/
def way (ps ss : List String) : List String :=
  List.replicate (ss.length - commonLength ps ss) ".." ++ ps.drop (commonLength ps ss)

/-- **The steps of the way lead there**, and on along what follows. -/
theorem settle_way {ps ss cs : List String} (hps : ∀ c ∈ ps, IsName c) (hss : ∀ c ∈ ss, IsName c)
    (hcs : ∀ c ∈ cs, IsName c) : settle true ss.reverse (way ps ss ++ cs) = ps ++ cs := by
  have hup : ".." ∉ ss.reverse := fun h => (hss _ (List.mem_reverse.mp h)).ne_up rfl
  have hcommon : ss.reverse.drop (ss.length - commonLength ps ss) =
      (ps.take (commonLength ps ss)).reverse := by
    rw [take_commonLength, List.reverse_take]
  have hnames : ∀ c ∈ ps.drop (commonLength ps ss) ++ cs, IsName c := by
    intro c hc
    rcases List.mem_append.mp hc with hc | hc
    · exact hps c (List.mem_of_mem_drop hc)
    · exact hcs c hc
  have hkept : (ps.drop (commonLength ps ss) ++ cs).filter (· != "") =
      ps.drop (commonLength ps ss) ++ cs :=
    List.filter_eq_self.mpr fun c hc => by simpa using (hnames c hc).ne_empty
  rw [way, List.append_assoc, settle_ups _ hup, hcommon,
    settle_of_noPoints fun c hc => ⟨(hnames c hc).ne_point, (hnames c hc).ne_up⟩, hkept,
    List.reverse_reverse, ← List.append_assoc, List.take_append_drop]

theorem relative_eq (p q : String) : relative p q =
    if (way (components p) (components q)).isEmpty then "."
    else String.intercalate "/" (way (components p) (components q)) := rfl

/-- The text of the way has the same pieces as its steps, or a single point for no steps. -/
theorem settle_pieces_relative (p q : String) (stack cs : List String) :
    settle true stack (pieces (relative p q) ++ cs) =
      settle true stack (way (components p) (components q) ++ cs) := by
  rw [relative_eq]
  split
  · rename_i hempty
    rw [List.isEmpty_iff.mp hempty]
    exact settle_skip (.inr rfl)
  · rename_i hne
    rw [pieces_intercalate (fun h => hne (List.isEmpty_iff.mpr h))]
    intro c hc
    rcases List.mem_append.mp hc with hc | hc
    · rw [List.eq_of_mem_replicate hc]
      decide
    · exact (isName_of_mem_components (List.mem_of_mem_drop hc)).noSlash

/-- **The way to a name in another directory**, put behind a path and made normal, is that name behind
the other path. -/
theorem normal_join_relative {p q name : String} (hp : IsNormal p) (hq : IsNormal q)
    (hname : IsName name) :
    normal (join q ("./" ++ relative p q ++ "/" ++ name)) = join p name := by
  have htext : "./" ++ relative p q ++ "/" ++ name = "." ++ "/" ++ (relative p q ++ "/" ++ name) := by
    simp only [← String.append_assoc]
    rfl
  have hrelative : isAbsolute ("." ++ "/" ++ (relative p q ++ "/" ++ name)) = false := by
    rw [isAbsolute, String.toList_append, String.toList_append]
    rfl
  have hcomponents : components (join q ("." ++ "/" ++ (relative p q ++ "/" ++ name))) =
      components p ++ [name] := by
    rw [components_join_of_relative q hrelative, pieces_append_slash, pieces_append_slash,
      pieces_of_noSlash (show '/' ∉ ".".toList by decide), pieces_of_noSlash hname.noSlash,
      List.singleton_append, settle_skip (.inr rfl), settle_pieces_relative,
      settle_way (fun _ => isName_of_mem_components) (fun _ => isName_of_mem_components)
        (List.forall_mem_singleton.mpr hname)]
  rw [htext, normal_of_isAbsolute (isAbsolute_join hq.isAbsolute _), hcomponents,
    leadingSlashes_of_single (isAbsolute_join hq.isAbsolute _) (single_join hq hrelative), ← ofComponents,
    ← join_ofComponents (fun _ => isName_of_mem_components) hname, ← hp.eq_ofComponents]

end Rigging.Path
