import Rigging.Declaration.Output
import Rigging.Proofs.Text.Blank

/-!
# Normal paths

A plain path starts at the root and has neither single points nor steps up among its pieces, so its
components are its pieces without the empty ones (`components_of_isPlain`).  Every path that a
configuration is made of is plain, and a name behind a path is one component more
(`components_join`).  A real path holds another one exactly if its components are the first of the
other's (`holds_real`).
-/

namespace Rigging.Path

/-- A name of a file or a directory. -/
structure IsName (c : String) : Prop where
  ne_empty : c ≠ ""
  ne_point : c ≠ "."
  ne_up : c ≠ ".."
  noSlash : '/' ∉ c.toList

instance (c : String) : Decidable (IsName c) :=
  decidable_of_iff (c ≠ "" ∧ c ≠ "." ∧ c ≠ ".." ∧ '/' ∉ c.toList)
    ⟨fun h => ⟨h.1, h.2.1, h.2.2.1, h.2.2.2⟩, fun h => ⟨h.ne_empty, h.ne_point, h.ne_up, h.noSlash⟩⟩

/-- An absolute path without points and steps up. -/
structure IsPlain (p : String) : Prop where
  isAbsolute : isAbsolute p = true
  pieces : ∀ c ∈ pieces p, c ≠ "." ∧ c ≠ ".."

/-! ### Pieces -/

theorem pieces_append_slash (p q : String) : pieces (p ++ "/" ++ q) = pieces p ++ pieces q := by
  have hsplit : (p ++ "/" ++ q).toList = p.toList ++ '/' :: q.toList := by
    rw [String.toList_append, String.toList_append, List.append_assoc]
    rfl
  rw [pieces, hsplit, List.splitOnP_append_cons _ _ (by decide), List.map_append]
  rfl

theorem splitOnP_of_noSlash {cs : List Char} (h : '/' ∉ cs) : cs.splitOnP (· == '/') = [cs] := by
  refine List.splitOnP_eq_singleton fun x hx => ?_
  rw [beq_eq_false_iff_ne]
  rintro rfl
  exact h hx

theorem pieces_of_noSlash {c : String} (h : '/' ∉ c.toList) : pieces c = [c] := by
  rw [pieces, splitOnP_of_noSlash h, List.map_singleton, String.ofList_toList]

/-- A text that ends without a slash has its end in its last piece. -/
theorem exists_pieces_concat {p : String} {cs : List Char} (hcs : '/' ∉ cs) (h : cs <:+ p.toList) :
    ∃ front c, pieces p = front ++ [c] ∧ cs <:+ c.toList := by
  have hsplit : ∀ ds : List Char, ∃ front last, (ds ++ cs).splitOnP (· == '/') = front ++ [last] ∧
      cs <:+ last := by
    intro ds
    induction ds with
    | nil => exact ⟨[], cs, splitOnP_of_noSlash hcs, List.suffix_rfl⟩
    | cons d ds ih =>
      obtain ⟨front, last, hlast, hsuffix⟩ := ih
      rw [List.cons_append, List.splitOnP_cons_eq_if_modifyHead, hlast]
      split
      · exact ⟨[] :: front, last, rfl, hsuffix⟩
      · cases front with
        | nil => exact ⟨[], d :: last, rfl, hsuffix.trans (List.suffix_cons _ _)⟩
        | cons f front => exact ⟨(d :: f) :: front, last, rfl, hsuffix⟩
  obtain ⟨ds, hds⟩ := h
  obtain ⟨front, last, hlast, hsuffix⟩ := hsplit ds
  refine ⟨front.map String.ofList, String.ofList last, ?_, ?_⟩
  · rw [pieces, ← hds, hlast, List.map_append]
    rfl
  · rwa [String.toList_ofList]

theorem noSlash_of_mem_pieces {p c : String} (h : c ∈ pieces p) : '/' ∉ c.toList := by
  have hall : ∀ cs : List Char, ∀ l ∈ cs.splitOnP (· == '/'), '/' ∉ l := by
    intro cs
    induction cs with
    | nil =>
      intro l hl
      rw [List.splitOnP_nil, List.mem_singleton] at hl
      rw [hl]
      exact List.not_mem_nil
    | cons x cs ih =>
      intro l hl
      rw [List.splitOnP_cons_eq_if_modifyHead] at hl
      split at hl
      · rcases List.mem_cons.mp hl with rfl | hl
        · exact List.not_mem_nil
        · exact ih l hl
      · rename_i hx
        obtain ⟨first, rest, hrest⟩ :=
          List.exists_cons_of_ne_nil (List.splitOnP_ne_nil (· == '/') cs)
        rw [hrest] at hl ih
        rcases List.mem_cons.mp hl with rfl | hl
        · intro hmem
          rcases List.mem_cons.mp hmem with rfl | hmem
          · exact hx (beq_self_eq_true _)
          · exact ih first List.mem_cons_self hmem
        · exact ih l (List.mem_cons_of_mem _ hl)
  obtain ⟨l, hl, rfl⟩ := List.mem_map.mp h
  rw [String.toList_ofList]
  exact hall _ l hl

theorem pieces_intercalate {cs : List String} (hne : cs ≠ []) (h : ∀ c ∈ cs, '/' ∉ c.toList) :
    pieces (String.intercalate "/" cs) = cs := by
  induction cs with
  | nil => exact absurd rfl hne
  | cons c cs ih =>
    cases cs with
    | nil => rw [String.intercalate_singleton, pieces_of_noSlash (h c List.mem_cons_self)]
    | cons d cs =>
      rw [String.intercalate_cons_cons, pieces_append_slash,
        pieces_of_noSlash (h c List.mem_cons_self),
        ih (List.cons_ne_nil _ _) fun x hx => h x (List.mem_cons_of_mem _ hx)]
      rfl

/-! ### Settling -/

section Settle

variable {c : String} {cs stack : List String}

theorem settle_skip (h : c = "" ∨ c = ".") : settle true stack (c :: cs) = settle true stack cs := by
  rw [settle.eq_def]
  dsimp only
  rw [if_pos (by simpa using h)]

theorem settle_name (hempty : c ≠ "") (hpoint : c ≠ ".") (hup : c ≠ "..") :
    settle true stack (c :: cs) = settle true (c :: stack) cs := by
  rw [settle.eq_def]
  dsimp only
  rw [if_neg (by simp [hempty, hpoint]), if_neg hup]

/-- A step up from the root leads nowhere. -/
theorem settle_up (h : stack.head? ≠ some "..") :
    settle true stack (".." :: cs) = settle true stack.tail cs := by
  rw [settle.eq_def]
  dsimp only
  rw [if_neg (by decide), if_pos rfl]
  cases stack with
  | nil => rfl
  | cons top below =>
    have htop : top ≠ ".." := fun heq => h (by rw [heq]; rfl)
    exact if_neg htop

theorem settle_of_noPoints (h : ∀ c ∈ cs, c ≠ "." ∧ c ≠ "..") :
    settle true stack cs = stack.reverse ++ cs.filter (· != "") := by
  induction cs generalizing stack with
  | nil => exact (List.append_nil _).symm
  | cons c cs ih =>
    obtain ⟨hpoint, hup⟩ := h c List.mem_cons_self
    have hrest := fun x hx => h x (List.mem_cons_of_mem c hx)
    by_cases hempty : c = ""
    · rw [settle_skip (Or.inl hempty), ih hrest, List.filter_cons_of_neg (by simp [hempty])]
    · rw [settle_name hempty hpoint hup, ih hrest, List.filter_cons_of_pos (by simp [hempty]),
        List.reverse_cons, List.append_assoc]
      rfl

theorem isName_of_mem_settle (h : ∀ c ∈ cs, '/' ∉ c.toList) (hstack : ∀ c ∈ stack, IsName c) :
    ∀ c ∈ settle true stack cs, IsName c := by
  induction cs generalizing stack with
  | nil => exact fun c hc => hstack c (List.mem_reverse.mp hc)
  | cons c cs ih =>
    have hrest := fun x hx => h x (List.mem_cons_of_mem c hx)
    by_cases hskip : c = "" ∨ c = "."
    · rw [settle_skip hskip]
      exact ih hrest hstack
    · rw [not_or] at hskip
      by_cases hup : c = ".."
      · have hhead : stack.head? ≠ some ".." :=
          fun hmem => (hstack _ (List.mem_of_mem_head? hmem)).ne_up rfl
        rw [hup, settle_up hhead]
        exact ih hrest fun x hx => hstack x (List.mem_of_mem_tail hx)
      · rw [settle_name hskip.1 hskip.2 hup]
        refine ih hrest fun x hx => ?_
        rcases List.mem_cons.mp hx with rfl | hx
        · exact ⟨hskip.1, hskip.2, hup, h x List.mem_cons_self⟩
        · exact hstack x hx

/-- Pieces are settled one after the other. -/
theorem settle_append (stack as bs : List String) :
    settle true stack (as ++ bs) = settle true (settle true stack as).reverse bs := by
  fun_induction settle true stack as <;> simp_all [settle]

end Settle

theorem components_of_isPlain {p : String} (h : IsPlain p) :
    components p = (pieces p).filter (· != "") :=
  settle_of_noPoints h.pieces

theorem isName_of_mem_components {p c : String} (h : c ∈ components p) : IsName c :=
  isName_of_mem_settle (fun _ hx => noSlash_of_mem_pieces hx) (fun _ hx => by cases hx) c h

/-! ### Normal paths -/

/-- Names behind one or two slashes. -/
theorem isPlain_rooted {front : String} (hfront : front = "/" ∨ front = "//") {cs : List String}
    (h : ∀ c ∈ cs, IsName c) :
    IsPlain (front ++ String.intercalate "/" cs) ∧
      components (front ++ String.intercalate "/" cs) = cs := by
  obtain ⟨slashes, hslashes, hpieces⟩ : ∃ slashes : List String, (∀ c ∈ slashes, c = "") ∧
      pieces (front ++ String.intercalate "/" cs) = slashes ++ cs := by
    have hinner : ∃ slashes : List String, (∀ c ∈ slashes, c = "") ∧
        pieces (String.intercalate "/" cs) = slashes ++ cs := by
      by_cases hnil : cs = []
      · exact ⟨[""], fun c hc => List.mem_singleton.mp hc, by rw [hnil]; rfl⟩
      · exact ⟨[], fun c hc => (nomatch hc), pieces_intercalate hnil fun c hc => (h c hc).noSlash⟩
    obtain ⟨slashes, hempty, hpieces⟩ := hinner
    rcases hfront with rfl | rfl
    · have hsplit : "/" ++ String.intercalate "/" cs = "" ++ "/" ++ String.intercalate "/" cs := rfl
      refine ⟨"" :: slashes, ?_, ?_⟩
      · exact fun c hc => (List.mem_cons.mp hc).elim id (hempty c)
      · rw [hsplit, pieces_append_slash, hpieces]
        rfl
    · have hsplit : "//" ++ String.intercalate "/" cs =
          "/" ++ "/" ++ String.intercalate "/" cs := rfl
      refine ⟨"" :: "" :: slashes, ?_, ?_⟩
      · intro c hc
        rcases List.mem_cons.mp hc with rfl | hc
        · rfl
        · exact (List.mem_cons.mp hc).elim id (hempty c)
      · rw [hsplit, pieces_append_slash, hpieces]
        rfl
  have hplain : IsPlain (front ++ String.intercalate "/" cs) := by
    refine ⟨?_, fun c hc => ?_⟩
    · rw [isAbsolute, String.toList_append]
      rcases hfront with rfl | rfl <;> rfl
    · rw [hpieces] at hc
      rcases List.mem_append.mp hc with hc | hc
      · rw [hslashes c hc]
        decide
      · exact ⟨(h c hc).ne_point, (h c hc).ne_up⟩
  refine ⟨hplain, ?_⟩
  have hnone : slashes.filter (· != "") = [] :=
    List.filter_eq_nil_iff.mpr fun c hc => by simp [hslashes c hc]
  have hall : cs.filter (· != "") = cs :=
    List.filter_eq_self.mpr fun c hc => by simp [(h c hc).ne_empty]
  rw [components_of_isPlain hplain, hpieces, List.filter_append, hnone, hall, List.nil_append]

theorem leadingSlashes_of_isAbsolute {p : String} (h : isAbsolute p = true) :
    leadingSlashes p = "/" ∨ leadingSlashes p = "//" := by
  rw [isAbsolute, beq_iff_eq] at h
  obtain ⟨cs, hcs⟩ := List.head?_eq_some_iff.mp h
  rw [leadingSlashes, hcs, List.takeWhile_cons_of_pos (by decide), List.length_cons]
  split
  · rename_i heq
    cases heq
  · exact Or.inr rfl
  · exact Or.inl rfl

/-- A normal path from the root is its components behind its slashes. -/
theorem normal_of_isAbsolute {p : String} (h : isAbsolute p = true) :
    normal p = leadingSlashes p ++ String.intercalate "/" (components p) := by
  have hfront := leadingSlashes_of_isAbsolute h
  have hrooted : (leadingSlashes p != "") = true := by
    rcases hfront with hfront | hfront <;> rw [hfront] <;> decide
  have hne : leadingSlashes p ++ String.intercalate "/" (components p) ≠ "" := by
    intro hempty
    have hlist := congrArg String.toList hempty
    rw [String.toList_append] at hlist
    rcases hfront with hfront | hfront <;> rw [hfront] at hlist <;> cases hlist
  simp only [normal, hrooted]
  exact if_neg hne

/-- **A normal path is plain** and has the components of the path. -/
theorem isPlain_normal {p : String} (h : isAbsolute p = true) :
    IsPlain (normal p) ∧ components (normal p) = components p := by
  rw [normal_of_isAbsolute h]
  exact isPlain_rooted (leadingSlashes_of_isAbsolute h) fun c hc => isName_of_mem_components hc

theorem join_of_isAbsolute {q : String} (h : isAbsolute q = true) (p : String) : join p q = q := by
  rw [join, if_pos h]

theorem isAbsolute_join {cwd : String} (h : isAbsolute cwd = true) (p : String) :
    isAbsolute (join cwd p) = true := by
  have hhead : ∀ q : String, isAbsolute (cwd ++ q) = true := by
    intro q
    rw [isAbsolute, beq_iff_eq] at h ⊢
    obtain ⟨cs, hcs⟩ := List.head?_eq_some_iff.mp h
    rw [String.toList_append, hcs]
    rfl
  unfold join
  split
  · assumption
  · split
    · exact hhead p
    · rw [String.append_assoc]
      exact hhead _

theorem isPlain_absolute {cwd : String} (h : isAbsolute cwd = true) (p : String) :
    IsPlain (absolute cwd p) :=
  (isPlain_normal (isAbsolute_join h p)).1

/-! ### A name behind a path -/

theorem IsName.not_isAbsolute {c : String} (h : IsName c) : isAbsolute c = false := by
  rw [isAbsolute, beq_eq_false_iff_ne]
  exact fun hhead => h.noSlash (List.mem_of_mem_head? hhead)

/-- Behind a path stand the pieces of what is joined to it; an empty piece that the path ends with
goes. -/
theorem exists_pieces_join (p : String) : ∃ front : List String,
    (pieces p = front ∨ pieces p = front ++ [""]) ∧
      ∀ q, isAbsolute q = false → pieces (join p q) = front ++ pieces q := by
  by_cases hempty : p = ""
  · refine ⟨[], .inr (by rw [hempty]; rfl), fun q hq => ?_⟩
    rw [join, hq, if_neg Bool.false_ne_true, if_pos (by rw [hempty]; rfl), hempty, String.empty_append]
    rfl
  by_cases hlast : p.toList.getLast? = some '/'
  · obtain ⟨cs, hcs⟩ := List.getLast?_eq_some_iff.mp hlast
    have hp : p = String.ofList cs ++ "/" := by
      rw [← String.toList_inj, String.toList_append, String.toList_ofList, hcs]
      rfl
    refine ⟨pieces (String.ofList cs), .inr ?_, fun q hq => ?_⟩
    · rw [hp, ← String.append_empty (s := String.ofList cs ++ "/"), pieces_append_slash]
      rfl
    · rw [join, hq, if_neg Bool.false_ne_true, if_pos (by simp [hlast]), hp, pieces_append_slash]
  · refine ⟨pieces p, .inl rfl, fun q hq => ?_⟩
    rw [join, hq, if_neg Bool.false_ne_true, if_neg (by simp [hempty, hlast]), pieces_append_slash]

/-- A relative path behind another is settled from the components of that one. -/
theorem components_join_of_relative (p : String) {q : String} (hq : isAbsolute q = false) :
    components (join p q) = settle true (components p).reverse (pieces q) := by
  obtain ⟨front, hfront, hjoin⟩ := exists_pieces_join p
  have hp : components p = settle true [] front := by
    rcases hfront with h | h
    · rw [components, h]
    · rw [components, h, settle_append, settle_skip (.inl rfl), settle, List.reverse_reverse]
  rw [hp, components, hjoin q hq, settle_append]

/-- **A name behind a path** is one component more. -/
theorem components_join (p : String) {c : String} (hc : IsName c) :
    components (join p c) = components p ++ [c] := by
  rw [components_join_of_relative p hc.not_isAbsolute, pieces_of_noSlash hc.noSlash,
    settle_name hc.ne_empty hc.ne_point hc.ne_up, settle, List.reverse_cons, List.reverse_reverse]

/-- A name behind a plain path makes a plain path. -/
theorem isPlain_join {p c : String} (hp : IsPlain p) (hc : IsName c) :
    IsPlain (join p c) ∧ components (join p c) = components p ++ [c] := by
  refine ⟨⟨isAbsolute_join hp.isAbsolute c, fun x hx => ?_⟩, components_join p hc⟩
  obtain ⟨front, hfront, hjoin⟩ := exists_pieces_join p
  rw [hjoin c hc.not_isAbsolute, pieces_of_noSlash hc.noSlash] at hx
  rcases List.mem_append.mp hx with hx | hx
  · refine hp.pieces x ?_
    rcases hfront with h | h
    · rw [h]
      exact hx
    · rw [h]
      exact List.mem_append_left _ hx
  · rw [List.mem_singleton.mp hx]
    exact ⟨hc.ne_point, hc.ne_up⟩

/-! ### Containment -/

theorem take_commonLength_eq_iff {as bs : List String} :
    as.take (commonLength as bs) = bs ↔ bs <+: as := by
  fun_induction commonLength as bs with
  | case1 a as bs ih => rw [List.take_succ_cons, List.cons_inj_right, ih, List.prefix_cons_inj]
  | case2 a as b bs hne =>
    refine iff_of_false (List.cons_ne_nil b bs).symm fun h => hne ?_
    exact (List.cons_prefix_cons.mp h).1.symm
  | case3 as bs hnil =>
    cases bs with
    | nil => exact iff_of_true rfl List.nil_prefix
    | cons b bs =>
      cases as with
      | nil => simp
      | cons a as => exact absurd rfl (hnil a as b bs rfl)

section Names

variable {cs ds : List String} (hcs : ∀ c ∈ cs, IsName c) (hds : ∀ c ∈ ds, IsName c)

include hcs

theorem components_ofComponents : components (ofComponents cs) = cs :=
  (isPlain_rooted (Or.inl rfl) hcs).2

theorem steps_ofComponents : steps (ofComponents cs) = cs := by
  have hplain : IsPlain (ofComponents cs) := (isPlain_rooted (Or.inl rfl) hcs).1
  have hsteps : steps (ofComponents cs) = components (ofComponents cs) := by
    rw [components_of_isPlain hplain, steps]
    refine List.filter_congr fun c hc => ?_
    simp [(hplain.pieces c hc).1]
  rw [hsteps, components_ofComponents hcs]

include hds

theorem ofComponents_inj : ofComponents cs = ofComponents ds ↔ cs = ds := by
  refine ⟨fun h => ?_, fun h => by rw [h]⟩
  rw [← components_ofComponents hcs, h, components_ofComponents hds]

/-- A path of names holds those that go on from it. -/
theorem holds_ofComponents : holds (ofComponents ds) (ofComponents cs) = true ↔ ds <+: cs := by
  have htake : ∀ c ∈ cs.take (commonLength cs ds), IsName c :=
    fun c hc => hcs c (List.mem_of_mem_take hc)
  rw [holds, decide_eq_true_eq, common, steps_ofComponents hcs, steps_ofComponents hds,
    ofComponents_inj htake hds, take_commonLength_eq_iff]

end Names

/-- **A real path holds another** if its components are the first ones of the other. -/
theorem holds_real (cwd p q : String) : holds (real cwd p) (real cwd q) = true ↔
    components (join cwd p) <+: components (join cwd q) :=
  holds_ofComponents (fun _ hc => isName_of_mem_components hc) fun _ hc => isName_of_mem_components hc

theorem real_inj {cwd p q : String} : real cwd p = real cwd q ↔
    components (join cwd p) = components (join cwd q) :=
  ofComponents_inj (fun _ hc => isName_of_mem_components hc) fun _ hc => isName_of_mem_components hc

/-! ### Characters -/

theorem mem_of_mem_pieces {p c : String} {x : Char} (hc : c ∈ pieces p) (hx : x ∈ c.toList) :
    x ∈ p.toList := by
  have hsplit : ∀ cs : List Char, ∀ l ∈ cs.splitOnP (· == '/'), x ∈ l → x ∈ cs := by
    intro cs
    induction cs with
    | nil =>
      intro l hl hmem
      rw [List.splitOnP_nil, List.mem_singleton] at hl
      exact hl ▸ hmem
    | cons d cs ih =>
      intro l hl hmem
      rw [List.splitOnP_cons_eq_if_modifyHead] at hl
      split at hl
      · rcases List.mem_cons.mp hl with rfl | hl
        · exact nomatch hmem
        · exact List.mem_cons_of_mem _ (ih l hl hmem)
      · obtain ⟨first, rest, hrest⟩ :=
          List.exists_cons_of_ne_nil (List.splitOnP_ne_nil (· == '/') cs)
        rw [hrest] at hl ih
        rcases List.mem_cons.mp hl with rfl | hl
        · rcases List.mem_cons.mp hmem with rfl | hmem
          · exact List.mem_cons_self
          · exact List.mem_cons_of_mem _ (ih first List.mem_cons_self hmem)
        · exact List.mem_cons_of_mem _ (ih l (List.mem_cons_of_mem _ hl) hmem)
  obtain ⟨l, hl, rfl⟩ := List.mem_map.mp hc
  rw [String.toList_ofList] at hx
  exact hsplit _ l hl hx

theorem mem_of_mem_settle {c : String} {stack cs : List String} (h : c ∈ settle true stack cs) :
    c ∈ stack ∨ c ∈ cs := by
  fun_induction settle true stack cs <;> grind

/-- The characters of components behind slashes are slashes and those of the path. -/
theorem mem_rooted {front p : String} (hfront : front = "/" ∨ front = "//") {x : Char}
    (h : x ∈ (front ++ String.intercalate "/" (components p)).toList) : x = '/' ∨ x ∈ p.toList := by
  have hslash : ∀ y ∈ front.toList, y = '/' := by
    rcases hfront with rfl | rfl <;> decide
  rw [String.toList_append, String.toList_intercalate] at h
  rcases List.mem_append.mp h with h | h
  · exact .inl (hslash x h)
  · rcases Text.mem_intercalate h with h | ⟨cs, hcs, hx⟩
    · exact .inl (List.mem_singleton.mp h)
    · obtain ⟨c, hc, rfl⟩ := List.mem_map.mp hcs
      refine .inr (mem_of_mem_pieces ((mem_of_mem_settle hc).resolve_left ?_) hx)
      exact List.not_mem_nil

theorem mem_join {p q : String} {x : Char} (h : x ∈ (join p q).toList) :
    x = '/' ∨ x ∈ p.toList ∨ x ∈ q.toList := by
  unfold join at h
  split at h
  · exact .inr (.inr h)
  · split at h
    · rw [String.toList_append, List.mem_append] at h
      exact .inr h
    · rw [String.toList_append, String.toList_append, List.mem_append, List.mem_append] at h
      rcases h with (h | h) | h
      · exact .inr (.inl h)
      · exact .inl (List.mem_singleton.mp h)
      · exact .inr (.inr h)

theorem mem_normal {p : String} (hp : isAbsolute p = true) {x : Char} (h : x ∈ (normal p).toList) :
    x = '/' ∨ x ∈ p.toList := by
  rw [normal_of_isAbsolute hp] at h
  exact mem_rooted (leadingSlashes_of_isAbsolute hp) h

theorem child_eq_join (directory : String) {c : String} (hc : IsName c) :
    child directory c = join directory c := by
  have hsteps : steps c = [c] := by
    rw [steps, pieces_of_noSlash hc.noSlash]
    simp [hc.ne_empty, hc.ne_point]
  rw [child, hc.not_isAbsolute, if_neg Bool.false_ne_true, hsteps, String.intercalate_singleton]

end Rigging.Path
