import Mathlib.Data.List.Infix
import Rigging.Proofs.Doc.Name
import Rigging.Proofs.Union

/-!
# Reading a type step by step

`readAt` has fuel for the depth of a type.  Every step takes characters away, so any fuel above the
length of the text gives the same type, and reading is the recursion that `readChars_eq` spells out:
one step of `readStep` with reading itself for what stands inside.

From there come the laws of reading, one for each way to put a text together.  Blanks around a text
do not matter, a rest mark is passed over, and a promise is read member by member.  An array mark is
read outside of any rest marks, although those are looked for first (`readChars_array`): `...T[]` is
an array of what `...T` is.
-/

namespace Rigging.TypeExpr

open Rigging.Text

/-! ### The shapes that are looked for -/

theorem isOneLine_iff {cs : List Char} : isOneLine cs = true ↔ '\n' ∉ cs := by
  rw [isOneLine, Bool.not_eq_true', ← Bool.not_eq_true, List.contains_iff_mem]

theorem after?_append (start : String) (cs : List Char) :
    after? start (start.toList ++ cs) = some cs := by
  rw [after?, if_pos (List.isPrefixOf_iff_prefix.mpr (List.prefix_append _ _)),
    ← String.length_toList, List.drop_left]

theorem before?_append (stop : String) (cs : List Char) :
    before? stop (cs ++ stop.toList) = some cs := by
  have hlen : (cs ++ stop.toList).length - stop.length = cs.length := by
    rw [List.length_append, String.length_toList, Nat.add_sub_cancel]
  rw [before?, if_pos (List.isSuffixOf_iff_suffix.mpr (List.suffix_append _ _)), hlen,
    List.take_left]

theorem after?_eq_some_iff {start : String} {cs rest : List Char} :
    after? start cs = some rest ↔ cs = start.toList ++ rest := by
  constructor
  · intro h
    unfold after? at h
    split at h
    · rename_i hstart
      obtain ⟨tail, rfl⟩ := List.isPrefixOf_iff_prefix.mp hstart
      rw [← String.length_toList, List.drop_left] at h
      rw [Option.some.inj h]
    · cases h
  · rintro rfl
    exact after?_append start rest

theorem before?_eq_some_iff {stop : String} {cs front : List Char} :
    before? stop cs = some front ↔ cs = front ++ stop.toList := by
  constructor
  · intro h
    unfold before? at h
    split at h
    · rename_i hstop
      obtain ⟨head, rfl⟩ := List.isSuffixOf_iff_suffix.mp hstop
      rw [List.length_append, String.length_toList, Nat.add_sub_cancel, List.take_left] at h
      rw [Option.some.inj h]
    · cases h
  · rintro rfl
    exact before?_append stop front

theorem restInner?_eq_some_iff {cs inner : List Char} :
    restInner? cs = some inner ↔ cs = "...".toList ++ inner ∧ inner ≠ [] ∧ '\n' ∉ inner := by
  rw [restInner?, Option.filter_eq_some_iff, after?_eq_some_iff, Bool.and_eq_true,
    Bool.not_eq_true', List.isEmpty_eq_false_iff, isOneLine_iff]

theorem arrayInner?_eq_some_iff {cs inner : List Char} :
    arrayInner? cs = some inner ↔ cs = inner ++ "[]".toList ∧ inner ≠ [] ∧ '\n' ∉ inner := by
  rw [arrayInner?, Option.filter_eq_some_iff, before?_eq_some_iff, Bool.and_eq_true,
    Bool.not_eq_true', List.isEmpty_eq_false_iff, isOneLine_iff]

theorem promiseInner?_eq_some_iff {cs inner : List Char} :
    promiseInner? cs = some inner ↔
      cs = "Promise<".toList ++ (inner ++ ">".toList) ∧ '\n' ∉ inner := by
  simp only [promiseInner?, Option.bind_eq_bind, Option.bind_eq_some_iff, after?_eq_some_iff,
    before?_eq_some_iff, Option.ite_none_right_eq_some, isOneLine_iff, Option.some.injEq]
  constructor
  · rintro ⟨_, rfl, _, rfl, hone, rfl⟩
    exact ⟨rfl, hone⟩
  · rintro ⟨rfl, hone⟩
    exact ⟨_, rfl, _, rfl, hone, rfl⟩

theorem toList_instanceName (model : String) :
    (instanceName model).toList = '$' :: (model.toList ++ "Instance".toList) := by
  rw [instanceName, String.toList_append, String.toList_append]
  rfl

theorem toList_promise (ss : List String) :
    ("Promise<" ++ Union.join ss ++ ">").toList =
      "Promise<".toList ++ (['|'].intercalate (ss.map String.toList) ++ ">".toList) := by
  rw [String.toList_append, String.toList_append, Union.toList_join, List.append_assoc]

theorem instanceModel?_eq_some_iff {cs : List Char} {model : String} :
    instanceModel? cs = some model ↔
      cs = (instanceName model).toList ∧ isName model.toList = true := by
  simp only [instanceModel?, Option.bind_eq_bind, Option.bind_eq_some_iff, after?_eq_some_iff,
    before?_eq_some_iff, Option.ite_none_right_eq_some, Option.some.injEq, toList_instanceName]
  constructor
  · rintro ⟨_, rfl, name, rfl, hname, rfl⟩
    simp only [String.toList_ofList]
    exact ⟨rfl, hname⟩
  · rintro ⟨rfl, hname⟩
    exact ⟨_, rfl, model.toList, rfl, hname, String.ofList_toList⟩

/-! ### Reading without fuel -/

/-- What a trimmed text is when it is none of the shapes with something inside. -/
def readLeaf (cs : List Char) : TypeExpr :=
  match instanceModel? cs with
  | some model => instanceOf model
  | none => (keywords.lookup (String.ofList cs)).getD any

/-- What a trimmed text is, when what stands inside it is read by `inside`. -/
def readStep (inside : List Char → TypeExpr) (cs : List Char) : TypeExpr :=
  match restInner? cs with
  | some inner => inside inner
  | none =>
    match arrayInner? cs with
    | some inner => array (inside inner)
    | none =>
      match promiseInner? cs with
      | some inner => promise ((Union.members inner).map inside)
      | none => readLeaf cs

theorem readAt_succ (fuel : Nat) (cs : List Char) :
    readAt (fuel + 1) cs = readStep (readAt fuel) (trimChars cs) := rfl

/-- A step reads shorter texts only. -/
theorem readStep_congr {f g : List Char → TypeExpr} {cs : List Char}
    (h : ∀ ds, ds.length < cs.length → f ds = g ds) : readStep f cs = readStep g cs := by
  unfold readStep
  cases hrest : restInner? cs with
  | some inner =>
    obtain ⟨hcs, -⟩ := restInner?_eq_some_iff.mp hrest
    exact h inner (by simp [hcs]; omega)
  | none =>
    cases harray : arrayInner? cs with
    | some inner =>
      obtain ⟨hcs, -⟩ := arrayInner?_eq_some_iff.mp harray
      exact congrArg array (h inner (by simp [hcs]))
    | none =>
      cases hpromise : promiseInner? cs with
      | some inner =>
        obtain ⟨hcs, -⟩ := promiseInner?_eq_some_iff.mp hpromise
        refine congrArg promise (List.map_congr_left fun m hm => h m ?_)
        have hle := (Union.infix_of_mem_members hm).length_le
        have hlt : inner.length < cs.length := by
          simp only [hcs, List.length_append]
          have : 0 < ">".toList.length := by decide
          omega
        omega
      | none => rfl

theorem readAt_fuel {fuel fuel' : Nat} {cs : List Char} (h : cs.length < fuel)
    (h' : cs.length < fuel') : readAt fuel cs = readAt fuel' cs := by
  induction fuel generalizing fuel' cs with
  | zero => omega
  | succ fuel ih =>
    cases fuel' with
    | zero => omega
    | succ fuel' =>
      have htrim := length_trimChars_le cs
      rw [readAt_succ, readAt_succ]
      apply readStep_congr
      intro ds hds
      exact ih (by omega) (by omega)

/-- Reads a text as a type. -/
def readChars (cs : List Char) : TypeExpr :=
  readAt (cs.length + 1) cs

theorem read_eq (text : String) : read text = readChars text.toList := by
  rw [read, readChars, String.length_toList]

/-- **Reading is one step with reading inside.** -/
theorem readChars_eq (cs : List Char) : readChars cs = readStep readChars (trimChars cs) := by
  have htrim := length_trimChars_le cs
  rw [readChars, readAt_succ]
  apply readStep_congr
  intro ds hds
  exact readAt_fuel (by omega) (Nat.lt_succ_self _)

/-! ### Texts with closed brackets -/

/-- Every bracket is closed and no bar stands outside, at whatever depth the text is put. -/
def Balanced (cs : List Char) : Prop :=
  ∀ depth, Union.NoBar depth cs ∧ Union.depthBehind depth cs = depth

theorem balanced_append {cs ds : List Char} (hc : Balanced cs) (hd : Balanced ds) :
    Balanced (cs ++ ds) := by
  intro depth
  rw [Union.noBar_append, Union.depthBehind_append, (hc depth).2]
  exact ⟨⟨(hc depth).1, (hd depth).1⟩, (hd depth).2⟩

theorem balanced_of_plain {cs : List Char} (h : ∀ c ∈ cs, c ≠ '<' ∧ c ≠ '>' ∧ c ≠ '|') :
    Balanced cs := by
  induction cs with
  | nil => exact fun _ => ⟨trivial, rfl⟩
  | cons c cs ih =>
    intro depth
    obtain ⟨hlt, hgt, hbar⟩ := h c List.mem_cons_self
    have hafter : Union.depthAfter depth c = depth := by
      rw [Union.depthAfter, if_neg hlt, if_neg hgt]
    obtain ⟨hno, hdepth⟩ := ih (fun d hd => h d (List.mem_cons_of_mem _ hd)) depth
    refine ⟨⟨fun hc => hbar hc.1, ?_⟩, ?_⟩
    · rw [hafter]
      exact hno
    · show Union.depthBehind (Union.depthAfter depth c) cs = depth
      rw [hafter]
      exact hdepth

theorem balanced_of_isNamePart {cs : List Char} (h : ∀ c ∈ cs, Doc.isNamePart c = true) :
    Balanced cs := by
  apply balanced_of_plain
  intro c hc
  refine ⟨?_, ?_, ?_⟩ <;> rintro rfl <;> exact absurd (h _ hc) (by decide)

/-- Inside a bracket, separators between balanced texts are not seen from outside. -/
theorem balanced_bracketed {sep : List Char}
    (hsep : ∀ depth, Union.NoBar (depth + 1) sep ∧ Union.depthBehind (depth + 1) sep = depth + 1)
    {ms : List (List Char)} (h : ∀ m ∈ ms, Balanced m) (depth : Nat) :
    Union.NoBar (depth + 1) (sep.intercalate ms) ∧
      Union.depthBehind (depth + 1) (sep.intercalate ms) = depth + 1 := by
  induction ms with
  | nil => exact ⟨trivial, rfl⟩
  | cons m ms ih =>
    have hm := h m List.mem_cons_self (depth + 1)
    cases ms with
    | nil => rwa [List.intercalate_singleton]
    | cons m' ms =>
      have hrest := ih fun x hx => h x (List.mem_cons_of_mem _ hx)
      have hdepth : Union.depthBehind (depth + 1) (m ++ sep) = depth + 1 := by
        rw [Union.depthBehind_append, hm.2, (hsep depth).2]
      have hno : Union.NoBar (depth + 1) (m ++ sep) := by
        rw [Union.noBar_append, hm.2]
        exact ⟨hm.1, (hsep depth).1⟩
      rw [List.intercalate_cons_cons, Union.noBar_append, hdepth, Union.depthBehind_append, hdepth]
      exact ⟨⟨hno, hrest.1⟩, hrest.2⟩

/-- A bar inside a bracket is not seen from outside. -/
theorem balanced_bar (depth : Nat) :
    Union.NoBar (depth + 1) ['|'] ∧ Union.depthBehind (depth + 1) ['|'] = depth + 1 :=
  ⟨⟨fun hc => Nat.succ_ne_zero _ hc.2, trivial⟩, rfl⟩

/-- A promise of balanced texts is balanced. -/
theorem balanced_promise {sep : List Char}
    (hsep : ∀ depth, Union.NoBar (depth + 1) sep ∧ Union.depthBehind (depth + 1) sep = depth + 1)
    {ms : List (List Char)} (h : ∀ m ∈ ms, Balanced m) :
    Balanced ("Promise<".toList ++ (sep.intercalate ms ++ ">".toList)) := by
  intro depth
  obtain ⟨hno, hdepth⟩ := balanced_bracketed hsep h depth
  have hopen : Union.depthBehind depth "Promise<".toList = depth + 1 := rfl
  rw [Union.noBar_append, Union.noBar_append, Union.depthBehind_append, Union.depthBehind_append,
    hopen, hdepth]
  exact ⟨⟨Union.noBar_of_not_mem (by decide) depth, hno, Union.noBar_of_not_mem (by decide) _⟩, rfl⟩

/-- A text on one line whose brackets are closed and which is not only dots and blanks. -/
structure WellSpelled (cs : List Char) : Prop where
  oneLine : '\n' ∉ cs
  balanced : Balanced cs
  solid : ∃ c ∈ cs, c ≠ '.' ∧ isBlank c = false

/-- The characters by which texts are divided. -/
def dividers : List Char := ['<', '>', '|', '\n']

theorem balanced_of_noDivider {cs : List Char} (h : ∀ c ∈ cs, c ∉ dividers) : Balanced cs := by
  apply balanced_of_plain
  intro c hc
  have hplain := h c hc
  simp only [dividers, List.mem_cons, not_or] at hplain
  exact ⟨hplain.1, hplain.2.1, hplain.2.2.1⟩

/-- Texts without dividers may be put around. -/
theorem WellSpelled.append {l cs r : List Char} (h : WellSpelled cs) (hl : ∀ c ∈ l, c ∉ dividers)
    (hr : ∀ c ∈ r, c ∉ dividers) : WellSpelled (l ++ cs ++ r) := by
  obtain ⟨c, hc, hdot, hblank⟩ := h.solid
  refine ⟨?_, ?_, c, by simp [hc], hdot, hblank⟩
  · simp only [List.mem_append, not_or]
    exact ⟨⟨fun hline => hl _ hline (by decide), h.oneLine⟩, fun hline => hr _ hline (by decide)⟩
  · exact balanced_append (balanced_append (balanced_of_noDivider hl) h.balanced)
      (balanced_of_noDivider hr)

theorem wellSpelled_word {cs : List Char} (hne : cs ≠ [])
    (h : ∀ c ∈ cs, Doc.isNamePart c = true) : WellSpelled cs := by
  refine ⟨fun hline => ?_, balanced_of_isNamePart h, ?_⟩
  · exact absurd (h _ hline) (by decide)
  · obtain ⟨c, hc⟩ := List.exists_mem_of_ne_nil cs hne
    refine ⟨c, hc, ?_, Doc.isBlank_of_isNamePart (h c hc)⟩
    rintro rfl
    exact absurd (h _ hc) (by decide)

theorem oneLine_join {ss : List (List Char)} (h : ∀ s ∈ ss, '\n' ∉ s) :
    '\n' ∉ ['|'].intercalate ss := by
  intro hline
  rcases mem_intercalate hline with hline | ⟨s, hs, hline⟩
  · exact absurd hline (by decide)
  · exact h s hs hline

theorem wellSpelled_promise {ss : List (List Char)} (h : ∀ s ∈ ss, WellSpelled s) :
    WellSpelled ("Promise<".toList ++ (['|'].intercalate ss ++ ">".toList)) := by
  refine ⟨?_, balanced_promise balanced_bar fun s hs => (h s hs).balanced, 'P', ?_, by decide,
    by decide⟩
  · have hinner := oneLine_join fun s hs => (h s hs).oneLine
    simp only [List.mem_append, not_or]
    exact ⟨by decide, hinner, by decide⟩
  · exact List.mem_append_left _ (by decide)

/-! ### The laws of reading -/

theorem readChars_congr {cs ds : List Char} (h : trimChars cs = trimChars ds) :
    readChars cs = readChars ds := by
  rw [readChars_eq, h, ← readChars_eq]

theorem readChars_trimChars (cs : List Char) : readChars (trimChars cs) = readChars cs :=
  readChars_congr (trimChars_of_trimmed (trimmed_trimChars cs))

/-- Blanks around a text do not matter. -/
theorem readChars_blanks {l r : List Char} (hl : AllBlank l) (hr : AllBlank r) (cs : List Char) :
    readChars (l ++ cs ++ r) = readChars cs := by
  apply readChars_congr
  rw [trimChars_append_right hr, trimChars_append_left hl]

/-- A rest mark is passed over. -/
theorem readChars_rest {cs : List Char} {c : Char} (hc : c ∈ cs) (hblank : isBlank c = false)
    (hline : '\n' ∉ cs) : readChars ("...".toList ++ cs) = readChars cs := by
  obtain ⟨l, text, r, rfl, hl, hr, htrimmed, hmem⟩ := exists_trimmed_of_mem hc hblank
  have hne := List.ne_nil_of_mem hmem
  have hdots : Trimmed ("...".toList ++ l ++ text) :=
    trimmed_append (by decide) (by decide) htrimmed hne l
  have htrim : trimChars ("...".toList ++ (l ++ text ++ r)) = "...".toList ++ (l ++ text) := by
    rw [← List.append_assoc, ← List.append_assoc, trimChars_append_right hr,
      trimChars_of_trimmed hdots, List.append_assoc]
  have hinner : restInner? ("...".toList ++ (l ++ text)) = some (l ++ text) := by
    refine restInner?_eq_some_iff.mpr ⟨rfl, List.append_ne_nil_of_right_ne_nil _ hne, ?_⟩
    exact fun hmem => hline (List.mem_append_left _ hmem)
  rw [readChars_eq, htrim, readStep, hinner]
  apply readChars_congr
  rw [trimChars_append_right hr]

theorem readChars_array_of_restInner? {cs : List Char} (hne : cs ≠ [])
    (hhead : ∀ c, cs.head? = some c → isBlank c = false) (hline : '\n' ∉ cs)
    (hrest : restInner? (cs ++ "[]".toList) = none) :
    readChars (cs ++ "[]".toList) = array (readChars cs) := by
  have htrimmed : Trimmed (cs ++ "[]".toList) := by
    refine ⟨fun c hc => ?_, fun c hc => ?_⟩
    · rw [head?_append_of_ne_nil hne] at hc
      exact hhead c hc
    · rw [getLast?_append_of_ne_nil _ (by decide)] at hc
      rw [← Option.some.inj hc]
      decide
  have harray : arrayInner? (cs ++ "[]".toList) = some cs :=
    arrayInner?_eq_some_iff.mpr ⟨rfl, hne, hline⟩
  rw [readChars_eq, trimChars_of_trimmed htrimmed, readStep, hrest, harray]

/-- **An array mark is read outside of rest marks**, whatever it stands behind, unless that is dots and
blanks alone.  The induction is on the length of the text, which every rest mark makes shorter. -/
theorem readChars_array {cs : List Char} {c : Char} (hc : c ∈ cs) (hdot : c ≠ '.')
    (hblank : isBlank c = false) (hline : '\n' ∉ cs) :
    readChars (cs ++ "[]".toList) = array (readChars cs) := by
  induction hn : cs.length using Nat.strongRecOn generalizing cs with
  | _ n ih =>
    obtain ⟨l, text, r, rfl, hl, hr, htrimmed, hmem⟩ := exists_trimmed_of_mem hc hblank
    have hleft : ∀ ds, readChars (l ++ ds) = readChars ds := by
      intro ds
      apply readChars_congr
      rw [trimChars_append_left hl]
    simp only [List.mem_append, not_or] at hline
    obtain ⟨⟨-, hlineText⟩, hlineRight⟩ := hline
    simp only [List.append_assoc, hleft]
    by_cases hdots : "...".toList <+: text
    · -- the rest mark goes first, and what is left ends with the array mark again
      obtain ⟨inner, rfl⟩ := hdots
      have hinner : c ∈ inner ++ r := by
        refine List.mem_append_left _ ((List.mem_append.mp hmem).resolve_left ?_)
        simp [hdot]
      have hlineInner : '\n' ∉ inner ++ r := by
        rw [List.mem_append, not_or] at hlineText ⊢
        exact ⟨hlineText.2, hlineRight⟩
      have hshorter : (inner ++ r).length < n := by
        simp only [List.length_append] at hn ⊢
        have : "...".toList.length = 3 := rfl
        omega
      have hmarked : '\n' ∉ inner ++ r ++ "[]".toList := by
        rw [List.mem_append, not_or]
        exact ⟨hlineInner, by decide⟩
      calc readChars ("...".toList ++ inner ++ (r ++ "[]".toList))
          = readChars ("...".toList ++ (inner ++ r ++ "[]".toList)) := by
            simp only [List.append_assoc]
        _ = readChars (inner ++ r ++ "[]".toList) :=
            readChars_rest (List.mem_append_left _ hinner) hblank hmarked
        _ = array (readChars (inner ++ r)) := ih _ hshorter hinner hlineInner rfl
        _ = array (readChars ("...".toList ++ inner ++ r)) := by
            rw [List.append_assoc, readChars_rest hinner hblank hlineInner]
    · have hne := List.ne_nil_of_mem hmem
      have hrest : restInner? (text ++ r ++ "[]".toList) = none := by
        rw [Option.eq_none_iff_forall_ne_some]
        intro inner hinner
        obtain ⟨heq, -⟩ := restInner?_eq_some_iff.mp hinner
        rw [List.append_assoc] at heq
        rcases List.prefix_or_prefix_of_prefix ⟨inner, rfl⟩ (heq ▸ List.prefix_append text _)
          with h | h
        · exact hdots h
        · -- the text would be dots alone
          have hdotted : c ∈ "...".toList := h.subset hmem
          simp [hdot] at hdotted
      rw [← List.append_assoc]
      apply readChars_array_of_restInner? (List.append_ne_nil_of_left_ne_nil hne r) _ _ hrest
      · intro d hd
        rw [head?_append_of_ne_nil hne] at hd
        exact htrimmed.1 d hd
      · rw [List.mem_append, not_or]
        exact ⟨hlineText, hlineRight⟩

/-- A promise is read member by member. -/
theorem readChars_promise {union : List Char} (hline : '\n' ∉ union) :
    readChars ("Promise<".toList ++ (union ++ ">".toList)) =
      promise ((Union.members union).map readChars) := by
  have htrimmed : Trimmed ("Promise<".toList ++ union ++ ">".toList) :=
    trimmed_append (by decide) (by decide) (by decide) (by decide) union
  have hrest : restInner? ("Promise<".toList ++ (union ++ ">".toList)) = none := by
    rw [Option.eq_none_iff_forall_ne_some]
    intro inner hinner
    have hhead := congrArg List.head? (restInner?_eq_some_iff.mp hinner).1
    exact absurd hhead (by simp)
  have harray : arrayInner? ("Promise<".toList ++ (union ++ ">".toList)) = none := by
    rw [Option.eq_none_iff_forall_ne_some]
    intro inner hinner
    have hlast := congrArg List.getLast? (arrayInner?_eq_some_iff.mp hinner).1
    rw [← List.append_assoc, getLast?_append_of_ne_nil _ (by decide),
      getLast?_append_of_ne_nil _ (by decide)] at hlast
    exact absurd hlast (by decide)
  have hpromise : promiseInner? ("Promise<".toList ++ (union ++ ">".toList)) = some union :=
    promiseInner?_eq_some_iff.mpr ⟨rfl, hline⟩
  rw [List.append_assoc] at htrimmed
  rw [readChars_eq, trimChars_of_trimmed htrimmed, readStep, hrest, harray, hpromise]

/-- The members of a promise are told apart by the bars between them. -/
theorem readChars_promise_join {ss : List (List Char)} (h : ∀ s ∈ ss, WellSpelled s) :
    readChars ("Promise<".toList ++ (['|'].intercalate ss ++ ">".toList)) =
      promise (ss.map readChars) := by
  have hmembers : Union.members (['|'].intercalate ss) = ss.map trimChars := by
    cases ss with
    | nil => rfl
    | cons s ss =>
      rw [Union.members_eq, Union.parts_intercalate (List.cons_ne_nil _ _) fun p hp =>
        (h p hp).balanced 0, List.filter_eq_self]
      intro cs hcs
      obtain ⟨p, hp, rfl⟩ := List.mem_map.mp hcs
      obtain ⟨c, hc, -, hblank⟩ := (h p hp).solid
      rw [Bool.not_eq_true', List.isEmpty_eq_false_iff]
      exact trimChars_ne_nil hc hblank
  rw [readChars_promise (oneLine_join fun s hs => (h s hs).oneLine), hmembers, List.map_map]
  exact congrArg promise (List.map_congr_left fun s _ => readChars_trimChars s)

/-- A word is a leaf. -/
theorem readChars_word {cs : List Char} (hpart : ∀ c ∈ cs, Doc.isNamePart c = true) :
    readChars cs = readLeaf cs := by
  have htrimmed : Trimmed cs :=
    ⟨fun c hc => Doc.isBlank_of_isNamePart (hpart c (List.mem_of_mem_head? hc)),
      fun c hc => Doc.isBlank_of_isNamePart (hpart c (List.mem_of_getLast? hc))⟩
  -- every other shape has a character that is no part of a word
  have hrest : restInner? cs = none := by
    rw [Option.eq_none_iff_forall_ne_some]
    intro inner hinner
    have hdot : '.' ∈ cs := by simp [(restInner?_eq_some_iff.mp hinner).1]
    exact absurd (hpart _ hdot) (by decide)
  have harray : arrayInner? cs = none := by
    rw [Option.eq_none_iff_forall_ne_some]
    intro inner hinner
    have hbracket : ']' ∈ cs := by simp [(arrayInner?_eq_some_iff.mp hinner).1]
    exact absurd (hpart _ hbracket) (by decide)
  have hpromise : promiseInner? cs = none := by
    rw [Option.eq_none_iff_forall_ne_some]
    intro inner hinner
    have hbracket : '>' ∈ cs := by simp [(promiseInner?_eq_some_iff.mp hinner).1]
    exact absurd (hpart _ hbracket) (by decide)
  rw [readChars_eq, trimChars_of_trimmed htrimmed, readStep, hrest, harray, hpromise]

end Rigging.TypeExpr
