import Rigging.Doc.Printer
import Rigging.Proofs.Doc.Fold
import Rigging.Proofs.Doc.Value

/-!
# The stanzas of a doc comment

`Doc.IsProper` says what every doc comment is like that has been read: its texts are trimmed and hold
no tags, its names are names, its types are members of unions.  The stanzas of such a comment are its
description and one tag with a value for each of its parts (`toList_stanzas`), they are laid out with
gaps between them (`toList_write`), and all their line ends are those of the texts
(`sum_stanzas`).
-/

namespace Rigging

namespace Doc

open Rigging.Text
open TypeExpr (isName isNamePart_of_isName)

/-- A tag that is kept: an at sign and letters, not one of those that are read further, with a text
that holds no tag. -/
structure Tag.IsProper (t : Tag) : Prop where
  letters : ∃ letters, t.name.toList = '@' :: letters ∧ letters ≠ [] ∧
    ∀ c ∈ letters, isTagLetter c = true
  kept : t.name ≠ paramTag ∧ t.name ≠ resultTag ∧ t.name ≠ resultAlias
  value : ∀ s, t.value = some s → IsText s.toList ∧ NoTag true s.toList

/-- A doc comment as it is read. -/
structure IsProper (d : Doc) : Prop where
  description : Trimmed d.description.toList ∧ NoTag true d.description.toList
  params : ∀ p ∈ d.params, p.IsProper ∧ ∀ s, p.description = some s → NoTag false s.toList
  tags : ∀ t ∈ d.tags, t.IsProper
  result : ∀ r, d.result = some r → r.IsProper ∧ ∀ s, r.description = some s → NoTag false s.toList

/-- All texts of a doc comment. -/
def texts (d : Doc) : List (List Char) :=
  d.description.toList :: (d.params.flatMap fun p => textsOf p.types p.description) ++
    (d.tags.flatMap fun t => textsOf [] t.value) ++
    d.result.toList.flatMap fun r => textsOf r.types r.description

/-! ### Stanzas as tags with values -/

/-- A parameter's tag and value. -/
def Param.entry (p : Param) : List Char × List Char :=
  (['p', 'a', 'r', 'a', 'm'], p.value)

/-- A kept tag and its value. -/
def Tag.entry (t : Tag) : List Char × List Char :=
  (t.name.toList.drop 1, spaceText t.value)

/-- A result's tag and value. -/
def Result.entry (r : Result) : List Char × List Char :=
  (['r', 'e', 't', 'u', 'r', 'n', 's'], r.value)

/-- All tags with their values, in the order in which they are written. -/
def entries (d : Doc) : List (List Char × List Char) :=
  d.params.map Param.entry ++ d.tags.map Tag.entry ++ (d.result.map Result.entry).toList

theorem toList_writtenTypes (types : List String) :
    (writtenTypes types).toList = typesText (types.map String.toList) := by
  rw [writtenTypes, typesText]
  by_cases hnil : types = []
  · rw [hnil]
    rfl
  · have hempty : types.isEmpty = false := List.isEmpty_eq_false_iff.mpr hnil
    rw [hempty, if_neg Bool.false_ne_true, if_neg (by simpa using hnil), String.toList_append,
      String.toList_append, Union.toList_join]
    rfl

theorem trim_of_isText {s : String} (h : IsText s.toList) : trim s = s := by
  rw [trim, trimChars_of_trimmed h.trimmed, String.ofList_toList]

theorem ne_empty_of_isText {s : String} (h : IsText s.toList) : s ≠ "" := by
  rintro rfl
  exact h.ne_nil rfl

theorem Param.toList_stanza {p : Param} (h : p.IsProper) : p.stanza.toList = tagText p.entry := by
  have hdescription : (trimmedAfter " - " p.description).toList = dashText p.description := by
    cases hd : p.description with
    | none => rfl
    | some s =>
      have hs := h.description s hd
      rw [trimmedAfter, if_neg (ne_empty_of_isText hs), trim_of_isText hs, String.toList_append]
      rfl
  have hname : (if p.optional then " [" ++ p.name ++ "]" else " " ++ p.name).toList =
      ' ' :: nameText p.optional p.name.toList := by
    unfold nameText
    split
    · rw [String.toList_append, String.toList_append]
      rfl
    · rw [String.toList_append]
      rfl
  rw [Param.stanza, String.toList_append, String.toList_append, String.toList_append, hname,
    hdescription, toList_writtenTypes, show paramTag.toList = ['@', 'p', 'a', 'r', 'a', 'm'] from rfl]
  simp only [tagText, Param.entry, Param.value, List.cons_append, List.nil_append, List.append_assoc]

theorem Tag.toList_stanza {t : Tag} (h : t.IsProper) : t.stanza.toList = tagText t.entry := by
  obtain ⟨letters, hletters, _⟩ := h.letters
  have hvalue : (writtenAfter " " t.value).toList = spaceText t.value := by
    cases hv : t.value with
    | none => rfl
    | some s =>
      rw [writtenAfter, if_neg (ne_empty_of_isText (h.value s hv).1), String.toList_append]
      rfl
  rw [Tag.stanza, String.toList_append, hvalue, hletters, tagText, Tag.entry, hletters]
  rfl

theorem Result.toList_stanza {r : Result} (h : r.IsProper) : r.stanza.toList = tagText r.entry := by
  have hdescription : (trimmedAfter " " r.description).toList = spaceText r.description := by
    cases hd : r.description with
    | none => rfl
    | some s =>
      have hs := h.description s hd
      rw [trimmedAfter, if_neg (ne_empty_of_isText hs), trim_of_isText hs, String.toList_append]
      rfl
  rw [Result.stanza, String.toList_append, String.toList_append, hdescription, toList_writtenTypes,
    show resultTag.toList = ['@', 'r', 'e', 't', 'u', 'r', 'n', 's'] from rfl]
  simp only [tagText, Result.entry, Result.value, List.cons_append, List.nil_append]

/-- **The stanzas of a doc comment**: its description if there is one, and its tags. -/
theorem toList_stanzas {d : Doc} (h : d.IsProper) :
    d.stanzas.map String.toList =
      (if d.description.toList = [] then [] else [d.description.toList]) ++ d.entries.map tagText := by
  have htrim : trim d.description = d.description := by
    rw [trim, trimChars_of_trimmed h.description.1, String.ofList_toList]
  have hparams : d.params.map (String.toList ∘ Param.stanza) = d.params.map (tagText ∘ Param.entry) :=
    List.map_congr_left fun p hp => Param.toList_stanza (h.params p hp).1
  have htags : d.tags.map (String.toList ∘ Tag.stanza) = d.tags.map (tagText ∘ Tag.entry) :=
    List.map_congr_left fun t ht => Tag.toList_stanza (h.tags t ht)
  have hresult : (d.result.map Result.stanza).toList.map String.toList =
      (d.result.map Result.entry).toList.map tagText := by
    cases hr : d.result with
    | none => rfl
    | some r => exact congrArg (fun x => [x]) (Result.toList_stanza (h.result r hr).1)
  rw [stanzas, entries, htrim, List.map_append, List.map_append, List.map_append, List.map_map,
    List.map_map, hparams, htags, hresult, List.map_append, List.map_append, List.map_map,
    List.map_map]
  by_cases hempty : d.description = ""
  · simp [hempty]
  · have hne : d.description.toList ≠ [] := by simpa using hempty
    simp [hempty, hne]

/-! ### The layout -/

theorem map_intersperse (f : String → List Char) (sep : String) (xs : List String) :
    (xs.intersperse sep).map f = (xs.map f).intersperse (f sep) := by
  induction xs with
  | nil => rfl
  | cons x xs ih =>
    cases xs with
    | nil => rfl
    | cons y ys =>
      rw [List.map_cons] at ih
      rw [List.intersperse_cons_cons, List.map_cons, List.map_cons, ih, List.map_cons, List.map_cons,
        List.intersperse_cons_cons]

/-- The lines of stanzas, each behind a line end. -/
theorem flatMap_lines (indent : List Char) {ss : List (List Char)} (hne : ss ≠ []) :
    ((ss.map fun s => indent ++ ' ' :: '*' :: ' ' :: s).intersperse (indent ++ [' ', '*'])).flatMap
      (['\n'] ++ ·) = gap indent ++ ' ' :: (stanzaGap indent).intercalate ss := by
  induction ss with
  | nil => exact absurd rfl hne
  | cons s ss ih =>
    cases ss with
    | nil => simp [gap]
    | cons t ss =>
      have hrest := ih (List.cons_ne_nil _ _)
      rw [List.map_cons] at hrest
      rw [List.map_cons, List.map_cons, List.intersperse_cons_cons, List.flatMap_cons,
        List.flatMap_cons, hrest, List.intercalate_cons_cons]
      simp [gap, stanzaGap]

/-- **A written comment**, character by character. -/
theorem toList_write (indent : String) {d : Doc} (hne : d.stanzas ≠ []) :
    (d.write indent).toList = indent.toList ++ ('/' :: '*' :: '*' :: (gap indent.toList ++ ' ' ::
      ((stanzaGap indent.toList).intercalate (d.stanzas.map String.toList) ++
        (closing indent.toList ++ ['*', '/'])))) := by
  have hempty : d.stanzas.isEmpty = false := List.isEmpty_eq_false_iff.mpr hne
  have hmap : d.stanzas.map String.toList ≠ [] := by simpa using hne
  have hlines := flatMap_lines indent.toList hmap
  have hline : d.stanzas.map (String.toList ∘ fun s => indent ++ " * " ++ s) =
      (d.stanzas.map String.toList).map fun s => indent.toList ++ ' ' :: '*' :: ' ' :: s := by
    rw [List.map_map]
    refine List.map_congr_left fun s _ => ?_
    rw [Function.comp_apply, String.toList_append, String.toList_append, List.append_assoc]
    rfl
  have hsep : (indent ++ " *").toList = indent.toList ++ [' ', '*'] := String.toList_append
  have hopen : (indent ++ "/**").toList = indent.toList ++ ['/', '*', '*'] := String.toList_append
  have hclose : (indent ++ " */").toList = indent.toList ++ [' ', '*', '/'] := String.toList_append
  rw [write, hempty, if_neg Bool.false_ne_true, String.toList_intercalate, List.cons_append,
    List.map_cons, List.map_append, map_intersperse, List.map_map, hline, hsep, intercalate_cons,
    List.flatMap_append, show "\n".toList = ['\n'] from rfl, hlines, hopen]
  simp only [List.map_singleton, hclose, List.flatMap_singleton, closing, List.append_assoc,
    List.cons_append, List.nil_append]

/-- The body of a block comment is what stands between its delimiters. -/
theorem toList_body {comment : String} {inner : List Char} (lead : List Char) (hlead : AllBlank lead)
    (h : comment.toList = lead ++ '/' :: '*' :: (inner ++ ['*', '/'])) :
    (body comment).toList = inner := by
  have htrim : trimChars comment.toList = '/' :: '*' :: (inner ++ ['*', '/']) := by
    have htext : IsText (['/', '*'] ++ (inner ++ ['*', '/'])) :=
      isText_append ⟨by decide, by decide⟩ inner ⟨by decide, by decide⟩
    rw [h, trimChars_append_left hlead]
    exact trimChars_of_trimmed htext.trimmed
  have hopens : "/*".toList.isPrefixOf ('/' :: '*' :: (inner ++ ['*', '/'])) = true :=
    List.isPrefixOf_iff_prefix.mpr ⟨inner ++ ['*', '/'], rfl⟩
  have hcloses : "*/".toList.isSuffixOf (inner ++ ['*', '/']) = true :=
    List.isSuffixOf_iff_suffix.mpr (List.suffix_append _ _)
  simp only [body, htrim, hopens, if_true, String.toList_ofList, List.drop_succ_cons, List.drop_zero,
    hcloses]
  simp

/-- The body of a written comment. -/
theorem body_write {indent : String} (hindent : ∀ c ∈ indent.toList, isSpaceOrTab c = true)
    {d : Doc} (hne : d.stanzas ≠ []) :
    (body (d.write indent)).toList = '*' :: (gap indent.toList ++ ' ' ::
      ((stanzaGap indent.toList).intercalate (d.stanzas.map String.toList) ++
        closing indent.toList)) := by
  refine toList_body indent.toList (fun c hc => isBlank_of_isSpaceOrTab (hindent c hc)) ?_
  rw [toList_write indent hne]
  simp

/-! ### Stanzas hold no other tags -/

theorem noTag_typesText {ts : List (List Char)} (h : IsTypes ts) : NoTag false (typesText ts) := by
  have hinner : ∀ ts : List (List Char), (∀ t ∈ ts, NoTag false t) →
      NoTag false (['|'].intercalate ts) := by
    intro ts
    induction ts with
    | nil => exact fun _ => trivial
    | cons t ts ih =>
      intro hts
      have ht := hts t List.mem_cons_self
      have hrest := ih fun x hx => hts x (List.mem_cons_of_mem _ hx)
      cases ts with
      | nil => rwa [List.intercalate_singleton]
      | cons t' ts =>
        rw [List.intercalate_cons_cons, List.append_assoc]
        exact noTag_glue ht (by decide) (by decide) hrest
  unfold typesText
  split
  · trivial
  · have hgroup : NoTag true ('{' :: (['|'].intercalate ts ++ ['}'])) :=
      noTag_glue (s := []) trivial (by decide) (by decide)
        (noTag_glue (hinner ts h.noTag) (by decide) (by decide) trivial)
    exact noTag_glue (s := []) trivial (by decide) (by decide) hgroup

theorem noTag_nameText {optional : Bool} {name : List Char} (h : IsParamName optional name)
    (w : Bool) : NoTag w (nameText optional name) := by
  obtain ⟨n, hn, hname⟩ := h
  have hat : '@' ∉ n := fun hmem => absurd (isNamePart_of_isName hn _ hmem) (by decide)
  refine noTag_of_not_mem ?_ w
  unfold nameText
  split
  · rcases hname with rfl | ⟨_, rfl⟩ <;> simp [hat]
  · rcases hname with rfl | ⟨_, rfl⟩ <;> simp [hat]

/-- The part of a parameter's value up to its name, with whatever follows. -/
theorem noTag_value {ts : List (List Char)} (hts : IsTypes ts) {optional : Bool} {name : List Char}
    (hname : IsParamName optional name) {tail : List Char} (htail : NoTag false (' ' :: tail)) :
    NoTag false (typesText ts ++ ' ' :: (nameText optional name ++ ' ' :: tail)) :=
  noTag_glue (noTag_typesText hts) (by decide) (by decide)
    (noTag_glue (noTag_nameText hname _) (by decide) (by decide) htail.2)

theorem head?_typesText_append (ts : List (List Char)) (x : List Char) :
    (typesText ts ++ ' ' :: x).head? = some ' ' := by
  unfold typesText
  split <;> rfl

theorem apart_of_space {v : List Char} (h : v = [] ∨ v.head? = some ' ') :
    ∀ c, v.head? = some c → isBlank c = true := by
  intro c hc
  rcases h with rfl | h
  · cases hc
  · rw [h] at hc
    rw [← Option.some.inj hc]
    decide

theorem Param.isEntry {p : Param} (h : p.IsProper)
    (hd : ∀ s, p.description = some s → NoTag true s.toList) : IsEntry p.entry.1 p.entry.2 := by
  show IsEntry ['p', 'a', 'r', 'a', 'm'] p.value
  refine ⟨by decide, by decide, ?_, apart_of_space (Or.inr (head?_typesText_append _ _))⟩
  unfold Param.value
  cases hdescription : p.description with
  | none =>
    rw [dashText, List.append_nil]
    exact noTag_glue (noTag_typesText h.types) (by decide) (by decide) (noTag_nameText h.name _)
  | some s =>
    refine noTag_value h.types h.name ?_
    have hdash : NoTag true ('-' :: ' ' :: s.toList) :=
      noTag_glue (s := []) trivial (by decide) (by decide)
        (noTag_glue (s := []) trivial (by decide) (by decide) (hd s hdescription))
    exact noTag_glue (s := []) trivial (by decide) (by decide) hdash

/-- A parameter that is cut off behind its dash. -/
theorem Param.isEntry_dash {p : Param} (h : p.IsProper) :
    IsEntry ['p', 'a', 'r', 'a', 'm'] (typesText (p.types.map String.toList) ++
      ' ' :: (nameText p.optional p.name.toList ++ [' ', '-'])) := by
  refine ⟨by decide, by decide, ?_, apart_of_space (Or.inr (head?_typesText_append _ _))⟩
  exact noTag_value h.types h.name (by decide)

theorem Tag.isEntry {t : Tag} (h : t.IsProper) : IsEntry t.entry.1 t.entry.2 := by
  obtain ⟨letters, hletters, hne, hall⟩ := h.letters
  have hdrop : t.name.toList.drop 1 = letters := by
    rw [hletters]
    rfl
  refine ⟨?_, ?_, ?_, ?_⟩
  · rw [Tag.entry, hdrop]
    exact hne
  · rw [Tag.entry, hdrop]
    exact hall
  · show NoTag false (spaceText t.value)
    cases hv : t.value with
    | none => trivial
    | some s => exact noTag_glue (s := []) trivial (by decide) (by decide) (h.value s hv).2
  · show ∀ c, (spaceText t.value).head? = some c → _
    cases t.value with
    | none => exact apart_of_space (Or.inl rfl)
    | some s => exact apart_of_space (Or.inr rfl)

theorem typesText_head (ts : List (List Char)) : typesText ts = [] ∨ (typesText ts).head? = some ' ' := by
  unfold typesText
  split
  · exact Or.inl rfl
  · exact Or.inr rfl

theorem Result.isEntry {r : Result} (h : r.IsProper)
    (hd : ∀ s, r.description = some s → NoTag true s.toList) : IsEntry r.entry.1 r.entry.2 := by
  show IsEntry ['r', 'e', 't', 'u', 'r', 'n', 's'] r.value
  unfold Result.value
  cases hdescription : r.description with
  | none =>
    rw [spaceText, List.append_nil]
    exact ⟨by decide, by decide, noTag_typesText h.types, apart_of_space (typesText_head _)⟩
  | some s =>
    exact ⟨by decide, by decide, noTag_glue (noTag_typesText h.types) (by decide) (by decide)
      (hd s hdescription), apart_of_space (Or.inr (head?_typesText_append _ _))⟩

/-! ### Stanzas are texts -/

theorem Param.isText_tagText {p : Param} (h : p.IsProper) : IsText (tagText p.entry) := by
  have hname := isText_nameText h.name
  have hat : IsText ['@'] := ⟨by decide, by decide⟩
  have hsplit : tagText p.entry = ['@'] ++ ((['p', 'a', 'r', 'a', 'm'] ++
      typesText (p.types.map String.toList) ++ [' ']) ++
        (nameText p.optional p.name.toList ++ dashText p.description)) := by
    simp [tagText, Param.entry, Param.value]
  rw [hsplit]
  refine isText_append hat _ ?_
  cases hd : p.description with
  | none =>
    rw [dashText, List.append_nil]
    exact hname
  | some s => exact isText_append hname [' ', '-', ' '] (h.description s hd)

theorem Tag.isText_tagText {t : Tag} (h : t.IsProper) : IsText (tagText t.entry) := by
  obtain ⟨hne, hall, _, _⟩ := Tag.isEntry h
  have hat : IsText ['@'] := ⟨by decide, by decide⟩
  have hletters : IsText t.entry.1 :=
    isText_of_solid hne fun c hc => isBlank_of_isTagLetter (hall c hc)
  show IsText (['@'] ++ ([] ++ (t.entry.1 ++ spaceText t.value)))
  refine isText_append hat [] ?_
  cases hv : t.value with
  | none =>
    rw [spaceText, List.append_nil]
    exact hletters
  | some s => exact isText_append hletters [' '] (h.value s hv).1

theorem Result.isText_tagText {r : Result} (h : r.IsProper) : IsText (tagText r.entry) := by
  have hat : IsText ['@', 'r', 'e', 't', 'u', 'r', 'n', 's'] := ⟨by decide, by decide⟩
  show IsText (['@', 'r', 'e', 't', 'u', 'r', 'n', 's'] ++
    (typesText (r.types.map String.toList) ++ spaceText r.description))
  cases hd : r.description with
  | some s =>
    rw [spaceText, List.append_cons]
    exact isText_append hat _ (h.description s hd)
  | none =>
    rw [spaceText, List.append_nil]
    unfold typesText
    split
    · exact hat
    · exact isText_append hat (' ' :: '{' :: ['|'].intercalate _) ⟨by decide, by decide⟩

/-- The stanzas of a doc comment are not empty, and no blanks stand around them. -/
theorem isText_of_mem_stanzas {d : Doc} (h : d.IsProper) :
    ∀ s ∈ d.stanzas.map String.toList, IsText s := by
  intro s hs
  rw [toList_stanzas h, List.mem_append] at hs
  rcases hs with hs | hs
  · split at hs
    · cases hs
    · rename_i hne
      rw [List.mem_singleton.mp hs]
      exact ⟨hne, h.description.1⟩
  · obtain ⟨e, he, rfl⟩ := List.mem_map.mp hs
    rw [entries, List.mem_append, List.mem_append] at he
    rcases he with (he | he) | he
    · obtain ⟨p, hp, rfl⟩ := List.mem_map.mp he
      exact Param.isText_tagText (h.params p hp).1
    · obtain ⟨t, ht, rfl⟩ := List.mem_map.mp he
      exact Tag.isText_tagText (h.tags t ht)
    · rw [Option.mem_toList, Option.map_eq_some_iff] at he
      obtain ⟨r, hr, rfl⟩ := he
      exact Result.isText_tagText (h.result r hr).1

/-! ### The line ends of stanzas -/

/-- A count of line ends that is taken text by text. -/
structure IsEndCount (f : List Char → Nat) : Prop where
  nil : f [] = 0
  other : ∀ {c : Char}, isLineEnd c = false → ∀ cs, f (c :: cs) = f cs
  append : ∀ {s : List Char}, SolidEnd s → ∀ r, f (s ++ r) = f s + f r

theorem isEndCount_countP : IsEndCount (List.countP isLineEnd) :=
  ⟨rfl, fun hc _ => List.countP_cons_of_neg (by rw [hc]; exact Bool.false_ne_true),
    fun _ _ => List.countP_append⟩

theorem isEndCount_bareEnds : IsEndCount bareEnds :=
  ⟨rfl, fun hc cs => bareEnds_cons_other hc cs, fun hs r => bareEnds_append hs r⟩

section EndCount

variable {f : List Char → Nat} (hf : IsEndCount f)

include hf

theorem endCount_skip {l : List Char} (hl : ∀ c ∈ l, isBlank c = false) (r : List Char) :
    f (l ++ r) = f r := by
  induction l with
  | nil => rfl
  | cons c l ih =>
    rw [List.cons_append, hf.other (isLineEnd_of_solid (hl c List.mem_cons_self))]
    exact ih fun d hd => hl d (List.mem_cons_of_mem _ hd)

theorem endCount_typesText {ts : List (List Char)} (h : IsTypes ts) (r : List Char) :
    f (typesText ts ++ r) = (ts.map f).sum + f r := by
  have hinner : ∀ ts : List (List Char), (∀ t ∈ ts, SolidEnd t) → ∀ r,
      f (['|'].intercalate ts ++ '}' :: r) = (ts.map f).sum + f r := by
    intro ts
    induction ts with
    | nil =>
      intro _ r
      rw [List.intercalate_nil, List.nil_append, hf.other (by decide), List.map_nil, List.sum_nil,
        Nat.zero_add]
    | cons t ts ih =>
      intro hts r
      have ht := hts t List.mem_cons_self
      have hrest := ih (fun x hx => hts x (List.mem_cons_of_mem _ hx)) r
      cases ts with
      | nil =>
        rw [List.intercalate_singleton, hf.append ht, hf.other (by decide), List.map_singleton,
          List.sum_singleton]
      | cons t' ts =>
        have hsum : ((t :: t' :: ts).map f).sum = f t + ((t' :: ts).map f).sum := List.sum_cons
        rw [List.intercalate_cons_cons, List.append_assoc, List.append_assoc, hf.append ht,
          List.singleton_append, hf.other (by decide), hrest, hsum, Nat.add_assoc]
  unfold typesText
  split
  · rename_i hnil
    rw [hnil, List.nil_append, List.map_nil, List.sum_nil, Nat.zero_add]
  · rw [List.cons_append, hf.other (by decide), List.cons_append, hf.other (by decide),
      List.append_assoc]
    exact hinner ts (fun t ht => (h.union.member t ht).trimmed.2) r

theorem endCount_spaceText (d : Option String) :
    f (spaceText d) = ((textsOf [] d).map f).sum := by
  cases d with
  | none =>
    rw [spaceText, hf.nil]
    rfl
  | some s =>
    rw [spaceText, hf.other (by decide), sum_textsOf_some, List.map_nil, List.sum_nil, Nat.zero_add]

theorem endCount_dashText (d : Option String) :
    f (dashText d) = ((textsOf [] d).map f).sum := by
  cases d with
  | none =>
    rw [dashText, hf.nil]
    rfl
  | some s =>
    rw [dashText, hf.other (by decide), hf.other (by decide), ← endCount_spaceText hf]
    rfl

omit hf in
theorem sum_textsOf (types : List String) (d : Option String) :
    ((textsOf types d).map f).sum =
      ((types.map String.toList).map f).sum + ((textsOf [] d).map f).sum := by
  rw [textsOf, List.map_append, List.sum_append]
  rfl

theorem Param.endCount_entry {p : Param} (h : p.IsProper) :
    f (tagText p.entry) = ((textsOf p.types p.description).map f).sum := by
  have hletters : ∀ c ∈ ['@', 'p', 'a', 'r', 'a', 'm'], isBlank c = false := by decide
  have hvalue : f p.value = ((textsOf p.types p.description).map f).sum := by
    rw [sum_textsOf p.types, Param.value, endCount_typesText hf h.types, hf.other (by decide),
      endCount_skip hf (solid_nameText h.name), endCount_dashText hf]
  exact (endCount_skip hf hletters _).trans hvalue

theorem Tag.endCount_entry {t : Tag} (h : t.IsProper) :
    f (tagText t.entry) = ((textsOf [] t.value).map f).sum := by
  have hletters := (Tag.isEntry h).all_letters
  rw [tagText, hf.other (by decide),
    endCount_skip hf fun c hc => isBlank_of_isTagLetter (hletters c hc)]
  exact endCount_spaceText hf t.value

theorem Result.endCount_entry {r : Result} (h : r.IsProper) :
    f (tagText r.entry) = ((textsOf r.types r.description).map f).sum := by
  have hletters : ∀ c ∈ ['@', 'r', 'e', 't', 'u', 'r', 'n', 's'], isBlank c = false := by decide
  have hvalue : f r.value = ((textsOf r.types r.description).map f).sum := by
    rw [sum_textsOf r.types, Result.value, endCount_typesText hf h.types, endCount_spaceText hf]
  exact (endCount_skip hf hletters _).trans hvalue

/-- **The line ends of the stanzas** are those of the texts. -/
theorem sum_stanzas {d : Doc} (h : d.IsProper) :
    ((d.stanzas.map String.toList).map f).sum = (d.texts.map f).sum := by
  have hdescription : ((if d.description.toList = [] then [] else [d.description.toList]).map f).sum =
      f d.description.toList := by
    split
    · rename_i hnil
      rw [hnil, hf.nil]
      rfl
    · exact List.sum_singleton
  have hflat : ∀ {α : Type} (xs : List α) (g : α → List Char) (texts : α → List (List Char)),
      (∀ x ∈ xs, f (g x) = ((texts x).map f).sum) →
      ((xs.map g).map f).sum = ((xs.flatMap texts).map f).sum := by
    intro α xs g texts
    induction xs with
    | nil => exact fun _ => rfl
    | cons x xs ih =>
      intro hx
      rw [List.map_cons, List.map_cons, List.sum_cons, List.flatMap_cons, List.map_append,
        List.sum_append, hx x List.mem_cons_self,
        ih fun y hy => hx y (List.mem_cons_of_mem _ hy)]
  have hparams := hflat d.params (tagText ∘ Param.entry) (fun p => textsOf p.types p.description)
    fun p hp => Param.endCount_entry hf (h.params p hp).1
  have htags := hflat d.tags (tagText ∘ Tag.entry) (fun t => textsOf [] t.value)
    fun t ht => Tag.endCount_entry hf (h.tags t ht)
  have hresult := hflat d.result.toList (tagText ∘ Result.entry)
    (fun r => textsOf r.types r.description)
    fun r hr => Result.endCount_entry hf (h.result r (Option.mem_toList.mp hr)).1
  have hmap : (d.result.map Result.entry).toList = d.result.toList.map Result.entry := by
    cases d.result <;> rfl
  rw [toList_stanzas h, entries, texts, hmap]
  simp only [List.map_append, List.sum_append, List.map_map, List.cons_append, List.map_cons,
    List.sum_cons] at hparams htags hresult ⊢
  omega

end EndCount

/-- Texts that together keep their line ends have no star lines. -/
theorem noStarLine_of_sum_le {ss : List (List Char)}
    (h : (ss.map (List.countP isLineEnd)).sum ≤ (ss.map bareEnds).sum) : ∀ s ∈ ss, NoStarLine s := by
  have hle : ∀ ss : List (List Char), (ss.map bareEnds).sum ≤ (ss.map (List.countP isLineEnd)).sum := by
    intro ss
    induction ss with
    | nil => exact Nat.le_refl 0
    | cons s ss ih =>
      rw [List.map_cons, List.map_cons, List.sum_cons, List.sum_cons]
      exact Nat.add_le_add (bareEnds_le s) ih
  induction ss with
  | nil => exact fun _ hs => nomatch hs
  | cons s ss ih =>
    have hs := bareEnds_le s
    have hss := hle ss
    rw [List.map_cons, List.map_cons, List.sum_cons, List.sum_cons] at h
    intro x hx
    rcases List.mem_cons.mp hx with rfl | hx
    · exact noStarLine_of_countP_le (by omega)
    · exact ih (by omega) x hx

theorem noStarLine_of_mem_stanzas {d : Doc} (h : d.IsProper) (htexts : ∀ t ∈ d.texts, NoStarLine t) :
    ∀ s ∈ d.stanzas.map String.toList, NoStarLine s := by
  have heq : d.texts.map (List.countP isLineEnd) = d.texts.map bareEnds :=
    List.map_congr_left fun t ht => (bareEnds_of_noStarLine (htexts t ht)).symm
  refine noStarLine_of_sum_le ?_
  rw [sum_stanzas isEndCount_countP h, sum_stanzas isEndCount_bareEnds h, heq]

end Doc

end Rigging
