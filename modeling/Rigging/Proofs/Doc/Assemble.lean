import Rigging.Proofs.Doc.Stanza

/-!
# Reading a written comment

A comment that has been folded and divided is put together tag by tag (`assemble`).  For a comment that
has been written this starts with a description and entries that hold no other tag, and goes on with
whatever follows them (`assemble_follow`); what has been put together stays (`params_addAll`,
`result_addAll`).
-/

namespace Rigging

namespace Doc

open Rigging.Text

/-- Adds tags with the texts behind them. -/
def addAll (doc : Doc) (tagged : List (List Char × List Char)) : Doc :=
  tagged.foldl (fun doc t => doc.addTag (String.ofList t.1) t.2) doc

/-- A doc comment with nothing but a description. -/
def start (description : List Char) : Doc :=
  ⟨String.ofList description, [], [], none⟩

/-- The doc comment of a divided text. -/
def assemble (parts : List Char × List (List Char × List Char)) : Option Doc :=
  if parts.2.any fun t => isGlued t.2 then none else some (addAll (start (trimChars parts.1)) parts.2)

theorem read?_star {text : String} {cs : List Char} (h : text.toList = '*' :: cs) :
    read? text = assemble (divide true (trimChars (foldBreaks 0 cs))) := by
  rw [read?, h]
  rfl

/-- **A written comment is read** as its layout is folded, divided and put together. -/
theorem ofComment?_write {indent : String} (hindent : ∀ c ∈ indent.toList, isSpaceOrTab c = true)
    {d : Doc} (hne : d.stanzas ≠ []) :
    ofComment? (d.write indent) = assemble (divide true (trimChars (foldBreaks 0
      (gap indent.toList ++ ' ' :: ((stanzaGap indent.toList).intercalate
        (d.stanzas.map String.toList) ++ closing indent.toList))))) :=
  read?_star (body_write hindent hne)

/-! ### Adding tags -/

theorem trimmed?_space (v : List Char) : trimmed? (v ++ [' ']) = trimmed? v := by
  rw [trimmed?, trimChars_append_right (by decide), trimmed?]

theorem addTag_space (doc : Doc) (name : String) (v : List Char) :
    doc.addTag name (v ++ [' ']) = doc.addTag name v := by
  rw [addTag, addTag, trimChars_append_right (by decide), trimmed?_space]

theorem addAll_append (doc : Doc) (ts us : List (List Char × List Char)) :
    doc.addAll (ts ++ us) = (doc.addAll ts).addAll us :=
  List.foldl_append

/-- An entry as it is found in a divided text. -/
def tagOf (e : List Char × List Char) : List Char × List Char :=
  ('@' :: e.1, e.2)

theorem addAll_spaced (es : List (List Char × List Char)) (doc : Doc) :
    doc.addAll (es.map fun e => ('@' :: e.1, e.2 ++ [' '])) = doc.addAll (es.map tagOf) := by
  induction es generalizing doc with
  | nil => rfl
  | cons e es ih =>
    show (doc.addTag _ (e.2 ++ [' '])).addAll _ = (doc.addTag _ e.2).addAll _
    rw [addTag_space]
    exact ih _

theorem addTag_param {v : List Char} {p : Param} (h : Param.read? (trimChars v) = some p) (doc : Doc) :
    doc.addTag paramTag v = { doc with params := doc.params ++ [p] } := by
  rw [addTag, if_pos rfl, h]

theorem addTag_result (v : List Char) {doc : Doc} (hdoc : doc.result = none) :
    doc.addTag resultTag v = { doc with result := some (Result.read (trimChars v)) } := by
  rw [addTag, if_neg (by decide), if_pos (by decide), hdoc]

theorem addTag_other {name : String}
    (h : name ≠ paramTag ∧ name ≠ resultTag ∧ name ≠ resultAlias) (v : List Char) (doc : Doc) :
    doc.addTag name v = { doc with tags := doc.tags ++ [⟨name, trimmed? v⟩] } := by
  rw [addTag, if_neg h.1, if_neg (by simp [h.2.1, h.2.2])]

/-- Adding a tag keeps the parameters, of which there may be one more. -/
theorem params_addTag (doc : Doc) (name : String) (v : List Char) :
    doc.params <+: (doc.addTag name v).params := by
  unfold addTag
  split
  · split
    · exact List.prefix_append _ _
    · exact List.prefix_rfl
  · split
    · split <;> exact List.prefix_rfl
    · exact List.prefix_rfl

/-- The first result counts. -/
theorem result_addTag {doc : Doc} {r : Result} (h : doc.result = some r) (name : String)
    (v : List Char) : (doc.addTag name v).result = some r := by
  unfold addTag
  split
  · split <;> exact h
  · split
    · rw [h]
      exact h
    · exact h

theorem params_addAll (ts : List (List Char × List Char)) (doc : Doc) :
    doc.params <+: (doc.addAll ts).params := by
  induction ts generalizing doc with
  | nil => exact List.prefix_rfl
  | cons t ts ih => exact (params_addTag doc _ t.2).trans (ih _)

theorem result_addAll (ts : List (List Char × List Char)) {doc : Doc} {r : Result}
    (h : doc.result = some r) : (doc.addAll ts).result = some r := by
  induction ts generalizing doc with
  | nil => exact h
  | cons t ts ih => exact ih (result_addTag h _ t.2)

/-! ### Adding entries -/

theorem addAll_params {ps : List Param} (h : ∀ p ∈ ps, p.IsProper) (doc : Doc) :
    doc.addAll ((ps.map Param.entry).map tagOf) = { doc with params := doc.params ++ ps } := by
  induction ps generalizing doc with
  | nil =>
    rw [List.append_nil]
    rfl
  | cons p ps ih =>
    have hp := addTag_param (Param.read?_value (h p List.mem_cons_self)) doc
    show (doc.addTag paramTag p.value).addAll _ = _
    rw [hp, ih fun q hq => h q (List.mem_cons_of_mem _ hq)]
    show { doc with params := doc.params ++ [p] ++ ps } = _
    rw [List.append_assoc]
    rfl

theorem trimmed?_spaceText {v : Option String} (h : ∀ s, v = some s → IsText s.toList) :
    trimmed? (spaceText v) = v := by
  cases v with
  | none => rfl
  | some s =>
    have hs := h s rfl
    have htrim : trimmed? (' ' :: s.toList) = trimmed? s.toList := by
      rw [trimmed?, trimChars_space hs, trimmed?, trimChars_of_trimmed hs.trimmed]
    rw [spaceText, htrim, trimmed?_eq hs, String.ofList_toList]

theorem addAll_tags {ts : List Tag} (h : ∀ t ∈ ts, t.IsProper) (doc : Doc) :
    doc.addAll ((ts.map Tag.entry).map tagOf) = { doc with tags := doc.tags ++ ts } := by
  induction ts generalizing doc with
  | nil =>
    rw [List.append_nil]
    rfl
  | cons t ts ih =>
    have ht := h t List.mem_cons_self
    obtain ⟨letters, hletters, _⟩ := ht.letters
    have hname : String.ofList (tagOf t.entry).1 = t.name := by
      show String.ofList ('@' :: t.name.toList.drop 1) = t.name
      rw [hletters, List.drop_succ_cons, List.drop_zero, ← hletters, String.ofList_toList]
    show (doc.addTag (String.ofList (tagOf t.entry).1) (spaceText t.value)).addAll _ = _
    rw [hname, addTag_other ht.kept, trimmed?_spaceText fun s hs => (ht.value s hs).1,
      ih fun u hu => h u (List.mem_cons_of_mem _ hu)]
    show { doc with tags := doc.tags ++ [t] ++ ts } = _
    rw [List.append_assoc]
    rfl

/-! ### Dividing what is written -/

/-- A text behind a description, if there is one. -/
def behind (description rest : List Char) : List Char :=
  if description = [] then rest else description ++ ' ' :: rest

theorem divide_behind {description rest : List Char} (htrim : Trimmed description)
    (hno : NoTag true description) (hrest : (divide true rest).1 = []) :
    trimChars (divide true (behind description rest)).1 = description ∧
      (divide true (behind description rest)).2 = (divide true rest).2 := by
  unfold behind
  split
  · rename_i hnil
    rw [hrest, hnil]
    exact ⟨rfl, rfl⟩
  · rw [divide_append_space rest hno, hrest]
    dsimp only
    rw [trimChars_append_right (by decide), trimChars_of_trimmed htrim]
    exact ⟨rfl, rfl⟩

theorem isGlued_of_apart {v : List Char} (h : ∀ c, v.head? = some c → isBlank c = true) :
    isGlued v = false := by
  cases v with
  | nil => rfl
  | cons c cs =>
    rw [isGlued, h c rfl]
    rfl

theorem any_isGlued_spaced {es : List (List Char × List Char)} (hes : ∀ e ∈ es, IsEntry e.1 e.2) :
    ((es.map fun e => ('@' :: e.1, e.2 ++ [' '])).any fun t => isGlued t.2) = false := by
  rw [List.any_map, List.any_eq_false]
  intro e he
  rw [Bool.not_eq_true]
  show isGlued (e.2 ++ [' ']) = false
  refine isGlued_of_apart fun c hc => ?_
  cases hvalue : e.2 with
  | nil =>
    rw [hvalue] at hc
    rw [← Option.some.inj hc]
    decide
  | cons d ds =>
    rw [hvalue] at hc
    exact (hes e he).apart c (by rw [hvalue]; exact hc)

/-- **A description and entries are put together first**, then whatever follows them. -/
theorem assemble_follow {description : List Char} (htrim : Trimmed description)
    (hno : NoTag true description) {es : List (List Char × List Char)}
    (hes : ∀ e ∈ es, IsEntry e.1 e.2) {rest : List Char} (hrest : (divide true rest).1 = []) :
    assemble (divide true (behind description (follow es rest))) =
      if (divide true rest).2.any fun t => isGlued t.2 then none
      else some (((start description).addAll (es.map tagOf)).addAll (divide true rest).2) := by
  have hfollow := divide_follow hes hrest
  obtain ⟨hfirst, htagged⟩ := divide_behind htrim hno (congrArg Prod.fst hfollow)
  rw [assemble, hfirst, htagged, hfollow]
  dsimp only
  rw [List.any_append, any_isGlued_spaced hes, Bool.false_or, addAll_append, addAll_spaced]

/-- The stanzas of a doc comment that has tags, with spaces between them. -/
theorem intercalate_stanzas {d : Doc} (h : d.IsProper)
    {es more : List (List Char × List Char)} {e : List Char × List Char}
    (hentries : d.entries = es ++ e :: more) :
    [' '].intercalate (d.stanzas.map String.toList) = behind d.description.toList
      (follow es (tagText e ++ more.flatMap fun x => ' ' :: tagText x)) := by
  have htags := intercalate_tagText es e more
  rw [toList_stanzas h, hentries]
  unfold behind
  split
  · exact htags
  · obtain ⟨y, ys, hys⟩ := List.exists_cons_of_ne_nil (l := (es ++ e :: more).map tagText) (by simp)
    rw [← htags, hys, List.singleton_append, List.intercalate_cons_cons, List.append_assoc]
    rfl

end Doc

end Rigging
