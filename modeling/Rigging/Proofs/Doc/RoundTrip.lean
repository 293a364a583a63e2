import Rigging.Proofs.Doc.Assemble

/-!
# Writing and reading back

`Doc.Survives` says when a doc comment survives being written: no text has a line that starts with a
star, no description starts with a tag, and the result's description starts with neither a dash nor,
when there are no types, a group in braces.  Then it is read back as it was (`ofComment?_write_of_survives`),
and so is every doc comment that is put together from clean texts (`ofComment?_write_of_isClean`).
-/

namespace Rigging

namespace Doc

open Rigging.Text
open TypeExpr (isName)

/-- What a doc comment has to be like, beyond being one that was read, to be read back. -/
structure Survives (d : Doc) : Prop where
  lines : ∀ t ∈ d.texts, NoStarLine t
  params : ∀ p ∈ d.params, ∀ s, p.description = some s → startsTag s.toList = false
  result : ∀ r, d.result = some r →
    r.Keeps ∧ ∀ s, r.description = some s → startsTag s.toList = false

/-- **A written comment without star lines** is read as its stanzas with spaces between them. -/
theorem ofComment?_write_of_noStarLine {indent : String}
    (hindent : ∀ c ∈ indent.toList, isSpaceOrTab c = true) {d : Doc} (h : d.IsProper)
    (hlines : ∀ t ∈ d.texts, NoStarLine t) (hne : d.stanzas ≠ []) :
    ofComment? (d.write indent) =
      assemble (divide true ([' '].intercalate (d.stanzas.map String.toList))) := by
  rw [ofComment?_write hindent hne, fold_layout hindent]
  intro s hs
  have htext := isText_of_mem_stanzas h s hs
  exact ⟨⟨htext.ne_nil, htext.trimmed⟩, noStarLine_of_mem_stanzas h hlines s hs⟩

/-- The entries that come before the result hold no other tags. -/
theorem isEntry_of_params {ps : List Param}
    (h : ∀ p ∈ ps, p.IsProper ∧ ∀ s, p.description = some s → NoTag false s.toList)
    (hstart : ∀ p ∈ ps, ∀ s, p.description = some s → startsTag s.toList = false) :
    ∀ e ∈ ps.map Param.entry, IsEntry e.1 e.2 := by
  intro e he
  obtain ⟨p, hp, rfl⟩ := List.mem_map.mp he
  exact Param.isEntry (h p hp).1 fun s hs =>
    noTag_true_iff.mpr ⟨(h p hp).2 s hs, hstart p hp s hs⟩

theorem isEntry_of_tags {ts : List Tag} (h : ∀ t ∈ ts, t.IsProper) :
    ∀ e ∈ ts.map Tag.entry, IsEntry e.1 e.2 := by
  intro e he
  obtain ⟨t, ht, rfl⟩ := List.mem_map.mp he
  exact Tag.isEntry (h t ht)

theorem isEntry_of_mem_entries {d : Doc} (h : d.IsProper) (hs : d.Survives) :
    ∀ e ∈ d.entries, IsEntry e.1 e.2 := by
  intro e he
  rw [entries, List.mem_append, List.mem_append] at he
  rcases he with (he | he) | he
  · exact isEntry_of_params h.params hs.params e he
  · exact isEntry_of_tags h.tags e he
  · rw [Option.mem_toList, Option.map_eq_some_iff] at he
    obtain ⟨r, hr, rfl⟩ := he
    exact Result.isEntry (h.result r hr).1 fun s hd =>
      noTag_true_iff.mpr ⟨(h.result r hr).2 s hd, (hs.result r hr).2 s hd⟩

/-- The entries put together give the doc comment. -/
theorem addAll_entries {d : Doc} (h : d.IsProper) (hkeeps : ∀ r, d.result = some r → r.Keeps) :
    (start d.description.toList).addAll (d.entries.map tagOf) = d := by
  have hparams := addAll_params (fun p hp => (h.params p hp).1) (start d.description.toList)
  rw [entries, List.map_append, List.map_append, addAll_append, addAll_append, hparams,
    addAll_tags h.tags]
  cases hr : d.result with
  | none =>
    show (⟨String.ofList d.description.toList, d.tags, d.params, none⟩ : Doc) = d
    rw [String.ofList_toList, ← hr]
  | some r =>
    have hread := Result.read_value (h.result r hr).1 (hkeeps r hr)
    show addTag ⟨String.ofList d.description.toList, d.tags, d.params, none⟩ resultTag r.value = d
    rw [addTag_result _ rfl, hread]
    show (⟨String.ofList d.description.toList, d.tags, d.params, some r⟩ : Doc) = d
    rw [String.ofList_toList, ← hr]

/-- A doc comment without entries is its description. -/
theorem eq_start_of_entries {d : Doc} (h : d.entries = []) : d = start d.description.toList := by
  obtain ⟨hfront, hresult⟩ := List.append_eq_nil_iff.mp h
  obtain ⟨hparams, htags⟩ := List.append_eq_nil_iff.mp hfront
  have hnone : d.result = none := by
    cases hr : d.result with
    | none => rfl
    | some r =>
      rw [hr] at hresult
      cases hresult
  rw [start, String.ofList_toList, ← List.map_eq_nil_iff.mp hparams, ← List.map_eq_nil_iff.mp htags,
    ← hnone]

/-- **What survives is read back.** -/
theorem ofComment?_write_of_survives {indent : String}
    (hindent : ∀ c ∈ indent.toList, isSpaceOrTab c = true) {d : Doc} (h : d.IsProper)
    (hs : d.Survives) (hne : d.stanzas ≠ []) : ofComment? (d.write indent) = some d := by
  have hentry := isEntry_of_mem_entries h hs
  rw [ofComment?_write_of_noStarLine hindent h hs.lines hne]
  rcases List.eq_nil_or_concat d.entries with hnil | ⟨es, e, hes⟩
  · have hdescription : d.description.toList ≠ [] := by
      intro hempty
      have hstanzas := toList_stanzas h
      rw [if_pos hempty, hnil] at hstanzas
      exact hne (List.map_eq_nil_iff.mp hstanzas)
    rw [toList_stanzas h, if_neg hdescription, hnil, List.map_nil, List.append_nil,
      List.intercalate_singleton, divide_of_noTag h.description.2]
    show some (start (trimChars d.description.toList)) = some d
    rw [trimChars_of_trimmed h.description.1, ← eq_start_of_entries hnil]
  · rw [List.concat_eq_append] at hes
    rw [hes] at hentry
    have he := hentry e (List.mem_append_right _ List.mem_cons_self)
    have hlast := divide_tagText he
    have hall : (start d.description.toList).addAll ((es ++ [e]).map tagOf) = d := by
      rw [← hes]
      exact addAll_entries h fun r hr => (hs.result r hr).1
    rw [intercalate_stanzas h hes, List.flatMap_nil, List.append_nil,
      assemble_follow h.description.1 h.description.2
        (fun x hx => hentry x (List.mem_append_left _ hx)) (congrArg Prod.fst hlast), hlast]
    rw [List.map_append, addAll_append] at hall
    rw [List.any_cons, isGlued_of_apart he.apart, List.any_nil, Bool.or_false,
      if_neg Bool.false_ne_true]
    exact congrArg some hall

/-! ### Doc comments of clean texts -/

/-- A clean text: it is not empty, no blanks stand around it, no line of it starts with a star, and it
holds no tag. -/
structure CleanText (s : String) : Prop where
  isText : IsText s.toList
  lines : NoStarLine s.toList
  noTag : NoTag true s.toList

/-- The members of a union that is written as a clean text without braces, or no types at all. -/
def CleanTypes (types : List String) : Prop :=
  types = [] ∨ ∃ s, CleanText s ∧ Unbraced s.toList ∧ types = Union.split s

/-- A doc comment of clean texts.  The description of its result must not look like a dash or like
types. -/
structure IsClean (d : Doc) : Prop where
  description : d.description = "" ∨ CleanText d.description
  tags : ∀ t ∈ d.tags,
    (∃ letters, t.name.toList = '@' :: letters ∧ letters ≠ [] ∧ ∀ c ∈ letters, isTagLetter c = true) ∧
      (t.name ≠ paramTag ∧ t.name ≠ resultTag ∧ t.name ≠ resultAlias) ∧
      ∀ s, t.value = some s → CleanText s
  params : ∀ p ∈ d.params, isName p.name.toList = true ∧ CleanTypes p.types ∧
    ∀ s, p.description = some s → CleanText s
  result : ∀ r, d.result = some r → CleanTypes r.types ∧ ∀ s, r.description = some s →
    CleanText s ∧ s.toList.head? ≠ some '-' ∧ (r.types = [] → ¬StartsGroup s.toList)

/-- Clean types are proper types, and no line of theirs starts with a star. -/
theorem CleanTypes.spec {types : List String} (h : CleanTypes types) :
    IsTypes (types.map String.toList) ∧ ∀ t ∈ types.map String.toList, NoStarLine t := by
  rcases h with rfl | ⟨s, hclean, hunbraced, rfl⟩
  · exact ⟨⟨⟨fun _ ht => (nomatch ht), fun _ ht => (nomatch ht)⟩, fun _ ht => (nomatch ht),
      fun _ ht => (nomatch ht)⟩, fun _ ht => (nomatch ht)⟩
  · have hmap : (Union.split s).map String.toList = Union.members s.toList := by
      rw [Union.split, Union.map_toList_ofList]
    rw [hmap]
    refine ⟨⟨Union.isUnion_members _, fun t ht c hc => ?_, fun t ht => ?_⟩, fun t ht => ?_⟩
    · exact hunbraced c ((Union.infix_of_mem_members ht).subset hc)
    · exact noTag_infix hclean.noTag (Union.infix_of_mem_members ht)
    · exact noStarLine_infix hclean.lines (Union.infix_of_mem_members ht)

theorem IsClean.isProper {d : Doc} (h : d.IsClean) : d.IsProper := by
  refine ⟨?_, fun p hp => ?_, fun t ht => ?_, fun r hr => ?_⟩
  · rcases h.description with hempty | hclean
    · rw [hempty]
      exact ⟨trimmed_nil, trivial⟩
    · exact ⟨hclean.isText.trimmed, hclean.noTag⟩
  · obtain ⟨hname, htypes, hdescription⟩ := h.params p hp
    exact ⟨⟨htypes.spec.1, ⟨_, hname, Or.inl rfl⟩, fun s hs => (hdescription s hs).isText⟩,
      fun s hs => noTag_false_of_noTag (hdescription s hs).noTag⟩
  · obtain ⟨hletters, hkept, hvalue⟩ := h.tags t ht
    exact ⟨hletters, hkept, fun s hs => ⟨(hvalue s hs).isText, (hvalue s hs).noTag⟩⟩
  · obtain ⟨htypes, hdescription⟩ := h.result r hr
    exact ⟨⟨htypes.spec.1, fun s hs => (hdescription s hs).1.isText⟩,
      fun s hs => noTag_false_of_noTag (hdescription s hs).1.noTag⟩

/-- The texts of clean types and a clean description. -/
theorem noStarLine_textsOf {types : List String} {description : Option String}
    (htypes : ∀ t ∈ types.map String.toList, NoStarLine t)
    (hdescription : ∀ s, description = some s → CleanText s) :
    ∀ t ∈ textsOf types description, NoStarLine t := by
  intro t ht
  rcases List.mem_append.mp ht with ht | ht
  · exact htypes t ht
  · rw [Option.mem_toList, Option.map_eq_some_iff] at ht
    obtain ⟨s, hs, rfl⟩ := ht
    exact (hdescription s hs).lines

theorem IsClean.survives {d : Doc} (h : d.IsClean) : d.Survives := by
  refine ⟨fun t ht => ?_, fun p hp s hs => ?_, fun r hr => ⟨fun s hs => ?_, fun s hs => ?_⟩⟩
  · rw [texts, List.mem_append, List.mem_append, List.mem_cons, List.mem_flatMap, List.mem_flatMap,
      List.mem_flatMap] at ht
    rcases ht with ((rfl | ⟨p, hp, ht⟩) | ⟨g, hg, ht⟩) | ⟨r, hr, ht⟩
    · rcases h.description with hempty | hclean
      · rw [hempty]
        trivial
      · exact hclean.lines
    · obtain ⟨_, htypes, hdescription⟩ := h.params p hp
      exact noStarLine_textsOf htypes.spec.2 hdescription t ht
    · exact noStarLine_textsOf (fun _ hmem => by cases hmem) (h.tags g hg).2.2 t ht
    · obtain ⟨htypes, hdescription⟩ := h.result r (Option.mem_toList.mp hr)
      exact noStarLine_textsOf htypes.spec.2 (fun s hs => (hdescription s hs).1) t ht
  · exact (noTag_true_iff.mp ((h.params p hp).2.2 s hs).noTag).2
  · exact ((h.result r hr).2 s hs).2
  · exact (noTag_true_iff.mp ((h.result r hr).2 s hs).1.noTag).2

/-- Only the empty doc comment has no stanzas. -/
theorem stanzas_ne_nil {d : Doc} (h : d.IsProper) (hne : d ≠ Doc.empty) : d.stanzas ≠ [] := by
  intro hnil
  have hstanzas := toList_stanzas h
  rw [hnil, List.map_nil] at hstanzas
  obtain ⟨hdescription, hentries⟩ := List.append_eq_nil_iff.mp hstanzas.symm
  have hempty : d.description.toList = [] := by
    by_contra hcontra
    rw [if_neg hcontra] at hdescription
    cases hdescription
  refine hne ((eq_start_of_entries (List.map_eq_nil_iff.mp hentries)).trans ?_)
  rw [hempty]
  rfl

/-- **Reading undoes writing** for every doc comment of clean texts that says something. -/
theorem ofComment?_write_of_isClean {indent : String}
    (hindent : ∀ c ∈ indent.toList, isSpaceOrTab c = true) {d : Doc} (h : d.IsClean)
    (hne : d ≠ Doc.empty) : ofComment? (d.write indent) = some d :=
  ofComment?_write_of_survives hindent h.isProper h.survives (stanzas_ne_nil h.isProper hne)

/-- A doc comment with a line end in its description, a union inside a type, a second dash in front of
a description and a brace that opens no group. -/
def petDoc : Doc :=
  ⟨"Finds\n a pet.", [⟨"@async", none⟩, ⟨"@since", some "v1 (mail@home)"⟩],
    [⟨"id", ["Map<a|b>", "c"], some "- its @ key", false⟩, ⟨"all", [], none, true⟩],
    some ⟨[], some "\x7bthe pet"⟩⟩

theorem petDoc_isClean : petDoc.IsClean := by
  refine ⟨Or.inr ⟨⟨by decide, by decide⟩, by decide, by decide⟩, ?_, ?_, ?_⟩
  · rw [petDoc, List.forall_mem_cons, List.forall_mem_singleton]
    refine ⟨⟨⟨_, rfl, by decide, by decide⟩, by decide, ?_⟩,
      ⟨_, rfl, by decide, by decide⟩, by decide, ?_⟩
    · rintro s ⟨⟩
    · rintro s ⟨⟩
      exact ⟨⟨by decide, by decide⟩, by decide, by decide⟩
  · rw [petDoc, List.forall_mem_cons, List.forall_mem_singleton]
    refine ⟨⟨by decide, Or.inr ⟨"Map<a|b> | c", ?_, by decide, by decide⟩, ?_⟩,
      by decide, Or.inl rfl, ?_⟩
    · exact ⟨⟨by decide, by decide⟩, by decide, by decide⟩
    · rintro s ⟨⟩
      exact ⟨⟨by decide, by decide⟩, by decide, by decide⟩
    · rintro s ⟨⟩
  · rintro r ⟨⟩
    refine ⟨Or.inl rfl, ?_⟩
    rintro s ⟨⟩
    refine ⟨⟨⟨by decide, by decide⟩, by decide, by decide⟩, by decide, fun _ => ?_⟩
    exact braced?_eq_none_iff.mp (by decide)

theorem ofComment?_write_petDoc : petDoc.IsClean ∧ petDoc ≠ Doc.empty ∧
    ofComment? (petDoc.write "\t ") = some petDoc :=
  ⟨petDoc_isClean, by decide, ofComment?_write_of_isClean (by decide) petDoc_isClean (by decide)⟩

end Doc

end Rigging
