import Rigging.Proofs.Doc.RoundTrip

/-!
# What reading gives, and when it comes back

Every doc comment that has been read is proper (`isProper_of_ofComment?`), so what has been shown about
proper ones is true of all of them.  Written and read again it is the same exactly when it survives
(`ofComment?_write_iff_survives`): each way of not surviving leaves a trace in what is read, a line end
that is gone or a description that is cut off.
-/

namespace Rigging

namespace Doc

open Rigging.Text

/-! ### What reading gives -/

theorem wordStartBehind_blanks {l : List Char} (h : AllBlank l) : wordStartBehind true l = true := by
  induction l with
  | nil => rfl
  | cons c l ih =>
    rw [wordStartBehind, h c List.mem_cons_self]
    exact ih fun d hd => h d (List.mem_cons_of_mem _ hd)

theorem noTag_trimChars {cs : List Char} (h : NoTag true cs) : NoTag true (trimChars cs) := by
  obtain ⟨l, r, hsplit, hl, _⟩ := trimChars_split cs
  rw [hsplit] at h
  have hright := noTag_right (noTag_left h)
  rwa [wordStartBehind_blanks hl] at hright

/-- A text that stands apart from its tag may start like a word. -/
theorem noTag_true_of_isGlued {v : List Char} (h : NoTag false v) (hglued : isGlued v = false) :
    NoTag true v := by
  refine noTag_true_iff.mpr ⟨h, ?_⟩
  cases v with
  | nil => rfl
  | cons c cs =>
    rw [← Bool.not_eq_true]
    intro hstarts
    obtain ⟨rfl, _⟩ := startsTag_cons.mp hstarts
    cases hglued

/-- The sum over the texts, part by part. -/
theorem sum_texts (f : List Char → Nat) (d : Doc) :
    (d.texts.map f).sum = f d.description.toList +
      ((d.params.flatMap fun p => textsOf p.types p.description).map f).sum +
      ((d.tags.flatMap fun t => textsOf [] t.value).map f).sum +
      ((d.result.toList.flatMap fun r => textsOf r.types r.description).map f).sum := by
  rw [texts, List.map_append, List.map_append, List.map_cons, List.sum_append, List.sum_append,
    List.sum_cons]

/-- **One tag more**: the doc comment stays proper, and its texts have no line ends that were not
there. -/
theorem addTag_spec {doc : Doc} (h : doc.IsProper) {name : String} {letters v : List Char}
    (hname : name.toList = '@' :: letters) (hne : letters ≠ [])
    (hletters : ∀ c ∈ letters, isTagLetter c = true) (hno : NoTag true v) :
    (doc.addTag name v).IsProper ∧ ((doc.addTag name v).texts.map (List.countP isLineEnd)).sum ≤
      (doc.texts.map (List.countP isLineEnd)).sum + v.countP isLineEnd := by
  have htrim := noTag_trimChars hno
  have hcount : (trimChars v).countP isLineEnd ≤ v.countP isLineEnd := (sublist_trimChars v).countP_le
  rw [sum_texts, sum_texts]
  unfold addTag
  split
  · split
    · rename_i p hread
      obtain ⟨hproper, hdescription, hends⟩ := Param.read?_spec htrim hread
      refine ⟨⟨h.description, fun q hq => ?_, h.tags, h.result⟩, ?_⟩
      · rcases List.mem_append.mp hq with hq | hq
        · exact h.params q hq
        · rw [List.mem_singleton.mp hq]
          exact ⟨hproper, hdescription⟩
      · have := hends isLineEnd
        dsimp only
        rw [List.flatMap_append, List.map_append, List.sum_append, List.flatMap_singleton]
        omega
    · exact ⟨h, by omega⟩
  · split
    · split
      · exact ⟨h, by omega⟩
      · rename_i hnone
        obtain ⟨hproper, hdescription, hends⟩ := Result.read_spec htrim
        refine ⟨⟨h.description, h.params, h.tags, fun r hr => ?_⟩, ?_⟩
        · obtain rfl := Option.some.inj hr
          exact ⟨hproper, hdescription⟩
        · have := hends isLineEnd
          dsimp only
          rw [Option.toList_some, List.flatMap_singleton]
          omega
    · rename_i hparam hresult
      rw [Bool.or_eq_true, decide_eq_true_eq, decide_eq_true_eq, not_or] at hresult
      refine ⟨⟨h.description, h.params, fun t ht => ?_, h.result⟩, ?_⟩
      · rcases List.mem_append.mp ht with ht | ht
        · exact h.tags t ht
        · rw [List.mem_singleton.mp ht]
          refine ⟨⟨letters, hname, hne, hletters⟩, ⟨hparam, hresult⟩, fun s hs => ?_⟩
          obtain ⟨hs, htext⟩ := trimmed?_eq_some hs
          exact ⟨htext, hs ▸ htrim⟩
      · dsimp only
        rw [List.flatMap_append, List.map_append, List.sum_append, List.flatMap_singleton]
        cases hv : trimmed? v with
        | none => exact Nat.le_add_right_of_le (Nat.le_of_eq rfl)
        | some s =>
          rw [sum_textsOf_some, (trimmed?_eq_some hv).1, List.map_nil, List.sum_nil]
          omega

/-- **All tags of a divided text**, from the first to the last. -/
theorem addAll_spec {ts : List (List Char × List Char)}
    (hts : ∀ t ∈ ts, (∃ letters, t.1 = '@' :: letters ∧ letters ≠ [] ∧
      ∀ c ∈ letters, isTagLetter c = true) ∧ NoTag true t.2) {doc : Doc} (h : doc.IsProper) :
    (doc.addAll ts).IsProper ∧ ((doc.addAll ts).texts.map (List.countP isLineEnd)).sum ≤
      (doc.texts.map (List.countP isLineEnd)).sum + (ts.map fun t => t.2.countP isLineEnd).sum := by
  induction ts generalizing doc with
  | nil => exact ⟨h, Nat.le_refl _⟩
  | cons t ts ih =>
    obtain ⟨⟨letters, hname, hne, hletters⟩, hno⟩ := hts t List.mem_cons_self
    obtain ⟨hproper, hends⟩ :=
      addTag_spec h ((String.toList_ofList).trans hname) hne hletters hno
    obtain ⟨hall, hallEnds⟩ := ih (fun u hu => hts u (List.mem_cons_of_mem _ hu)) hproper
    refine ⟨hall, ?_⟩
    rw [List.map_cons, List.sum_cons]
    exact hallEnds.trans (by omega)

/-- **What is put together from a divided text** is proper and has no other line ends. -/
theorem assemble_spec {cs : List Char} {d : Doc} (h : assemble (divide true cs) = some d) :
    d.IsProper ∧ (d.texts.map (List.countP isLineEnd)).sum ≤ cs.countP isLineEnd := by
  obtain ⟨hfirst, htagged⟩ := divide_spec cs true
  have hends := countP_divide (p := isLineEnd) (by decide)
    (fun c hc => isLineEnd_of_solid (isBlank_of_isTagLetter hc)) cs true
  unfold assemble at h
  split at h
  · cases h
  · rename_i hglued
    obtain rfl := Option.some.inj h
    rw [Bool.not_eq_true, List.any_eq_false] at hglued
    have hstart : (start (trimChars (divide true cs).1)).IsProper := by
      refine ⟨?_, fun _ hp => (nomatch hp), fun _ ht => (nomatch ht), fun _ hr => (nomatch hr)⟩
      rw [start, String.toList_ofList]
      exact ⟨trimmed_trimChars _, noTag_trimChars hfirst⟩
    have hts : ∀ t ∈ (divide true cs).2, (∃ letters, t.1 = '@' :: letters ∧ letters ≠ [] ∧
        ∀ c ∈ letters, isTagLetter c = true) ∧ NoTag true t.2 := by
      intro t ht
      obtain ⟨letters, hname, hne, hletters, hno⟩ := htagged t ht
      exact ⟨⟨letters, hname, hne, hletters⟩,
        noTag_true_of_isGlued hno (by simpa using hglued t ht)⟩
    obtain ⟨hproper, hle⟩ := addAll_spec hts hstart
    refine ⟨hproper, ?_⟩
    have htrim : (trimChars (divide true cs).1).countP isLineEnd ≤
        (divide true cs).1.countP isLineEnd := (sublist_trimChars _).countP_le
    have hdescription : ((start (trimChars (divide true cs).1)).texts.map
        (List.countP isLineEnd)).sum = (trimChars (divide true cs).1).countP isLineEnd := by
      rw [sum_texts, start, String.toList_ofList]
      rfl
    omega

/-- **Every doc comment that has been read is proper.** -/
theorem isProper_of_ofComment? {c : String} {d : Doc} (h : ofComment? c = some d) : d.IsProper := by
  unfold ofComment? at h
  cases htext : (body c).toList with
  | nil =>
    rw [read?, htext] at h
    cases h
  | cons x cs =>
    by_cases hx : x = '*'
    · subst hx
      rw [read?_star htext] at h
      exact (assemble_spec h).1
    · rw [read?, htext] at h
      split at h
      · rename_i heq
        exact absurd (List.cons.inj heq).1 hx
      · cases h

/-! ### What comes back has survived -/

theorem divide_fst_of_startsTag {cs : List Char} (h : startsTag cs = true) :
    (divide true cs).1 = [] := by
  cases cs with
  | nil => cases h
  | cons c cs =>
    obtain ⟨rfl, d, ds, rfl, hd⟩ := startsTag_cons.mp h
    have hhead : divide false (d :: ds) = (d :: (divide (isBlank d) ds).1, (divide (isBlank d) ds).2) :=
      divide_cons rfl fun hc => absurd hc.1 Bool.false_ne_true
    have hstarts : startsTag ('@' :: (divide false (d :: ds)).1) = true := by
      rw [hhead]
      exact hd
    exact congrArg Prod.fst (divide_of_startsTag hstarts).2

theorem startsTag_append {s : List Char} (h : startsTag s = true) (r : List Char) :
    startsTag (s ++ r) = true := by
  cases s with
  | nil => cases h
  | cons c s =>
    obtain ⟨rfl, d, ds, rfl, hd⟩ := startsTag_cons.mp h
    exact hd

theorem follow_concat (es : List (List Char × List Char)) (e : List Char × List Char)
    (rest : List Char) : follow (es ++ [e]) rest = follow es (tagText e ++ ' ' :: rest) :=
  List.foldr_append

section ReadBack

variable {d : Doc} (h : d.IsProper)
  (hread : assemble (divide true ([' '].intercalate (d.stanzas.map String.toList))) = some d)

include h hread

/-- When the entries are followed by a tag, what they give is in the doc comment that is read. -/
theorem eq_addAll_of_read {es es' more : List (List Char × List Char)} {e : List Char × List Char}
    {rest : List Char} (hentries : d.entries = es ++ e :: more)
    (htext : follow es (tagText e ++ more.flatMap fun x => ' ' :: tagText x) = follow es' rest)
    (hes : ∀ x ∈ es', IsEntry x.1 x.2) (hrest : (divide true rest).1 = []) :
    d = ((start d.description.toList).addAll (es'.map tagOf)).addAll (divide true rest).2 := by
  rw [intercalate_stanzas h hentries, htext,
    assemble_follow h.description.1 h.description.2 hes hrest] at hread
  split at hread
  · cases hread
  · exact (Option.some.inj hread).symm

/-- An entry that a tag cuts off is read up to the tag. -/
theorem eq_addAll_of_cut {es more : List (List Char × List Char)} {e cut : List Char × List Char}
    {s : List Char} (hentries : d.entries = es ++ e :: more)
    (hentry : tagText e = tagText cut ++ ' ' :: s) (hstarts : startsTag s = true)
    (hes : ∀ x ∈ es, IsEntry x.1 x.2) (hcut : IsEntry cut.1 cut.2) :
    ∃ doc ts, doc = ((start d.description.toList).addAll (es.map tagOf)).addTag
      (String.ofList ('@' :: cut.1)) cut.2 ∧ d = doc.addAll ts := by
  have htext : follow es (tagText e ++ more.flatMap fun x => ' ' :: tagText x) =
      follow (es ++ [cut]) (s ++ more.flatMap fun x => ' ' :: tagText x) := by
    rw [follow_concat, hentry, List.append_assoc]
    rfl
  have hall : ∀ x ∈ es ++ [cut], IsEntry x.1 x.2 := by
    intro x hx
    rcases List.mem_append.mp hx with hx | hx
    · exact hes x hx
    · rw [List.mem_singleton.mp hx]
      exact hcut
  have hd := eq_addAll_of_read h hread hentries htext hall
    (divide_fst_of_startsTag (startsTag_append hstarts _))
  rw [List.map_append, addAll_append] at hd
  exact ⟨_, _, rfl, hd⟩

/-- **No description of a parameter starts with a tag**: the first that did would be missing from what
is read. -/
theorem startsTag_param_of_read {ps qs : List Param} {p : Param} (hparams : d.params = ps ++ p :: qs)
    (hps : ∀ q ∈ ps, ∀ s, q.description = some s → startsTag s.toList = false) :
    ∀ s, p.description = some s → startsTag s.toList = false := by
  intro s hs
  rw [← Bool.not_eq_true]
  intro hstarts
  have hproper : ∀ q ∈ ps ++ p :: qs,
      q.IsProper ∧ ∀ s, q.description = some s → NoTag false s.toList := hparams ▸ h.params
  have hp := (hproper p (List.mem_append_right _ List.mem_cons_self)).1
  have hfront : ∀ q ∈ ps, q.IsProper ∧ ∀ s, q.description = some s → NoTag false s.toList :=
    fun q hq => hproper q (List.mem_append_left _ hq)
  have hentries : d.entries = ps.map Param.entry ++ p.entry ::
      (qs.map Param.entry ++ d.tags.map Tag.entry ++ (d.result.map Result.entry).toList) := by
    rw [entries, hparams, List.map_append, List.map_cons]
    simp only [List.append_assoc, List.cons_append]
  have hentry : tagText p.entry = tagText (['p', 'a', 'r', 'a', 'm'],
      typesText (p.types.map String.toList) ++
        ' ' :: (nameText p.optional p.name.toList ++ [' ', '-'])) ++ ' ' :: s.toList := by
    simp [tagText, Param.entry, Param.value, hs, dashText]
  -- the parameter is read up to its dash, so without its description
  obtain ⟨doc, ts, hdoc, hd⟩ := eq_addAll_of_cut h hread hentries hentry hstarts
    (isEntry_of_params hfront hps) (Param.isEntry_dash hp)
  have hcut : doc.params = ps ++ [{ p with description := none }] := by
    rw [addAll_params fun q hq => (hfront q hq).1] at hdoc
    rw [hdoc]
    exact congrArg Doc.params (addTag_param (Param.read?_dash hp) _)
  have hstays := params_addAll ts doc
  rw [← hd, hcut, hparams, List.prefix_append_right_inj, List.cons_prefix_cons] at hstays
  have hnone := congrArg Param.description hstays.1
  rw [hs] at hnone
  cases hnone

theorem startsTag_params_of_read :
    ∀ p ∈ d.params, ∀ s, p.description = some s → startsTag s.toList = false := by
  have hall : ∀ qs ps : List Param, d.params = ps ++ qs →
      (∀ q ∈ ps, ∀ s, q.description = some s → startsTag s.toList = false) →
      ∀ q ∈ qs, ∀ s, q.description = some s → startsTag s.toList = false := by
    intro qs
    induction qs with
    | nil => exact fun _ _ _ _ hq => nomatch hq
    | cons p qs ih =>
      intro ps hparams hps
      have hp := startsTag_param_of_read h hread hparams hps
      have hrest := ih (ps ++ [p]) (by rw [hparams, List.append_assoc]; rfl) fun q hq => by
        rcases List.mem_append.mp hq with hq | hq
        · exact hps q hq
        · rw [List.mem_singleton.mp hq]
          exact hp
      intro q hq
      rcases List.mem_cons.mp hq with rfl | hq
      · exact hp
      · exact hrest q hq
  exact hall d.params [] rfl fun _ hq => nomatch hq

/-- **The result comes back**, so its description starts with nothing that is read otherwise. -/
theorem result_of_read {r : Result} (hr : d.result = some r) :
    r.Keeps ∧ ∀ s, r.description = some s → startsTag s.toList = false := by
  obtain ⟨hproper, hno⟩ := h.result r hr
  have hentries : d.entries = (d.params.map Param.entry ++ d.tags.map Tag.entry) ++ [r.entry] := by
    rw [entries, hr]
    rfl
  have hes : ∀ e ∈ d.params.map Param.entry ++ d.tags.map Tag.entry, IsEntry e.1 e.2 := by
    intro e he
    rcases List.mem_append.mp he with he | he
    · exact isEntry_of_params h.params (startsTag_params_of_read h hread) e he
    · exact isEntry_of_tags h.tags e he
  have hfront : ((start d.description.toList).addAll
      ((d.params.map Param.entry ++ d.tags.map Tag.entry).map tagOf)).result = none := by
    rw [List.map_append, addAll_append, addAll_params fun p hp => (h.params p hp).1,
      addAll_tags h.tags]
    rfl
  have hstarts : ∀ s, r.description = some s → startsTag s.toList = false := by
    intro s hs
    rw [← Bool.not_eq_true]
    intro hstarts
    have hcut : Result.IsProper ⟨r.types, none⟩ := ⟨hproper.types, by rintro _ ⟨⟩⟩
    have hkeeps : Result.Keeps ⟨r.types, none⟩ := by rintro _ ⟨⟩
    have hentry : tagText r.entry = tagText (Result.entry ⟨r.types, none⟩) ++ ' ' :: s.toList := by
      simp [tagText, Result.entry, Result.value, hs, spaceText]
    obtain ⟨doc, ts, hdoc, hd⟩ := eq_addAll_of_cut h hread hentries hentry hstarts hes
      (Result.isEntry hcut (by rintro _ ⟨⟩))
    have hresult : doc.result = some ⟨r.types, none⟩ := by
      rw [hdoc]
      refine (congrArg Doc.result (addTag_result _ hfront)).trans ?_
      exact congrArg some (Result.read_value hcut hkeeps)
    have hback := result_addAll ts hresult
    rw [← hd, hr] at hback
    have hnone := congrArg Result.description (Option.some.inj hback)
    rw [hs] at hnone
    cases hnone
  refine ⟨Result.keeps_of_read_value hproper ?_, hstarts⟩
  have hlast := divide_tagText (Result.isEntry hproper fun s hs =>
    noTag_true_iff.mpr ⟨hno s hs, hstarts s hs⟩)
  have hd := eq_addAll_of_read h hread hentries
    (by rw [List.flatMap_nil, List.append_nil]) hes (congrArg Prod.fst hlast)
  have hback := congrArg Doc.result hd
  rw [hlast, hr] at hback
  exact (Option.some.inj (hback.trans (congrArg Doc.result (addTag_result _ hfront)))).symm

end ReadBack

/-- Line ends in front of a star do not come back. -/
theorem noStarLine_of_read {indent : String} (hindent : ∀ c ∈ indent.toList, isSpaceOrTab c = true)
    {d : Doc} (h : d.IsProper) (hne : d.stanzas ≠ []) (hread : ofComment? (d.write indent) = some d) :
    ∀ t ∈ d.texts, NoStarLine t := by
  have htexts : ∀ s ∈ d.stanzas.map String.toList, s ≠ [] ∧ Trimmed s := fun s hs =>
    ⟨(isText_of_mem_stanzas h s hs).ne_nil, (isText_of_mem_stanzas h s hs).trimmed⟩
  rw [ofComment?_write hindent hne] at hread
  have hle := (assemble_spec hread).2.trans (countP_fold_layout_le hindent htexts)
  rw [sum_stanzas isEndCount_bareEnds h] at hle
  exact noStarLine_of_sum_le hle

/-- **A doc comment that has been read comes back exactly when it survives being written.** -/
theorem ofComment?_write_iff_survives {c indent : String} {d : Doc} (hd : ofComment? c = some d)
    (hindent : ∀ x ∈ indent.toList, isSpaceOrTab x = true) (hne : d.write indent ≠ "") :
    ofComment? (d.write indent) = some d ↔ d.Survives := by
  have h := isProper_of_ofComment? hd
  have hstanzas : d.stanzas ≠ [] := by
    intro hnil
    rw [write, hnil] at hne
    exact hne rfl
  refine ⟨fun hread => ?_, fun hs => ofComment?_write_of_survives hindent h hs hstanzas⟩
  have hlines := noStarLine_of_read hindent h hstanzas hread
  rw [ofComment?_write_of_noStarLine hindent h hlines hstanzas] at hread
  exact ⟨hlines, startsTag_params_of_read h hread, fun r hr => result_of_read h hread hr⟩

/-- A comment that `petDoc` is read from. -/
def petComment : String :=
  "/** Finds\n a pet. @async @since v1 (mail@home)\n * @param \x7bMap<a|b> | c\x7d id - - its @ key\n" ++
    " * @param [all=none] @return \x7bthe pet */"

theorem ofComment?_write_of_petComment : ofComment? petComment = some petDoc ∧ petDoc.Survives ∧
    ofComment? (petDoc.write "  ") = some petDoc := by
  have hread : ofComment? petComment = some petDoc := by decide +kernel
  have hs := petDoc_isClean.survives
  exact ⟨hread, hs, (ofComment?_write_iff_survives hread (by decide) (by decide)).mpr hs⟩

/-- A result whose description starts with a dash is read, and the dash does not come back. -/
theorem ofComment?_write_dash :
    let d : Doc := ⟨"", [], [], some ⟨[], some "- foo"⟩⟩
    ofComment? "/** @returns - - foo */" = some d ∧ d.write "  " ≠ "" ∧
      ofComment? (d.write "  ") = some ⟨"", [], [], some ⟨[], some "foo"⟩⟩ := by
  decide

end Doc

end Rigging
