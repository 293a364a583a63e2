import Rigging.Declaration.Member
import Rigging.Entity.Resolve
import Rigging.Proofs.Doc.Assemble
import Rigging.Proofs.TypeExpr

/-!
# Comments end where they are closed

A block comment ends at the first star with a slash behind it.  Reading takes a comment apart, drops
some of its pieces and puts others side by side; none of this makes such an end where there was none,
since every piece that is kept is cut out of the comment in one piece, and folding and writing always
put another character between two pieces.  So a comment that has been read and is written again is
closed by its last two characters and nowhere before (`NoEnds.enclosed`,
`enclosed_comment_of_function`).
-/

namespace Rigging

namespace Doc

open Rigging.Text

/-! ### Texts without an end -/

/-- No comment ends within the text. -/
def NoEnd (cs : List Char) : Prop :=
  ¬['*', '/'] <:+: cs

instance (cs : List Char) : Decidable (NoEnd cs) :=
  inferInstanceAs (Decidable (¬_))

theorem noEnd_nil : NoEnd [] := by decide

theorem noEnd_cons {c : Char} {cs : List Char} :
    NoEnd (c :: cs) ↔ ¬(c = '*' ∧ cs.head? = some '/') ∧ NoEnd cs := by
  rw [NoEnd, List.infix_cons_iff, not_or, List.cons_prefix_cons]
  refine and_congr_left fun _ => not_congr (and_congr eq_comm ?_)
  cases cs with
  | nil => simp
  | cons d ds => simp [List.cons_prefix_cons, eq_comm]

/-- A part of a text without an end has none. -/
theorem NoEnd.part {cs m : List Char} (h : NoEnd cs) (hm : m <:+: cs) : NoEnd m :=
  fun hend => h (hend.trans hm)

theorem NoEnd.trimChars {cs : List Char} (h : NoEnd cs) : NoEnd (trimChars cs) := by
  obtain ⟨l, r, hsplit, _, _⟩ := trimChars_split cs
  exact h.part ⟨l, r, hsplit.symm⟩

theorem noEnd_of_noStar {cs : List Char} (h : '*' ∉ cs) : NoEnd cs :=
  fun hend => h (hend.subset List.mem_cons_self)

/-- Two texts without an end have none together when none is made where they meet. -/
theorem noEnd_append {s r : List Char} (hs : NoEnd s) (hr : NoEnd r)
    (hmeet : s.getLast? ≠ some '*' ∨ r.head? ≠ some '/') : NoEnd (s ++ r) := by
  induction s with
  | nil => exact hr
  | cons c s ih =>
    obtain ⟨hc, hs⟩ := noEnd_cons.mp hs
    cases s with
    | nil =>
      refine noEnd_cons.mpr ⟨?_, hr⟩
      rintro ⟨rfl, hslash⟩
      rcases hmeet with hstar | hhead
      · exact hstar rfl
      · exact hhead hslash
    | cons d s => exact noEnd_cons.mpr ⟨hc, ih hs hmeet⟩

/-- A text that can stand behind every other: it has no end and completes none. -/
structure Follows (r : List Char) : Prop where
  noEnd : NoEnd r
  head : r.head? ≠ some '/'

theorem NoEnd.append {s r : List Char} (hs : NoEnd s) (hr : Follows r) : NoEnd (s ++ r) :=
  noEnd_append hs hr.noEnd (.inr hr.head)

theorem follows_nil : Follows [] := ⟨noEnd_nil, by decide⟩

theorem follows_cons {c : Char} {r : List Char} (hstar : c ≠ '*') (hslash : c ≠ '/')
    (h : NoEnd r) : Follows (c :: r) :=
  ⟨noEnd_cons.mpr ⟨fun hend => hstar hend.1, h⟩, fun hhead => hslash (Option.some.inj hhead)⟩

/-- The text ends with the end of a comment, and there is none in front of it. -/
structure EndsOnce (cs : List Char) : Prop where
  ends : ['*', '/'] <:+ cs
  once : ∀ front back, cs = front ++ '*' :: '/' :: back → back = []

theorem endsOnce_append {cs : List Char} : EndsOnce (cs ++ ['*', '/']) ↔ NoEnd (cs ++ ['*']) := by
  constructor
  · rintro ⟨_, honce⟩ ⟨front, back, hsplit⟩
    have hnil := honce front (back ++ ['/']) (by
      rw [List.append_cons, ← hsplit]
      simp)
    exact List.concat_ne_nil _ _ hnil
  · refine fun hno => ⟨List.suffix_append _ _, fun front back hsplit => ?_⟩
    rcases List.eq_nil_or_concat back with rfl | ⟨back, c, rfl⟩
    · rfl
    · have hlast : (cs ++ ['*']) ++ ['/'] = (front ++ ['*', '/'] ++ back) ++ [c] := by
        simpa using hsplit
      exact absurd ⟨front, back, (List.append_inj' hlast rfl).1.symm⟩ hno

/-- That is to say that there is no end when the last character is missing. -/
theorem endsOnce_iff {cs : List Char} : EndsOnce cs ↔ ['*', '/'] <:+ cs ∧ NoEnd cs.dropLast := by
  have hinit (t : List Char) : (t ++ ['*', '/']).dropLast = t ++ ['*'] := by simp
  constructor
  · intro h
    obtain ⟨t, rfl⟩ := h.ends
    exact ⟨h.ends, hinit t ▸ endsOnce_append.mp h⟩
  · rintro ⟨⟨t, rfl⟩, hno⟩
    exact endsOnce_append.mpr (hinit t ▸ hno)

instance (cs : List Char) : Decidable (EndsOnce cs) :=
  decidable_of_iff' _ endsOnce_iff

/-! ### What reading keeps -/

theorem head?_foldBreaks {cs : List Char} (h : (foldBreaks 0 cs).head? = some '/') :
    cs.head? = some '/' := by
  cases cs with
  | nil =>
    rw [foldBreaks] at h
    cases h
  | cons c cs =>
    cases hlen : breakLength false 0 0 (c :: cs) with
    | zero =>
      rw [foldBreaks_of_zero hlen] at h
      exact h
    | succ n =>
      rw [foldBreaks_of_succ hlen] at h
      cases h

/-- **Folding makes no end**: a break becomes a space, which stays between what it divides. -/
theorem NoEnd.foldBreaks {cs : List Char} (h : NoEnd cs) (n : Nat) : NoEnd (foldBreaks n cs) := by
  induction cs generalizing n with
  | nil =>
    rw [Doc.foldBreaks]
    exact noEnd_nil
  | cons c cs ih =>
    obtain ⟨hc, hcs⟩ := noEnd_cons.mp h
    cases n with
    | succ n => exact ih hcs n
    | zero =>
      cases hlen : breakLength false 0 0 (c :: cs) with
      | zero =>
        rw [foldBreaks_of_zero hlen]
        exact noEnd_cons.mpr ⟨fun hstar => hc ⟨hstar.1, head?_foldBreaks hstar.2⟩, ih hcs 0⟩
      | succ m =>
        rw [foldBreaks_of_succ hlen, ← foldBreaks_skip]
        exact noEnd_cons.mpr ⟨fun hstar => absurd hstar.1 (by decide), ih hcs m⟩

/-- The pieces of a divided text are parts of it. -/
theorem divide_infix (cs : List Char) : ∀ w : Bool,
    (divide w cs).1 <+: cs ∧ ∀ t ∈ (divide w cs).2, t.2 <:+: cs := by
  induction cs with
  | nil => exact fun _ => ⟨List.prefix_rfl, fun _ ht => (nomatch ht)⟩
  | cons c cs ih =>
    intro w
    obtain ⟨hfirst, htagged⟩ := ih (isBlank c)
    by_cases htag : w = true ∧ startsTag (c :: (divide (isBlank c) cs).1) = true
    · obtain ⟨rfl, hstarts⟩ := htag
      obtain ⟨rfl, _⟩ := startsTag_cons.mp hstarts
      have hblank : isBlank '@' = false := by decide
      rw [hblank] at hfirst htagged hstarts
      rw [(divide_of_startsTag hstarts).2]
      refine ⟨List.nil_prefix, fun t ht => ?_⟩
      rcases List.mem_cons.mp ht with rfl | ht
      · exact (List.dropWhile_suffix _).isInfix.trans
          (hfirst.isInfix.trans (List.suffix_cons _ _).isInfix)
      · exact (htagged t ht).trans (List.suffix_cons _ _).isInfix
    · rw [divide_cons rfl htag]
      refine ⟨List.cons_prefix_cons.mpr ⟨rfl, hfirst⟩, fun t ht => ?_⟩
      exact (htagged t ht).trans (List.suffix_cons _ _).isInfix

/-- No text of a parameter has an end in it. -/
structure Param.NoEnds (p : Param) : Prop where
  name : NoEnd p.name.toList
  types : ∀ t ∈ p.types, NoEnd t.toList
  description : ∀ s, p.description = some s → NoEnd s.toList

/-- No text of a tag has an end in it. -/
structure Tag.NoEnds (t : Tag) : Prop where
  name : NoEnd t.name.toList
  value : ∀ s, t.value = some s → NoEnd s.toList

/-- No text of a result has an end in it. -/
structure Result.NoEnds (r : Result) : Prop where
  types : ∀ t ∈ r.types, NoEnd t.toList
  description : ∀ s, r.description = some s → NoEnd s.toList

/-- No text of a doc comment has an end in it. -/
structure NoEnds (d : Doc) : Prop where
  description : NoEnd d.description.toList
  params : ∀ p ∈ d.params, p.NoEnds
  tags : ∀ t ∈ d.tags, t.NoEnds
  result : ∀ r, d.result = some r → r.NoEnds

theorem NoEnd.trimmed? {cs : List Char} (h : NoEnd cs) {s : String} (hs : trimmed? cs = some s) :
    NoEnd s.toList := by
  rw [(trimmed?_eq_some hs).1]
  exact h.trimChars

theorem NoEnd.leadingTypes {cs : List Char} (h : NoEnd cs) :
    (∀ t ∈ (leadingTypes cs).1, NoEnd t.toList) ∧ NoEnd (leadingTypes cs).2 := by
  unfold Doc.leadingTypes
  split
  · rename_i inner rest hbraced
    obtain ⟨hcs, _⟩ := braced?_eq_some hbraced
    have hinner : inner <:+: cs := ⟨['{'], '}' :: rest, by rw [hcs]; simp⟩
    have hrest : rest <:+: cs := ⟨'{' :: (inner ++ ['}']), [], by rw [hcs]; simp⟩
    refine ⟨fun t ht => ?_, h.part hrest⟩
    obtain ⟨m, hm, rfl⟩ := List.mem_map.mp ht
    rw [String.toList_ofList]
    exact h.part ((Union.infix_of_mem_members hm).trans hinner)
  · exact ⟨fun _ ht => (nomatch ht), h⟩

theorem noEnd_of_isParamName {optional : Bool} {name : List Char} (h : IsParamName optional name) :
    NoEnd name := by
  obtain ⟨n, hn, hname⟩ := h
  have hstar : '*' ∉ n := fun hmem => absurd (TypeExpr.isNamePart_of_isName hn _ hmem) (by decide)
  refine noEnd_of_noStar ?_
  rcases hname with rfl | ⟨_, rfl⟩ <;> simp [hstar]

theorem Param.noEnds_of_read? {cs : List Char} {p : Param} (h : NoEnd cs)
    (hread : Param.read? cs = some p) : p.NoEnds := by
  obtain ⟨htypes, hrest⟩ := h.leadingTypes
  obtain ⟨⟨name, optional, rest⟩, hname, hp⟩ := Option.bind_eq_some_iff.mp hread
  obtain rfl := Option.some.inj hp
  obtain ⟨hparam, hsuffix⟩ := paramName?_eq_some hname
  have hbehind : NoEnd rest := hrest.part (hsuffix.trans (List.dropWhile_suffix _)).isInfix
  refine ⟨?_, htypes, fun s hs => ?_⟩
  · rw [String.toList_ofList]
    exact noEnd_of_isParamName hparam
  · exact (hbehind.part (dropDash_suffix rest).isInfix).trimmed? hs

theorem Result.noEnds_read {cs : List Char} (h : NoEnd cs) : (Result.read cs).NoEnds := by
  obtain ⟨htypes, hrest⟩ := h.leadingTypes
  exact ⟨htypes, fun s hs => (hrest.part (dropDash_suffix _).isInfix).trimmed? hs⟩

/-- One tag more. -/
theorem NoEnds.addTag {d : Doc} (h : d.NoEnds) {name : String} (hname : NoEnd name.toList)
    {v : List Char} (hv : NoEnd v) : (d.addTag name v).NoEnds := by
  unfold Doc.addTag
  split
  · split
    · rename_i p hread
      refine ⟨h.description, fun q hq => ?_, h.tags, h.result⟩
      rcases List.mem_append.mp hq with hq | hq
      · exact h.params q hq
      · rw [List.mem_singleton.mp hq]
        exact Param.noEnds_of_read? hv.trimChars hread
    · exact h
  · split
    · split
      · exact h
      · exact ⟨h.description, h.params, h.tags, fun r hr =>
          Option.some.inj hr ▸ Result.noEnds_read hv.trimChars⟩
    · refine ⟨h.description, h.params, fun t ht => ?_, h.result⟩
      rcases List.mem_append.mp ht with ht | ht
      · exact h.tags t ht
      · rw [List.mem_singleton.mp ht]
        exact ⟨hname, fun s hs => hv.trimmed? hs⟩

theorem NoEnds.addAll {ts : List (List Char × List Char)}
    (hts : ∀ t ∈ ts, NoEnd t.1 ∧ NoEnd t.2) {d : Doc} (h : d.NoEnds) : (d.addAll ts).NoEnds := by
  induction ts generalizing d with
  | nil => exact h
  | cons t ts ih =>
    obtain ⟨hname, hvalue⟩ := hts t List.mem_cons_self
    refine ih (fun u hu => hts u (List.mem_cons_of_mem _ hu)) (h.addTag ?_ hvalue)
    rw [String.toList_ofList]
    exact hname

theorem noEnds_of_assemble {cs : List Char} (h : NoEnd cs) {d : Doc}
    (hd : assemble (divide true cs) = some d) : d.NoEnds := by
  obtain ⟨hfirst, htagged⟩ := divide_infix cs true
  unfold assemble at hd
  split at hd
  · cases hd
  · obtain rfl := Option.some.inj hd
    refine NoEnds.addAll (fun t ht => ⟨?_, h.part (htagged t ht)⟩) ?_
    · obtain ⟨letters, hname, _, hletters, _⟩ := (divide_spec cs true).2 t ht
      refine noEnd_of_noStar ?_
      rw [hname]
      intro hmem
      rcases List.mem_cons.mp hmem with hat | hmem
      · cases hat
      · exact absurd (hletters _ hmem) (by decide)
    · refine ⟨?_, fun _ hp => (nomatch hp), fun _ ht => (nomatch ht), fun _ hr => (nomatch hr)⟩
      rw [start, String.toList_ofList]
      exact (h.part hfirst.isInfix).trimChars

/-- A block comment: it is opened, and closed by the first end behind that. -/
def IsBlock (comment : String) : Prop :=
  "/*".toList <+: comment.toList ∧ EndsOnce (comment.toList.drop 2)

instance (comment : String) : Decidable (IsBlock comment) :=
  inferInstanceAs (Decidable (_ ∧ _))

theorem exists_inner_of_isBlock {comment : String} (h : IsBlock comment) :
    ∃ inner, comment.toList = '/' :: '*' :: (inner ++ ['*', '/']) ∧ NoEnd inner := by
  obtain ⟨⟨cs, hcs⟩, hends⟩ := h
  rw [← hcs] at hends
  obtain ⟨inner, hinner⟩ := hends.ends
  refine ⟨inner, ?_, ?_⟩
  · rw [← hcs, hinner]
    rfl
  · rw [← hinner] at hends
    exact (endsOnce_append.mp hends).part (List.prefix_append _ _).isInfix

/-- **A comment that has been read has no end in any of its texts.** -/
theorem noEnds_of_ofComment? {comment : String} (h : IsBlock comment) {d : Doc}
    (hd : ofComment? comment = some d) : d.NoEnds := by
  obtain ⟨inner, hcomment, hinner⟩ := exists_inner_of_isBlock h
  have hbody := toList_body [] (List.forall_mem_nil _) hcomment
  rw [ofComment?] at hd
  cases inner with
  | nil =>
    rw [read?, hbody] at hd
    cases hd
  | cons x cs =>
    by_cases hx : x = '*'
    · subst hx
      rw [read?_star hbody] at hd
      exact noEnds_of_assemble ((noEnd_cons.mp hinner).2.foldBreaks 0).trimChars hd
    · rw [read?, hbody] at hd
      split at hd
      · rename_i heq
        exact absurd (List.cons.inj heq).1 hx
      · cases hd

/-! ### What writing makes of it -/

theorem noEnd_intercalate {sep : List Char} (hsep : ∀ t, NoEnd t → Follows (sep ++ t))
    {ss : List (List Char)} (h : ∀ s ∈ ss, NoEnd s) : NoEnd (sep.intercalate ss) := by
  induction ss with
  | nil => exact noEnd_nil
  | cons s ss ih =>
    have hs := h s List.mem_cons_self
    have hrest := ih fun t ht => h t (List.mem_cons_of_mem _ ht)
    cases ss with
    | nil => rwa [List.intercalate_singleton]
    | cons t ss =>
      rw [List.intercalate_cons_cons, List.append_assoc]
      exact hs.append (hsep _ hrest)

theorem follows_writtenTypes {types : List String} (h : ∀ t ∈ types, NoEnd t.toList) :
    Follows (writtenTypes types).toList := by
  have hinner : NoEnd (['|'].intercalate (types.map String.toList)) := by
    refine noEnd_intercalate (fun t ht => follows_cons (by decide) (by decide) ht) fun s hs => ?_
    obtain ⟨t, ht, rfl⟩ := List.mem_map.mp hs
    exact h t ht
  have hclosed := hinner.append (follows_cons (c := '}') (by decide) (by decide) noEnd_nil)
  have hopened : Follows ('{' :: _) := follows_cons (by decide) (by decide) hclosed
  rw [toList_writtenTypes, typesText]
  split
  · exact follows_nil
  · exact follows_cons (by decide) (by decide) hopened.noEnd

section Mark

variable {mark : String} (hmark : ∀ s, NoEnd s → Follows (mark.toList ++ s)) {v : Option String}
  (h : ∀ s, v = some s → NoEnd s.toList)

include hmark h

theorem follows_writtenAfter : Follows (writtenAfter mark v).toList := by
  cases v with
  | none => exact follows_nil
  | some s =>
    rw [writtenAfter]
    split
    · exact follows_nil
    · rw [String.toList_append]
      exact hmark _ (h s rfl)

theorem follows_trimmedAfter : Follows (trimmedAfter mark v).toList := by
  cases v with
  | none => exact follows_nil
  | some s =>
    rw [trimmedAfter]
    split
    · exact follows_nil
    · rw [String.toList_append, trim, String.toList_ofList]
      exact hmark _ (h s rfl).trimChars

end Mark

theorem Param.NoEnds.stanza {p : Param} (h : p.NoEnds) : NoEnd p.stanza.toList := by
  have hname : Follows (if p.optional then " [" ++ p.name ++ "]" else " " ++ p.name).toList := by
    split
    · have hclosed := h.name.append (follows_cons (c := ']') (by decide) (by decide) noEnd_nil)
      have hopened : Follows ('[' :: _) := follows_cons (by decide) (by decide) hclosed
      simp only [String.toList_append]
      exact follows_cons (by decide) (by decide) hopened.noEnd
    · rw [String.toList_append]
      exact follows_cons (by decide) (by decide) h.name
  have hdescription : Follows (trimmedAfter " - " p.description).toList := by
    refine follows_trimmedAfter (fun s hs => ?_) h.description
    have hspace : Follows (' ' :: s) := follows_cons (by decide) (by decide) hs
    have hdash : Follows ('-' :: ' ' :: s) := follows_cons (by decide) (by decide) hspace.noEnd
    exact follows_cons (by decide) (by decide) hdash.noEnd
  rw [Param.stanza, String.toList_append, String.toList_append, String.toList_append]
  have htag : NoEnd paramTag.toList := noEnd_of_noStar (by decide)
  exact ((htag.append (follows_writtenTypes h.types)).append hname).append hdescription

theorem follows_space {s : List Char} (h : NoEnd s) : Follows (" ".toList ++ s) :=
  follows_cons (by decide) (by decide) h

theorem Tag.NoEnds.stanza {t : Tag} (h : t.NoEnds) : NoEnd t.stanza.toList := by
  rw [Tag.stanza, String.toList_append]
  exact h.name.append (follows_writtenAfter (fun _ => follows_space) h.value)

theorem Result.NoEnds.stanza {r : Result} (h : r.NoEnds) : NoEnd r.stanza.toList := by
  have htag : NoEnd resultTag.toList := noEnd_of_noStar (by decide)
  rw [Result.stanza, String.toList_append, String.toList_append]
  exact (htag.append (follows_writtenTypes h.types)).append
    (follows_trimmedAfter (fun _ => follows_space) h.description)

theorem NoEnds.stanzas {d : Doc} (h : d.NoEnds) : ∀ s ∈ d.stanzas, NoEnd s.toList := by
  intro s hs
  rw [Doc.stanzas, List.mem_append, List.mem_append, List.mem_append] at hs
  rcases hs with ((hs | hs) | hs) | hs
  · split at hs
    · exact (List.not_mem_nil hs).elim
    · rw [List.mem_singleton.mp hs, trim, String.toList_ofList]
      exact h.description.trimChars
  · obtain ⟨p, hp, rfl⟩ := List.mem_map.mp hs
    exact (h.params p hp).stanza
  · obtain ⟨t, ht, rfl⟩ := List.mem_map.mp hs
    exact (h.tags t ht).stanza
  · obtain ⟨r, hr, rfl⟩ := Option.map_eq_some_iff.mp (Option.mem_toList.mp hs)
    exact (h.result r hr).stanza

/-- A written comment, or none: behind its indentation it is opened as a doc comment, and it is closed
by its last two characters only. -/
def Enclosed (indent text : String) : Prop :=
  text = "" ∨ (indent ++ "/**").toList <+: text.toList ∧ EndsOnce text.toList

section Layout

variable {indent : List Char} (hindent : ∀ c ∈ indent, isSpaceOrTab c = true)

include hindent

theorem noEnd_indent : NoEnd indent :=
  noEnd_of_noStar fun hstar => absurd (hindent _ hstar) (by decide)

theorem follows_gap {r : List Char} (h : Follows r) : Follows (gap indent ++ r) := by
  have hstar : NoEnd ('*' :: r) := noEnd_cons.mpr ⟨fun hend => h.head hend.2, h.noEnd⟩
  have hspace : Follows (' ' :: '*' :: r) := follows_cons (by decide) (by decide) hstar
  have hline := follows_cons (c := '\n') (by decide) (by decide) ((noEnd_indent hindent).append hspace)
  simpa [gap] using hline

theorem follows_stanzaGap {s : List Char} (h : NoEnd s) : Follows (stanzaGap indent ++ s) := by
  have hspace : Follows (' ' :: s) := follows_cons (by decide) (by decide) h
  have hgaps := follows_gap hindent (follows_gap hindent hspace)
  simpa [stanzaGap] using hgaps

end Layout

/-- **A comment whose texts have no end is closed where it is written to be closed.** -/
theorem NoEnds.enclosed {d : Doc} (h : d.NoEnds) {indent : String}
    (hindent : ∀ c ∈ indent.toList, isSpaceOrTab c = true) : Enclosed indent (d.write indent) := by
  by_cases hne : d.stanzas = []
  · refine .inl ?_
    rw [write, hne]
    rfl
  right
  have hstanzas : NoEnd ((stanzaGap indent.toList).intercalate (d.stanzas.map String.toList)) := by
    refine noEnd_intercalate (fun t ht => follows_stanzaGap hindent ht) fun s hs => ?_
    obtain ⟨t, ht, rfl⟩ := List.mem_map.mp hs
    exact h.stanzas t ht
  have hclosing : Follows (closing indent.toList ++ ['*']) := by
    have hstar : Follows [' ', '*'] := follows_cons (by decide) (by decide) (by decide)
    have hline := follows_cons (c := '\n') (by decide) (by decide) ((noEnd_indent hindent).append hstar)
    simpa [closing] using hline
  have hlines := follows_gap hindent
    (follows_cons (c := ' ') (by decide) (by decide) (hstanzas.append hclosing))
  have hopen : NoEnd (indent ++ "/**").toList := by
    rw [String.toList_append]
    exact noEnd_append (noEnd_indent hindent) (by decide) (.inl fun hstar =>
      absurd (hindent _ (List.mem_of_getLast? hstar)) (by decide))
  have hwrite : (d.write indent).toList = (indent ++ "/**").toList ++ (gap indent.toList ++ ' ' ::
      ((stanzaGap indent.toList).intercalate (d.stanzas.map String.toList) ++
        closing indent.toList)) ++ ['*', '/'] := by
    rw [toList_write indent hne, String.toList_append]
    simp
  rw [hwrite]
  refine ⟨⟨_, (List.append_assoc _ _ _).symm⟩, endsOnce_append.mpr ?_⟩
  have hall := hopen.append hlines
  simpa only [List.append_assoc, List.cons_append] using hall

/-! ### Comments of functions -/

theorem noEnds_empty : Doc.empty.NoEnds :=
  ⟨by decide, fun _ hp => (nomatch hp), fun _ ht => (nomatch ht), fun _ hr => (nomatch hr)⟩

theorem noEnd_of_mem_normalizeAll {known : String → Bool} {texts : List String} :
    ∀ t ∈ TypeExpr.normalizeAll known texts, NoEnd t.toList := by
  intro t ht
  obtain ⟨text, _, rfl⟩ := List.mem_map.mp (mem_of_mem_distinct ht)
  refine noEnd_of_noStar fun hstar => ?_
  exact absurd ((TypeExpr.closed_within_read known text).isTypeChar _ hstar) (by decide)

/-- The types of the closed grammar have no star in them. -/
theorem NoEnds.normalizedDoc {d : Doc} (h : d.NoEnds) (known : String → Bool) :
    (Function.normalizedDoc known d).NoEnds := by
  refine ⟨h.description, fun p hp => ?_, h.tags, fun r hr => ?_⟩
  · obtain ⟨q, hq, rfl⟩ := List.mem_map.mp hp
    exact ⟨(h.params q hq).name, noEnd_of_mem_normalizeAll, (h.params q hq).description⟩
  · obtain ⟨q, hq, rfl⟩ := Option.map_eq_some_iff.mp hr
    exact ⟨noEnd_of_mem_normalizeAll, (h.result q hq).description⟩

theorem noEnds_methodDoc {f : Function} (h : ∀ d, f.doc = some d → d.NoEnds) :
    (Declaration.methodDoc f).NoEnds := by
  have hdoc : (f.doc.getD Doc.empty).NoEnds := by
    cases hd : f.doc with
    | none => exact noEnds_empty
    | some d => exact h d hd
  rw [Declaration.methodDoc]
  split
  · refine ⟨hdoc.description, hdoc.params, fun t ht => ?_, hdoc.result⟩
    rcases List.mem_append.mp ht with ht | ht
    · exact hdoc.tags t ht
    · rw [List.mem_singleton.mp ht]
      exact ⟨noEnd_of_noStar (by decide), fun _ hs => (nomatch hs)⟩
  · exact hdoc

theorem enclosed_write? {doc : Option Doc} (h : ∀ d, doc = some d → d.NoEnds) {indent : String}
    (hindent : ∀ c ∈ indent.toList, isSpaceOrTab c = true) : Enclosed indent (write? indent doc) := by
  cases doc with
  | none => exact .inl rfl
  | some d =>
    rw [write?, Option.map_some, Option.getD_some]
    exact (h d rfl).enclosed hindent

/-- **The comment of a function stays a comment.**  Whatever block comment it has been read from, and
whatever models are known, it is closed at its very end and nowhere else: as it was read, with its
types in the closed grammar, and as the comment of a method. -/
theorem enclosed_comment_of_function {comment indent : String} (hblock : IsBlock comment)
    (hindent : ∀ c ∈ indent.toList, isSpaceOrTab c = true) (models : Models) (f : Function)
    (hdoc : f.doc = ofComment? comment) :
    Enclosed indent (write? indent f.doc) ∧
      Enclosed indent (write? indent (f.resolved models.knows).doc) ∧
      Enclosed indent ((Declaration.methodDoc f).write indent) ∧
      Enclosed indent ((Declaration.methodDoc (f.resolved models.knows)).write indent) := by
  have hread : ∀ d, f.doc = some d → d.NoEnds := fun d hd =>
    noEnds_of_ofComment? hblock (hdoc.symm.trans hd)
  have hresolved : ∀ d, (f.resolved models.knows).doc = some d → d.NoEnds := by
    intro d hd
    obtain ⟨e, he, rfl⟩ := Option.map_eq_some_iff.mp hd
    exact (hread e he).normalizedDoc models.knows
  exact ⟨enclosed_write? hread hindent, enclosed_write? hresolved hindent,
    (noEnds_methodDoc hread).enclosed hindent, (noEnds_methodDoc hresolved).enclosed hindent⟩

/-- A comment in which stars and slashes stand on both sides of what is dropped: of a break, of a
dash and of a default. -/
def starred : String :=
  "/** Both *\n * / of them. @param \x7b*|Post\x7d [p=*] - / one @returns \x7b*\x7d - / *\n/**/"

/-- An asynchronous function under that comment. -/
def starredFunction : Function := ⟨"f", ["p"], true, ofComment? starred, []⟩

theorem enclosed_starredFunction :
    (Declaration.methodDoc (starredFunction.resolved (Models.knows []))).write "\t" =
        "\t/**\n\t * Both * / of them.\n\t *\n\t * @param \x7bany\x7d [p] - / one\n\t *\n" ++
          "\t * @async\n\t *\n\t * @returns \x7bany\x7d / *\n/*\n\t */" ∧
      IsBlock starred ∧
      Enclosed "\t" ((Declaration.methodDoc (starredFunction.resolved (Models.knows []))).write "\t") := by
  have hblock : IsBlock starred := by decide +kernel
  have hindent : ∀ c ∈ "\t".toList, isSpaceOrTab c = true := by decide
  have hdoc : starredFunction.doc = ofComment? starred := by rw [starredFunction]
  obtain ⟨_, _, _, henclosed⟩ :=
    enclosed_comment_of_function hblock hindent [] starredFunction hdoc
  exact ⟨by decide +kernel, hblock, henclosed⟩

end Doc

end Rigging
