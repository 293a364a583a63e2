import Mathlib.Data.List.SplitBy
import Rigging.Proofs.Doc.Assemble
import Rigging.Proofs.Doc.Continuation

/-!
# Doc comments word by word

A doc comment can be read by its words alone.  The words of a text are its longest runs of characters
that are not blank (`words`), and a word of an at sign and letters is a tag.  Cutting the runs at the
tags (`Cut`) gives the description and every tag with its text, from which the comment is collected
(`collect`).  Only a word that starts like a tag and goes on otherwise spoils a comment.  `read?_words`
says that this is what reading does.
-/

namespace Rigging

namespace Doc

open Rigging.Text

/-! ### Runs and words -/

/-- The longest runs of blanks and of other characters, in order. -/
def runs (cs : List Char) : List (List Char) :=
  cs.splitBy fun a b => isBlank a == isBlank b

/-- The words of a text: its runs that are not blank. -/
def words (cs : List Char) : List (List Char) :=
  (runs cs).filter fun run => run.all fun c => !isBlank c

/-- A word that is a tag: an at sign and letters, at least one. -/
def isTagWord : List Char → Bool
  | '@' :: letters => !letters.isEmpty && letters.all isTagLetter
  | _ => false

theorem isTagWord_iff {word : List Char} :
    isTagWord word = true ↔
      ∃ letters, word = '@' :: letters ∧ letters ≠ [] ∧ ∀ c ∈ letters, isTagLetter c = true := by
  constructor
  · intro htag
    unfold isTagWord at htag
    split at htag
    · rename_i letters
      rw [Bool.and_eq_true, Bool.not_eq_true', List.isEmpty_eq_false_iff, List.all_eq_true] at htag
      exact ⟨letters, rfl, htag⟩
    · cases htag
  · rintro ⟨letters, rfl, hne, hall⟩
    rw [isTagWord, List.isEmpty_eq_false_iff.mpr hne, List.all_eq_true.mpr hall]
    rfl

/-- A word that starts like a tag and goes on otherwise. -/
def IsBrokenTag (word : List Char) : Prop :=
  startsTag word = true ∧ isTagWord word = false

/-- Runs in turn: behind a word comes a blank or nothing. -/
inductive InTurn : List (List Char) → Prop
  | nil : InTurn []
  | blanks {run : List Char} {rest : List (List Char)} : AllBlank run → InTurn rest →
      InTurn (run :: rest)
  | word {run : List Char} {rest : List (List Char)} : run ≠ [] → (∀ c ∈ run, isBlank c = false) →
      (∀ c, rest.flatten.head? = some c → isBlank c = true) → InTurn rest → InTurn (run :: rest)

theorem isBlank_of_isChain {c : Char} {cs : List Char}
    (h : (c :: cs).IsChain fun a b => (isBlank a == isBlank b) = true) :
    ∀ d ∈ c :: cs, isBlank d = isBlank c := by
  induction cs generalizing c with
  | nil =>
    intro d hd
    rw [List.mem_singleton.mp hd]
  | cons b cs ih =>
    rw [List.isChain_cons_cons, beq_iff_eq] at h
    intro d hd
    rcases List.mem_cons.mp hd with rfl | hd
    · rfl
    · rw [ih h.2 d hd, h.1]

theorem inTurn_of_isChain {rs : List (List Char)} (hne : [] ∉ rs)
    (hsame : ∀ run ∈ rs, run.IsChain fun a b => (isBlank a == isBlank b) = true)
    (hnext : rs.IsChain fun a b => ∃ ha hb, (isBlank (a.getLast ha) == isBlank (b.head hb)) = false) :
    InTurn rs := by
  induction rs with
  | nil => exact .nil
  | cons run rest ih =>
    rw [List.mem_cons, not_or] at hne
    have hrest := ih hne.2 (fun r hr => hsame r (List.mem_cons_of_mem _ hr)) hnext.tail
    obtain ⟨c, cs, rfl⟩ := List.exists_cons_of_ne_nil (Ne.symm hne.1)
    have hall := isBlank_of_isChain (hsame _ List.mem_cons_self)
    cases hc : isBlank c with
    | true => exact .blanks (fun d hd => (hall d hd).trans hc) hrest
    | false =>
      refine .word (List.cons_ne_nil _ _) (fun d hd => (hall d hd).trans hc) ?_ hrest
      intro d hd
      cases rest with
      | nil => cases hd
      | cons next rest =>
        obtain ⟨⟨ha, hb, hdiffer⟩, _⟩ := List.isChain_cons_cons.mp hnext
        have hhead : next.head hb = d := by
          rw [List.flatten_cons, head?_append_of_ne_nil hb, List.head?_eq_some_head hb] at hd
          exact Option.some.inj hd
        rw [hhead, hall _ (List.getLast_mem ha), hc, beq_eq_false_iff_ne] at hdiffer
        simpa using hdiffer

theorem inTurn_runs (cs : List Char) : InTurn (runs cs) :=
  inTurn_of_isChain (List.nil_notMem_splitBy _ cs) (fun _ => List.isChain_of_mem_splitBy)
    (List.isChain_getLast_head_splitBy (fun a b => isBlank a == isBlank b) cs)

/-! ### Dividing a run -/

theorem startsTag_of_head {c : Char} {cs : List Char} (h : isBlank c = true) :
    startsTag (c :: cs) = false := by
  rw [← Bool.not_eq_true]
  intro hstarts
  obtain ⟨rfl, _⟩ := startsTag_cons.mp hstarts
  exact absurd h (by decide)

/-- A blank stays in front of what is divided behind it, where a word may start. -/
theorem divide_blank {c : Char} (h : isBlank c = true) (w : Bool) (cs : List Char) :
    divide w (c :: cs) = (c :: (divide true cs).1, (divide true cs).2) := by
  refine divide_cons (by rw [h]) ?_
  rintro ⟨_, hstarts⟩
  rw [startsTag_of_head h] at hstarts
  cases hstarts

theorem divide_blanks {run : List Char} (h : AllBlank run) (cs : List Char) :
    divide true (run ++ cs) = (run ++ (divide true cs).1, (divide true cs).2) := by
  induction run with
  | nil => rfl
  | cons c run ih =>
    have hrest := ih fun d hd => h d (List.mem_cons_of_mem _ hd)
    rw [List.cons_append, divide_blank (h c List.mem_cons_self), hrest, List.cons_append]

section Word

variable {cs : List Char} (hcs : ∀ c, cs.head? = some c → isBlank c = true)

include hcs

/-- Behind a word nothing but a blank can follow, and so it is in the text that is divided off. -/
theorem head?_divide {c : Char} (h : (divide true cs).1.head? = some c) : isBlank c = true := by
  cases cs with
  | nil => cases h
  | cons d cs =>
    have hd := hcs d rfl
    rw [divide_blank hd] at h
    rw [← Option.some.inj h]
    exact hd

/-- Inside a word no tag starts. -/
theorem divide_solid {s : List Char} (hs : ∀ c ∈ s, isBlank c = false) :
    divide false (s ++ cs) = (s ++ (divide true cs).1, (divide true cs).2) := by
  induction s with
  | nil =>
    cases cs with
    | nil => rfl
    | cons c cs =>
      have hc := hcs c rfl
      rw [List.nil_append, List.nil_append, divide_blank hc, divide_blank hc]
  | cons c s ih =>
    have hrest := ih fun d hd => hs d (List.mem_cons_of_mem _ hd)
    refine divide_cons (by rw [hs c List.mem_cons_self]; exact hrest) ?_
    rintro ⟨hfalse, _⟩
    cases hfalse

/-- A word that does not start like a tag stays in front. -/
theorem divide_plainWord {word : List Char} (hne : word ≠ [])
    (hword : ∀ c ∈ word, isBlank c = false) (hstarts : startsTag word = false) :
    divide true (word ++ cs) = (word ++ (divide true cs).1, (divide true cs).2) := by
  obtain ⟨c, s, rfl⟩ := List.exists_cons_of_ne_nil hne
  have hrest := divide_solid hcs fun d hd => hword d (List.mem_cons_of_mem _ hd)
  refine divide_cons (by rw [hword c List.mem_cons_self]; exact hrest) ?_
  rintro ⟨_, htag⟩
  obtain ⟨rfl, d, ds, htext, hd⟩ := startsTag_cons.mp htag
  cases s with
  | nil =>
    -- the letter would have to come from behind the word
    have hblank := head?_divide hcs (congrArg List.head? htext)
    rw [isTagLetter_of_isBlank hblank] at hd
    cases hd
  | cons e s =>
    obtain ⟨rfl, _⟩ := List.cons.inj htext
    rw [startsTag_cons.mpr ⟨rfl, e, s, rfl, hd⟩] at hstarts
    cases hstarts

/-- A tag starts a text of its own. -/
theorem divide_tagWord {word : List Char} (htag : isTagWord word = true) :
    divide true (word ++ cs) = ([], (word, (divide true cs).1) :: (divide true cs).2) := by
  obtain ⟨letters, rfl, hne, hall⟩ := isTagWord_iff.mp htag
  refine divide_tag hne hall (fun c hc => isTagLetter_of_isBlank (head?_divide hcs hc)) ?_
  exact divide_solid hcs fun c hc => isBlank_of_isTagLetter (hall c hc)

/-- A word that only starts like a tag runs straight into a text. -/
theorem isGlued_divide {word : List Char} (hword : ∀ c ∈ word, isBlank c = false)
    (hbroken : IsBrokenTag word) :
    ((divide true (word ++ cs)).2.any fun t => isGlued t.2) = true := by
  obtain ⟨hstarts, htag⟩ := hbroken
  cases word with
  | nil => cases hstarts
  | cons c s =>
    obtain ⟨rfl, d, ds, rfl, hd⟩ := startsTag_cons.mp hstarts
    have hsolid := divide_solid hcs (s := d :: ds) fun e he => hword e (List.mem_cons_of_mem _ he)
    have hfirst : startsTag ('@' :: (divide false (d :: ds ++ cs)).1) = true := by
      rw [hsolid]
      exact startsTag_cons.mpr ⟨rfl, d, _, rfl, hd⟩
    obtain ⟨_, hdivide⟩ := divide_of_startsTag hfirst
    -- the first character that is no letter is one of the word
    have hrest : ((d :: ds).dropWhile isTagLetter).isEmpty = false := by
      rw [List.isEmpty_eq_false_iff]
      intro hempty
      have hall := List.dropWhile_eq_nil_iff.mp hempty
      rw [isTagWord_iff.mpr ⟨d :: ds, rfl, List.cons_ne_nil _ _, hall⟩] at htag
      cases htag
    obtain ⟨e, es, hes⟩ := List.exists_cons_of_ne_nil (List.isEmpty_eq_false_iff.mp hrest)
    have he : isBlank e = false := by
      refine hword e (List.mem_cons_of_mem _ ((List.dropWhile_suffix isTagLetter).mem ?_))
      rw [hes]
      exact List.mem_cons_self
    rw [List.cons_append, hdivide, hsolid, List.any_cons, List.dropWhile_append, hrest, hes]
    simp [isGlued, he]

end Word

/-! ### Cutting at the tags -/

/-- Runs cut at their tags: the runs in front of the first one, and each tag with the runs up to the
next. -/
structure Cut (rs first : List (List Char)) (entries : List (List Char × List (List Char))) : Prop where
  eq_append : rs = first ++ entries.flatMap fun e => e.1 :: e.2
  first_plain : ∀ run ∈ first, isTagWord run = false
  tag : ∀ e ∈ entries, isTagWord e.1 = true
  text_plain : ∀ e ∈ entries, ∀ run ∈ e.2, isTagWord run = false

theorem isTagWord_of_startsTag {word : List Char} (h : startsTag word = false) :
    isTagWord word = false := by
  rw [← Bool.not_eq_true] at h ⊢
  intro htag
  obtain ⟨letters, rfl, hne, hall⟩ := isTagWord_iff.mp htag
  obtain ⟨c, cs, rfl⟩ := List.exists_cons_of_ne_nil hne
  exact h (startsTag_cons.mpr ⟨rfl, c, cs, rfl, hall c List.mem_cons_self⟩)

theorem startsTag_of_allBlank {run : List Char} (h : AllBlank run) : startsTag run = false := by
  cases run with
  | nil => rfl
  | cons c run => exact startsTag_of_head (h c List.mem_cons_self)

/-- **A tag runs straight into text** exactly when a word starts like a tag and goes on otherwise. -/
theorem any_isGlued_iff {rs : List (List Char)} (h : InTurn rs) :
    ((divide true rs.flatten).2.any fun t => isGlued t.2) = true ↔ ∃ run ∈ rs, IsBrokenTag run := by
  induction h with
  | nil => simp [divide]
  | @blanks run rest hblank _ ih =>
    have hno : ¬IsBrokenTag run := fun hb => by
      rw [IsBrokenTag, startsTag_of_allBlank hblank] at hb
      cases hb.1
    rw [List.flatten_cons, divide_blanks hblank, ih, List.exists_mem_cons_iff, or_iff_right hno]
  | @word run rest hne hsolid hnext _ ih =>
    rw [List.flatten_cons, List.exists_mem_cons_iff]
    by_cases hbroken : IsBrokenTag run
    · exact iff_of_true (isGlued_divide hnext hsolid hbroken) (Or.inl hbroken)
    · rw [or_iff_right hbroken, ← ih]
      cases hstarts : startsTag run with
      | false => rw [divide_plainWord hnext hne hsolid hstarts]
      | true =>
        have htag : isTagWord run = true := by
          rw [← Bool.not_eq_false]
          exact fun hfalse => hbroken ⟨hstarts, hfalse⟩
        have hapart : isGlued (divide true rest.flatten).1 = false :=
          isGlued_of_apart fun c hc => head?_divide hnext hc
        rw [divide_tagWord hnext htag, List.any_cons, hapart, Bool.false_or]

theorem Cut.cons_plain {rs first : List (List Char)} {entries : List (List Char × List (List Char))}
    (h : Cut rs first entries) {run : List Char} (hrun : isTagWord run = false) :
    Cut (run :: rs) (run :: first) entries where
  eq_append := by rw [h.eq_append, List.cons_append]
  first_plain := List.forall_mem_cons.mpr ⟨hrun, h.first_plain⟩
  tag := h.tag
  text_plain := h.text_plain

theorem Cut.cons_tag {rs first : List (List Char)} {entries : List (List Char × List (List Char))}
    (h : Cut rs first entries) {run : List Char} (hrun : isTagWord run = true) :
    Cut (run :: rs) [] ((run, first) :: entries) where
  eq_append := by rw [h.eq_append, List.nil_append, List.flatMap_cons, List.cons_append]
  first_plain := List.forall_mem_nil _
  tag := List.forall_mem_cons.mpr ⟨hrun, h.tag⟩
  text_plain := List.forall_mem_cons.mpr ⟨h.first_plain, h.text_plain⟩

theorem exists_cut (rs : List (List Char)) : ∃ first entries, Cut rs first entries := by
  induction rs with
  | nil =>
    exact ⟨[], [], rfl, List.forall_mem_nil _, List.forall_mem_nil _, List.forall_mem_nil _⟩
  | cons run rs ih =>
    obtain ⟨first, entries, hcut⟩ := ih
    cases hrun : isTagWord run with
    | false => exact ⟨run :: first, entries, hcut.cons_plain hrun⟩
    | true => exact ⟨[], (run, first) :: entries, hcut.cons_tag hrun⟩

theorem Cut.eq_nil {first : List (List Char)} {entries : List (List Char × List (List Char))}
    (h : Cut [] first entries) : first = [] ∧ entries = [] := by
  obtain ⟨hfirst, hentries⟩ := List.append_eq_nil_iff.mp h.eq_append.symm
  refine ⟨hfirst, ?_⟩
  cases entries with
  | nil => rfl
  | cons e entries => cases hentries

/-- The first run of a cut is in front of the tags, or is the first tag. -/
theorem Cut.cons_cases {run : List Char} {rs first : List (List Char)}
    {entries : List (List Char × List (List Char))} (h : Cut (run :: rs) first entries) :
    (isTagWord run = false ∧ ∃ first', first = run :: first' ∧ Cut rs first' entries) ∨
      (isTagWord run = true ∧ first = [] ∧
        ∃ text entries', entries = (run, text) :: entries' ∧ Cut rs text entries') := by
  obtain ⟨heq, hfirst, htag, htext⟩ := h
  cases first with
  | cons r first =>
    obtain ⟨rfl, hrs⟩ := List.cons.inj heq
    obtain ⟨hrun, hfirst⟩ := List.forall_mem_cons.mp hfirst
    exact Or.inl ⟨hrun, first, rfl, hrs, hfirst, htag, htext⟩
  | nil =>
    cases entries with
    | nil => cases heq
    | cons e entries =>
      obtain ⟨rfl, hrs⟩ := List.cons.inj heq
      obtain ⟨hrun, htag⟩ := List.forall_mem_cons.mp htag
      obtain ⟨hfirst, htext⟩ := List.forall_mem_cons.mp htext
      exact Or.inr ⟨hrun, rfl, e.2, entries, rfl, hrs, hfirst, htag, htext⟩

/-- **A text is divided as its runs are cut**, if no word only starts like a tag. -/
theorem divide_of_cut {rs : List (List Char)} (h : InTurn rs)
    (hwords : ∀ run ∈ rs, ¬IsBrokenTag run) {first : List (List Char)}
    {entries : List (List Char × List (List Char))} (hcut : Cut rs first entries) :
    divide true rs.flatten = (first.flatten, entries.map fun e => (e.1, e.2.flatten)) := by
  induction h generalizing first entries with
  | nil =>
    obtain ⟨rfl, rfl⟩ := hcut.eq_nil
    rfl
  | @blanks run rest hblank _ ih =>
    have hplain := isTagWord_of_startsTag (startsTag_of_allBlank hblank)
    rcases hcut.cons_cases with ⟨_, first, rfl, hrest⟩ | ⟨htag, _⟩
    · rw [List.flatten_cons, divide_blanks hblank,
        ih (fun r hr => hwords r (List.mem_cons_of_mem _ hr)) hrest, List.flatten_cons]
    · rw [hplain] at htag
      cases htag
  | @word run rest hne hsolid hnext _ ih =>
    have hdivide : ∀ {first : List (List Char)} {entries : List (List Char × List (List Char))},
        Cut rest first entries → divide true rest.flatten =
          (first.flatten, entries.map fun e => (e.1, e.2.flatten)) :=
      ih fun r hr => hwords r (List.mem_cons_of_mem _ hr)
    rcases hcut.cons_cases with ⟨hplain, first, rfl, hrest⟩ | ⟨htag, rfl, text, entries, rfl, hrest⟩
    · have hstarts : startsTag run = false := by
        rw [← Bool.not_eq_true]
        exact fun hstarts => hwords run List.mem_cons_self ⟨hstarts, hplain⟩
      rw [List.flatten_cons, divide_plainWord hnext hne hsolid hstarts, hdivide hrest,
        List.flatten_cons]
    · rw [List.flatten_cons, divide_tagWord hnext htag, hdivide hrest, List.map_cons]
      rfl

theorem InTurn.allBlank_or_solid {rs : List (List Char)} (h : InTurn rs) {run : List Char}
    (hrun : run ∈ rs) : AllBlank run ∨ ∀ c ∈ run, isBlank c = false := by
  induction h with
  | nil => cases hrun
  | blanks hblank _ ih =>
    rcases List.mem_cons.mp hrun with rfl | hrun
    · exact Or.inl hblank
    · exact ih hrun
  | word _ hsolid _ _ ih =>
    rcases List.mem_cons.mp hrun with rfl | hrun
    · exact Or.inr hsolid
    · exact ih hrun

/-- What starts like a tag is a word. -/
theorem exists_brokenTag_iff {cs : List Char} :
    (∃ word ∈ words cs, IsBrokenTag word) ↔ ∃ run ∈ runs cs, IsBrokenTag run := by
  constructor
  · rintro ⟨word, hword, hbroken⟩
    exact ⟨word, (List.mem_filter.mp hword).1, hbroken⟩
  · rintro ⟨run, hrun, hbroken⟩
    refine ⟨run, List.mem_filter.mpr ⟨hrun, ?_⟩, hbroken⟩
    rcases (inTurn_runs cs).allBlank_or_solid hrun with hblank | hsolid
    · have hstarts := hbroken.1
      rw [startsTag_of_allBlank hblank] at hstarts
      cases hstarts
    · rw [List.all_eq_true]
      intro c hc
      rw [hsolid c hc]
      rfl

/-! ### Collecting the tags -/

/-- A tag of a parameter. -/
def isParamEntry (e : List Char × List Char) : Bool :=
  String.ofList e.1 == paramTag

/-- A tag of a result, in either spelling. -/
def isResultEntry (e : List Char × List Char) : Bool :=
  String.ofList e.1 == resultTag || String.ofList e.1 == resultAlias

/-- The doc comment of a description and of tags with their texts. -/
def collect (description : List Char) (entries : List (List Char × List Char)) : Doc where
  description := String.ofList (trimChars description)
  tags := (entries.filter fun e => !isParamEntry e && !isResultEntry e).map fun e =>
    ⟨String.ofList e.1, trimmed? e.2⟩
  params := (entries.filter isParamEntry).filterMap fun e => Param.read? (trimChars e.2)
  result := (entries.find? isResultEntry).map fun e => Result.read (trimChars e.2)

/-- Two doc comments in one: the description and, if there is one, the result of the first. -/
def followedBy (d d' : Doc) : Doc :=
  ⟨d.description, d.tags ++ d'.tags, d.params ++ d'.params, d.result.or d'.result⟩

theorem followedBy_assoc (d d' d'' : Doc) :
    (d.followedBy d').followedBy d'' = d.followedBy (d'.followedBy d'') := by
  simp only [followedBy, List.append_assoc, Option.or_assoc]

theorem collect_cons (e : List Char × List Char) (es : List (List Char × List Char)) :
    collect [] (e :: es) = (collect [] [e]).followedBy (collect [] es) := by
  have hsplit : e :: es = [e] ++ es := rfl
  rw [hsplit]
  simp only [collect, followedBy, List.filter_append, List.map_append, List.filterMap_append,
    List.find?_append, Option.map_or]

/-- Adding a tag adds what it says on its own. -/
theorem addTag_eq_followedBy (doc : Doc) (e : List Char × List Char) :
    doc.addTag (String.ofList e.1) e.2 = doc.followedBy (collect [] [e]) := by
  by_cases hp : isParamEntry e = true
  · have hname : String.ofList e.1 = paramTag := beq_iff_eq.mp hp
    have hr : isResultEntry e = false := by
      rw [isResultEntry, hname]
      decide
    cases hread : Param.read? (trimChars e.2) with
    | none => simp [addTag, hname, hread, followedBy, collect, hp, hr]
    | some p => simp [addTag_param hread, hname, followedBy, collect, hp, hr, hread]
  · rw [Bool.not_eq_true] at hp
    have hparam : String.ofList e.1 ≠ paramTag := beq_eq_false_iff_ne.mp hp
    cases hr : isResultEntry e with
    | true =>
      have hname : String.ofList e.1 = resultTag ∨ String.ofList e.1 = resultAlias := by
        simpa [isResultEntry] using hr
      -- a result that is there already counts
      obtain ⟨description, tags, params, result⟩ := doc
      cases result <;> simp [addTag, hparam, hname, followedBy, collect, hp, hr]
    | false =>
      have hother : String.ofList e.1 ≠ resultTag ∧ String.ofList e.1 ≠ resultAlias := by
        simpa [isResultEntry] using hr
      rw [addTag_other ⟨hparam, hother⟩]
      simp [followedBy, collect, hp, hr]

/-- **Tags are added one by one** to what they say together. -/
theorem addAll_eq_followedBy (es : List (List Char × List Char)) (doc : Doc) :
    doc.addAll es = doc.followedBy (collect [] es) := by
  induction es generalizing doc with
  | nil => simp [addAll, followedBy, collect]
  | cons e es ih =>
    rw [collect_cons, ← followedBy_assoc, ← addTag_eq_followedBy]
    exact ih _

theorem addAll_start (description : List Char) (es : List (List Char × List Char)) :
    (start (trimChars description)).addAll es = collect description es := by
  rw [addAll_eq_followedBy]
  simp [followedBy, start, collect]

/-- **Reading goes by words.**  Behind the star the breaks are folded and the text is trimmed.  The
text is no doc comment exactly when one of its words starts like a tag and goes on otherwise; if none
does, the comment is collected from the text as it is cut at its tags. -/
theorem read?_words (cs : List Char) :
    ∃ folded, (∀ out, Folds cs out ↔ out = folded) ∧
      (read? (String.ofList ('*' :: cs)) = none ↔
        ∃ word ∈ words (trimChars folded), IsBrokenTag word) ∧
      ((∀ word ∈ words (trimChars folded), ¬IsBrokenTag word) →
        (∃ first entries, Cut (runs (trimChars folded)) first entries) ∧
        ∀ first entries, Cut (runs (trimChars folded)) first entries →
          read? (String.ofList ('*' :: cs)) =
            some (collect first.flatten (entries.map fun e => (e.1, e.2.flatten)))) := by
  have hread : read? (String.ofList ('*' :: cs)) =
      assemble (divide true (trimChars (foldBreaks 0 cs))) :=
    read?_star String.toList_ofList
  have hflatten : (runs (trimChars (foldBreaks 0 cs))).flatten = trimChars (foldBreaks 0 cs) :=
    List.flatten_splitBy _ _
  have hturn := inTurn_runs (trimChars (foldBreaks 0 cs))
  have hglued := (any_isGlued_iff hturn).trans exists_brokenTag_iff.symm
  rw [hflatten] at hglued
  refine ⟨foldBreaks 0 cs, fun out => folds_iff, ?_, fun hwords => ⟨exists_cut _, ?_⟩⟩
  · rw [hread, assemble]
    refine Iff.trans ?_ hglued
    split
    · rename_i h
      exact iff_of_true rfl h
    · rename_i h
      exact iff_of_false (Option.some_ne_none _) h
  · intro first entries hcut
    have hnone : ¬∃ word ∈ words (trimChars (foldBreaks 0 cs)), IsBrokenTag word := by
      rintro ⟨word, hword, hbroken⟩
      exact hwords word hword hbroken
    have hdivide := divide_of_cut hturn (fun run hrun hbroken =>
      hnone (exists_brokenTag_iff.mpr ⟨run, hrun, hbroken⟩)) hcut
    rw [hflatten] at hdivide
    rw [hread, assemble, if_neg (mt hglued.mp hnone), hdivide, addAll_start]

end Doc

end Rigging
