import Rigging.Proofs.Doc.Divide
import Rigging.Proofs.Union

/-!
# Reading the values of parameters and results

The pieces of a value, each from both sides: a group of types in braces, a parameter's name, and a
description behind a dash.  A value that is put together from proper pieces is read back as these
pieces (`Param.read?_value`, `Result.read_value`), and whatever is read consists of proper
pieces again (`Param.read?_spec`, `Result.read_spec`).
-/

namespace Rigging

namespace Doc

open Rigging.Text
open TypeExpr (isName isNamePart_of_isName)

/-! ### Groups in braces -/

/-- No brace occurs. -/
def Unbraced (cs : List Char) : Prop :=
  ∀ c ∈ cs, c ≠ '{' ∧ c ≠ '}'

instance (cs : List Char) : Decidable (Unbraced cs) :=
  inferInstanceAs (Decidable (∀ c ∈ cs, c ≠ '{' ∧ c ≠ '}'))

theorem braced?_group {inner : List Char} (h : Unbraced inner) (rest : List Char) :
    braced? ('{' :: (inner ++ '}' :: rest)) = some (inner, rest) := by
  have hall : ∀ c ∈ inner, (c != '{' && c != '}') = true := by
    intro c hc
    simp [(h c hc).1, (h c hc).2]
  have hstop : ∀ c, ('}' :: rest).head? = some c → (c != '{' && c != '}') = false := by
    intro c hc
    rw [← Option.some.inj hc]
    decide
  have hspan := span_append hall hstop
  simp only [braced?, hspan]

theorem braced?_eq_some {cs inner rest : List Char} (h : braced? cs = some (inner, rest)) :
    cs = '{' :: (inner ++ '}' :: rest) ∧ Unbraced inner := by
  unfold braced? at h
  split at h
  · rename_i cs
    split at h
    · rename_i inner' rest' hspan
      obtain ⟨rfl, rfl⟩ := Prod.mk.inj (Option.some.inj h)
      rw [List.span_eq_takeWhile_dropWhile] at hspan
      obtain ⟨hinner, hrest⟩ := Prod.mk.inj hspan
      refine ⟨?_, ?_⟩
      · rw [← hinner, ← hrest, List.takeWhile_append_dropWhile]
      · intro c hc
        rw [← hinner] at hc
        have := List.mem_takeWhile_imp hc
        simpa using this
    · cases h
  · cases h

theorem braced?_eq_none {c : Char} (h : c ≠ '{') (cs : List Char) : braced? (c :: cs) = none := by
  unfold braced?
  split
  · rename_i heq
    exact absurd (List.cons.inj heq).1 h
  · rfl

/-- A group in braces without braces inside stands at the head. -/
def StartsGroup (cs : List Char) : Prop :=
  ∃ inner rest, Unbraced inner ∧ cs = '{' :: (inner ++ '}' :: rest)

theorem braced?_eq_none_iff {cs : List Char} : braced? cs = none ↔ ¬StartsGroup cs := by
  constructor
  · rintro hnone ⟨inner, rest, hinner, rfl⟩
    rw [braced?_group hinner] at hnone
    cases hnone
  · intro hno
    by_contra hsome
    obtain ⟨⟨inner, rest⟩, hsome⟩ := Option.ne_none_iff_exists'.mp hsome
    obtain ⟨hcs, hinner⟩ := braced?_eq_some hsome
    exact hno ⟨inner, rest, hinner, hcs⟩

theorem leadingTypes_of_none {cs : List Char} (h : braced? cs = none) :
    leadingTypes cs = ([], cs) := by
  rw [leadingTypes, h]

/-- The types of a group: the members of a union without braces and tags. -/
structure IsTypes (ts : List (List Char)) : Prop where
  union : Union.IsUnion ts
  unbraced : ∀ t ∈ ts, Unbraced t
  noTag : ∀ t ∈ ts, NoTag false t

/-- Types as they are written behind a tag. -/
def typesText (ts : List (List Char)) : List Char :=
  if ts = [] then [] else ' ' :: '{' :: (['|'].intercalate ts ++ ['}'])

theorem leadingTypes_group {ts : List (List Char)} (h : IsTypes ts) (rest : List Char) :
    leadingTypes ('{' :: (['|'].intercalate ts ++ '}' :: rest)) = (ts.map String.ofList, rest) := by
  have hinner : Unbraced (['|'].intercalate ts) := by
    intro c hc
    rcases mem_intercalate hc with hc | ⟨t, ht, hc⟩
    · rw [List.mem_singleton.mp hc]
      decide
    · exact h.unbraced t ht c hc
  rw [leadingTypes, braced?_group hinner]
  dsimp only
  rw [Union.members_joined h.union]

/-! ### Descriptions -/

/-- A text that stands for itself: not empty and without blanks at its ends. -/
structure IsText (s : List Char) : Prop where
  ne_nil : s ≠ []
  trimmed : Trimmed s

theorem isText_of_solid {s : List Char} (hne : s ≠ []) (h : ∀ c ∈ s, isBlank c = false) : IsText s :=
  ⟨hne, fun c hc => h c (List.mem_of_mem_head? hc), fun c hc => h c (List.mem_of_getLast? hc)⟩

/-- Two texts with anything between them. -/
theorem isText_append {s t : List Char} (hs : IsText s) (m : List Char) (ht : IsText t) :
    IsText (s ++ (m ++ t)) := by
  refine ⟨List.append_ne_nil_of_left_ne_nil hs.ne_nil _, ?_, ?_⟩
  · rw [head?_append_of_ne_nil hs.ne_nil]
    exact hs.trimmed.1
  · rw [← List.append_assoc, getLast?_append_of_ne_nil _ ht.ne_nil]
    exact ht.trimmed.2

theorem trimmed?_eq {s : List Char} (h : IsText s) : trimmed? s = some (String.ofList s) := by
  have hne : s.isEmpty = false := List.isEmpty_eq_false_iff.mpr h.ne_nil
  simp only [trimmed?, trimChars_of_trimmed h.trimmed, hne, Bool.false_eq_true, if_false]

theorem trimmed?_eq_some {cs : List Char} {s : String} (h : trimmed? cs = some s) :
    s.toList = trimChars cs ∧ IsText s.toList := by
  simp only [trimmed?] at h
  split at h
  · cases h
  · rename_i hne
    obtain rfl := Option.some.inj h
    rw [String.toList_ofList]
    refine ⟨rfl, fun hnil => hne ?_, trimmed_trimChars cs⟩
    rw [hnil]
    rfl

theorem dropDash_dash {s : List Char} (h : IsText s) : dropDash (' ' :: '-' :: ' ' :: s) = s := by
  have hdash : dropBlanks (' ' :: '-' :: ' ' :: s) = '-' :: ' ' :: s := by
    refine (dropBlanks_append (l := [' ']) (by decide) _).trans (dropBlanks_of_head ?_)
    intro c hc
    rw [← Option.some.inj hc]
    decide
  have hspace : dropBlanks (' ' :: s) = s :=
    (dropBlanks_append (l := [' ']) (by decide) _).trans (dropBlanks_of_head h.trimmed.1)
  rw [dropDash, hdash]
  exact hspace

theorem dropDash_of_ne {l s : List Char} (hl : AllBlank l) (h : IsText s)
    (hdash : s.head? ≠ some '-') : dropDash (l ++ s) = s := by
  have hdrop : dropBlanks (l ++ s) = s :=
    (dropBlanks_append hl s).trans (dropBlanks_of_head h.trimmed.1)
  rw [dropDash, hdrop]
  split
  · exact absurd rfl hdash
  · rfl

theorem dropDash_suffix (cs : List Char) : dropDash cs <:+ cs := by
  have hblank : dropBlanks cs <:+ cs := List.dropWhile_suffix _
  unfold dropDash
  split
  · rename_i rest heq
    rw [heq] at hblank
    have hrest : dropBlanks rest <:+ rest := List.dropWhile_suffix _
    exact hrest.trans ((List.suffix_cons _ _).trans hblank)
  · exact hblank

/-! ### Reading written values -/

/-- A description behind a dash, or nothing. -/
def dashText : Option String → List Char
  | some s => ' ' :: '-' :: ' ' :: s.toList
  | none => []

/-- A description behind a space, or nothing. -/
def spaceText : Option String → List Char
  | some s => ' ' :: s.toList
  | none => []

theorem head_nameText {optional : Bool} {name : List Char} (h : IsParamName optional name)
    (rest : List Char) : ∃ c cs, nameText optional name ++ rest = c :: cs ∧ c ≠ '{' := by
  obtain ⟨n, hn, hname⟩ := h
  cases optional with
  | true => exact ⟨'[', _, rfl, by decide⟩
  | false =>
    cases n with
    | nil => cases hn
    | cons c cs =>
      have hc : c ≠ '{' := by
        rintro rfl
        rw [isName, show isNameStart '{' = false by decide] at hn
        cases hn
      rcases hname with rfl | ⟨_, rfl⟩ <;> exact ⟨c, _, rfl, hc⟩

theorem solid_nameText {optional : Bool} {name : List Char} (h : IsParamName optional name) :
    ∀ c ∈ nameText optional name, isBlank c = false := by
  obtain ⟨n, hn, hname⟩ := h
  have hsolid : ∀ c ∈ name, isBlank c = false := by
    intro c hc
    have hcn : c ∈ n ++ [']'] := by
      rcases hname with rfl | ⟨_, rfl⟩
      · exact List.mem_append_left _ hc
      · exact hc
    rcases List.mem_append.mp hcn with hc | hc
    · exact isBlank_of_isNamePart (isNamePart_of_isName hn c hc)
    · rw [List.mem_singleton.mp hc]
      decide
  intro c hc
  unfold nameText at hc
  split at hc
  · rw [List.mem_cons, List.mem_append, List.mem_singleton] at hc
    rcases hc with rfl | hc | rfl
    · decide
    · exact hsolid c hc
    · decide
  · exact hsolid c hc

theorem isText_nameText {optional : Bool} {name : List Char} (h : IsParamName optional name) :
    IsText (nameText optional name) := by
  refine isText_of_solid (fun hnil => ?_) (solid_nameText h)
  obtain ⟨c, cs, hcs, _⟩ := head_nameText h []
  rw [hnil] at hcs
  cases hcs

/-- Trimming a value takes away the space in front of it. -/
theorem trimChars_space {s : List Char} (h : IsText s) : trimChars (' ' :: s) = s := by
  have := trimChars_append (l := [' ']) (r := []) (by decide) (by decide) h.trimmed
  rwa [List.append_nil] at this

/-- The same when a group of types comes first. -/
theorem trimChars_group {ts : List (List Char)} {s : List Char} (h : IsText s) :
    trimChars ((' ' :: '{' :: (['|'].intercalate ts ++ ['}'])) ++ ' ' :: s) =
      '{' :: (['|'].intercalate ts ++ '}' :: ' ' :: s) := by
  have htext := isText_append (s := ['{']) ⟨by decide, by decide⟩
    (['|'].intercalate ts ++ ['}', ' ']) h
  have hsplit : (' ' :: '{' :: (['|'].intercalate ts ++ ['}'])) ++ ' ' :: s =
      ' ' :: (['{'] ++ ((['|'].intercalate ts ++ ['}', ' ']) ++ s)) := by
    simp
  rw [hsplit, trimChars_space htext]
  simp

/-- A parameter that is read back. -/
structure Param.IsProper (p : Param) : Prop where
  types : IsTypes (p.types.map String.toList)
  name : IsParamName p.optional p.name.toList
  description : ∀ s, p.description = some s → IsText s.toList

/-- The value of a parameter's tag as it is written. -/
def Param.value (p : Param) : List Char :=
  typesText (p.types.map String.toList) ++
    ' ' :: (nameText p.optional p.name.toList ++ dashText p.description)

/-- Reading a parameter whose name is followed by a space or by nothing. -/
theorem Param.read?_tail {p : Param} (h : p.IsProper) {tail : List Char}
    (hspace : ∀ c, tail.head? = some c → c = ' ')
    (htext : IsText (nameText p.optional p.name.toList ++ tail)) :
    Param.read? (trimChars (typesText (p.types.map String.toList) ++
      ' ' :: (nameText p.optional p.name.toList ++ tail))) =
      some { p with description := trimmed? (dropDash tail) } := by
  have hname := paramName?_append h.name hspace
  have hunbraced : braced? (nameText p.optional p.name.toList ++ tail) = none := by
    obtain ⟨c, cs, hcs, hc⟩ := head_nameText h.name _
    rw [hcs]
    exact braced?_eq_none hc _
  -- with or without types, the name is what comes next
  obtain ⟨rest, hlead, hrest⟩ : ∃ rest,
      leadingTypes (trimChars (typesText (p.types.map String.toList) ++
        ' ' :: (nameText p.optional p.name.toList ++ tail))) = (p.types, rest) ∧
      dropBlanks rest = nameText p.optional p.name.toList ++ tail := by
    have hstart := dropBlanks_of_head htext.trimmed.1
    by_cases hnil : p.types.map String.toList = []
    · refine ⟨_, ?_, hstart⟩
      rw [typesText, if_pos hnil, List.nil_append, trimChars_space htext,
        leadingTypes_of_none hunbraced, List.map_eq_nil_iff.mp hnil]
    · refine ⟨_, ?_, (dropBlanks_append (l := [' ']) (by decide) _).trans hstart⟩
      rw [typesText, if_neg hnil, trimChars_group htext, leadingTypes_group h.types,
        Union.map_ofList_toList]
      rfl
  simp only [Param.read?, hlead, hrest, hname, String.ofList_toList, Option.bind_eq_bind,
    Option.bind_some]
  rfl

/-- **A parameter is read back from its written value.** -/
theorem Param.read?_value {p : Param} (h : p.IsProper) :
    Param.read? (trimChars p.value) = some p := by
  have hname := isText_nameText h.name
  rw [Param.value]
  cases hd : p.description with
  | none =>
    rw [Param.read?_tail h (fun _ hc => by cases hc) (by rw [dashText, List.append_nil]; exact hname)]
    exact congrArg some (by cases p; cases hd; rfl)
  | some s =>
    have hs := h.description s hd
    have hspace : ∀ c, (dashText (some s)).head? = some c → c = ' ' :=
      fun c hc => (Option.some.inj hc).symm
    rw [Param.read?_tail h hspace (isText_append hname [' ', '-', ' '] hs), dashText,
      dropDash_dash hs, trimmed?_eq hs, String.ofList_toList]
    exact congrArg some (by cases p; cases hd; rfl)

/-- A dash with nothing behind it is no description. -/
theorem Param.read?_dash {p : Param} (h : p.IsProper) :
    Param.read? (trimChars (typesText (p.types.map String.toList) ++
      ' ' :: (nameText p.optional p.name.toList ++ [' ', '-']))) =
      some { p with description := none } :=
  Param.read?_tail h (fun c hc => (Option.some.inj hc).symm)
    (isText_append (t := ['-']) (isText_nameText h.name) [' '] ⟨by decide, by decide⟩)

/-- A result that is read back. -/
structure Result.IsProper (r : Result) : Prop where
  types : IsTypes (r.types.map String.toList)
  description : ∀ s, r.description = some s → IsText s.toList

/-- The value of a result's tag as it is written. -/
def Result.value (r : Result) : List Char :=
  typesText (r.types.map String.toList) ++ spaceText r.description

/-- How the description of a result has to start to be read back. -/
def Result.Keeps (r : Result) : Prop :=
  ∀ s, r.description = some s →
    s.toList.head? ≠ some '-' ∧ (r.types = [] → ¬StartsGroup s.toList)

/-- **A result is read back from its written value.** -/
theorem Result.read_value {r : Result} (h : r.IsProper) (hkeeps : r.Keeps) :
    Result.read (trimChars r.value) = r := by
  obtain ⟨rest, hlead, hrest⟩ : ∃ rest, leadingTypes (trimChars r.value) = (r.types, rest) ∧
      trimmed? (dropDash rest) = r.description := by
    by_cases hnil : r.types.map String.toList = []
    · have hnil' := List.map_eq_nil_iff.mp hnil
      rw [Result.value, typesText, if_pos hnil, List.nil_append]
      cases hd : r.description with
      | none => exact ⟨[], by rw [hnil']; rfl, rfl⟩
      | some s =>
        have hs := h.description s hd
        obtain ⟨hdash, hbrace⟩ := hkeeps s hd
        refine ⟨s.toList, ?_, ?_⟩
        · rw [spaceText, trimChars_space hs, leadingTypes_of_none (braced?_eq_none_iff.mpr (hbrace hnil')),
            hnil']
        · have := dropDash_of_ne (l := []) (by decide) hs hdash
          rw [List.nil_append] at this
          rw [this, trimmed?_eq hs, String.ofList_toList]
    · rw [Result.value, typesText, if_neg hnil]
      cases hd : r.description with
      | none =>
        have htext := isText_append (s := ['{']) (t := ['}']) ⟨by decide, by decide⟩
          (['|'].intercalate (r.types.map String.toList)) ⟨by decide, by decide⟩
        refine ⟨[], ?_, rfl⟩
        rw [spaceText, List.append_nil]
        refine (congrArg leadingTypes (trimChars_space htext)).trans ?_
        exact (leadingTypes_group h.types []).trans (by rw [Union.map_ofList_toList])
      | some s =>
        have hs := h.description s hd
        obtain ⟨hdash, _⟩ := hkeeps s hd
        refine ⟨' ' :: s.toList, ?_, ?_⟩
        · rw [spaceText, trimChars_group hs, leadingTypes_group h.types, Union.map_ofList_toList]
        · have := dropDash_of_ne (l := [' ']) (by decide) hs hdash
          rw [List.cons_append, List.nil_append] at this
          rw [this, trimmed?_eq hs, String.ofList_toList]
  simp only [Result.read, hlead, hrest]

theorem length_of_trimmed? {cs : List Char} {s : String} (h : trimmed? cs = some s) :
    s.toList.length ≤ cs.length := by
  rw [(trimmed?_eq_some h).1]
  exact length_trimChars_le cs

/-- **Only such descriptions are read back**: any other comes back shorter. -/
theorem Result.keeps_of_read_value {r : Result} (h : r.IsProper)
    (hread : Result.read (trimChars r.value) = r) : r.Keeps := by
  intro s hd
  have hs := h.description s hd
  have hdescription := (congrArg Result.description hread).trans hd
  have hshorter : ∀ {rest : List Char}, rest.length < s.toList.length →
      trimmed? (dropDash rest) ≠ some s := by
    intro rest hlt heq
    have hle := length_of_trimmed? heq
    have hsuffix := (dropDash_suffix rest).length_le
    omega
  have hdash : ∀ {l cs : List Char}, AllBlank l → s.toList = '-' :: cs →
      trimmed? (dropDash (l ++ s.toList)) ≠ some s := by
    intro l cs hl hcs heq
    have hdrop : dropBlanks (l ++ s.toList) = '-' :: cs := by
      rw [dropBlanks_append hl, hcs]
      exact dropBlanks_of_head (by rw [← hcs]; exact hs.trimmed.1)
    have hrest : dropDash (l ++ s.toList) = dropBlanks cs := by
      rw [dropDash, hdrop]
      rfl
    have hle := length_of_trimmed? heq
    have hblank := length_dropBlanks_le cs
    rw [hrest, hcs, List.length_cons] at hle
    omega
  rw [Result.value, hd, spaceText] at hdescription
  by_cases hnil : r.types.map String.toList = []
  · rw [typesText, if_pos hnil, List.nil_append, trimChars_space hs] at hdescription
    refine ⟨fun hhead => ?_, fun _ => ?_⟩
    · obtain ⟨cs, hcs⟩ := List.head?_eq_some_iff.mp hhead
      have hnone : braced? s.toList = none := by
        rw [hcs]
        exact braced?_eq_none (by decide) _
      simp only [Result.read, leadingTypes_of_none hnone] at hdescription
      exact hdash (l := []) (by decide) hcs hdescription
    · rintro ⟨inner, rest, hinner, hgroup⟩
      have hlt : rest.length < s.toList.length := by
        rw [hgroup]
        simp
        omega
      rw [hgroup] at hdescription
      simp only [Result.read, leadingTypes, braced?_group hinner] at hdescription
      exact hshorter hlt hdescription
  · rw [typesText, if_neg hnil, trimChars_group hs] at hdescription
    refine ⟨fun hhead => ?_, fun htypes => absurd (by rw [htypes]; rfl) hnil⟩
    obtain ⟨cs, hcs⟩ := List.head?_eq_some_iff.mp hhead
    simp only [Result.read, leadingTypes_group h.types] at hdescription
    exact hdash (l := [' ']) (by decide) hcs hdescription

/-! ### What reading gives -/

theorem noTag_infix {w : Bool} {cs m : List Char} (h : NoTag w cs) (hm : m <:+: cs) :
    NoTag false m := by
  obtain ⟨l, r, rfl⟩ := hm
  exact noTag_false_of_noTag (noTag_right (noTag_left h))

/-- The types at the head of a value, and how much of the value they take. -/
theorem leadingTypes_spec {w : Bool} {cs rest : List Char} {types : List String}
    (hno : NoTag w cs) (h : leadingTypes cs = (types, rest)) :
    IsTypes (types.map String.toList) ∧ rest <:+ cs ∧
      ∀ p : Char → Bool, (types.map fun t => t.toList.countP p).sum + rest.countP p ≤ cs.countP p := by
  unfold leadingTypes at h
  split at h
  · rename_i inner rest' hbraced
    obtain ⟨rfl, rfl⟩ := Prod.mk.inj h
    obtain ⟨hcs, hunbraced⟩ := braced?_eq_some hbraced
    have hinner : inner <:+: cs := ⟨['{'], '}' :: rest', by rw [hcs]; simp⟩
    have hmap := Union.map_toList_ofList (Union.members inner)
    refine ⟨?_, ?_, fun p => ?_⟩
    · rw [hmap]
      refine ⟨Union.isUnion_members inner, fun t ht c hc => ?_, fun t ht => ?_⟩
      · exact hunbraced c ((Union.infix_of_mem_members ht).subset hc)
      · exact noTag_infix hno ((Union.infix_of_mem_members ht).trans hinner)
    · exact ⟨'{' :: (inner ++ ['}']), by rw [hcs]; simp⟩
    · have hsum := Union.sum_countP_members_le p inner
      rw [← hmap, List.map_map] at hsum
      have hcount : inner.countP p + rest'.countP p ≤ cs.countP p := by
        rw [hcs, List.countP_cons, List.countP_append, List.countP_cons]
        omega
      exact Nat.le_trans (Nat.add_le_add_right hsum _) hcount
  · obtain ⟨rfl, rfl⟩ := Prod.mk.inj h
    refine ⟨⟨⟨fun _ ht => (nomatch ht), fun _ ht => (nomatch ht)⟩, fun _ ht => (nomatch ht),
      fun _ ht => (nomatch ht)⟩, List.suffix_rfl, fun p => ?_⟩
    simp

/-- A description that is read is a text without tags, and a part of what it is read from. -/
theorem trimmed?_dropDash_spec {w : Bool} {cs : List Char} {s : String} (hno : NoTag w cs)
    (h : trimmed? (dropDash cs) = some s) :
    IsText s.toList ∧ NoTag false s.toList ∧
      ∀ p : Char → Bool, s.toList.countP p ≤ cs.countP p := by
  obtain ⟨hs, htext⟩ := trimmed?_eq_some h
  obtain ⟨l, r, hsplit, _, _⟩ := trimChars_split (dropDash cs)
  have htrim : s.toList <:+: dropDash cs := hs ▸ ⟨l, r, hsplit.symm⟩
  have hinfix := htrim.trans (dropDash_suffix cs).isInfix
  exact ⟨htext, noTag_infix hno hinfix, fun p => hinfix.sublist.countP_le⟩

/-- The texts of types and a description. -/
def textsOf (types : List String) (description : Option String) : List (List Char) :=
  types.map String.toList ++ (description.map String.toList).toList

theorem sum_textsOf_none (types : List String) (f : List Char → Nat) :
    ((textsOf types none).map f).sum = (types.map fun t => f t.toList).sum := by
  rw [textsOf, Option.map_none, Option.toList_none, List.append_nil, List.map_map]
  rfl

theorem sum_textsOf_some (types : List String) (s : String) (f : List Char → Nat) :
    ((textsOf types (some s)).map f).sum = (types.map fun t => f t.toList).sum + f s.toList := by
  rw [textsOf, Option.map_some, Option.toList_some, List.map_append, List.sum_append, List.map_map,
    List.map_singleton, List.sum_singleton]
  rfl

/-- **What is read as a result is proper.** -/
theorem Result.read_spec {w : Bool} {cs : List Char} (hno : NoTag w cs) :
    (Result.read cs).IsProper ∧
      (∀ s, (Result.read cs).description = some s → NoTag false s.toList) ∧
      ∀ p : Char → Bool, ((textsOf (Result.read cs).types (Result.read cs).description).map
        (List.countP p)).sum ≤ cs.countP p := by
  have hpair : leadingTypes cs = ((leadingTypes cs).1, (leadingTypes cs).2) := rfl
  obtain ⟨htypes, hsuffix, hcount⟩ := leadingTypes_spec hno hpair
  have hrest := noTag_infix hno hsuffix.isInfix
  refine ⟨⟨htypes, fun s hs => ?_⟩, fun s hs => ?_, fun p => ?_⟩
  · exact (trimmed?_dropDash_spec hrest hs).1
  · exact (trimmed?_dropDash_spec hrest hs).2.1
  · show ((textsOf (leadingTypes cs).1 (trimmed? (dropDash (leadingTypes cs).2))).map
      (List.countP p)).sum ≤ _
    have hle := hcount p
    cases hd : trimmed? (dropDash (leadingTypes cs).2) with
    | none =>
      rw [sum_textsOf_none]
      omega
    | some s =>
      have hs := (trimmed?_dropDash_spec hrest hd).2.2 p
      rw [sum_textsOf_some]
      omega

/-- **What is read as a parameter is proper.** -/
theorem Param.read?_spec {w : Bool} {cs : List Char} {q : Param} (hno : NoTag w cs)
    (h : Param.read? cs = some q) :
    q.IsProper ∧ (∀ s, q.description = some s → NoTag false s.toList) ∧
      ∀ p : Char → Bool, ((textsOf q.types q.description).map (List.countP p)).sum ≤ cs.countP p := by
  have hpair : leadingTypes cs = ((leadingTypes cs).1, (leadingTypes cs).2) := rfl
  obtain ⟨htypes, hsuffix, hcount⟩ := leadingTypes_spec hno hpair
  have hblank : dropBlanks (leadingTypes cs).2 <:+ (leadingTypes cs).2 := List.dropWhile_suffix _
  obtain ⟨⟨name, optional, rest⟩, hname, hq⟩ := Option.bind_eq_some_iff.mp h
  obtain rfl := Option.some.inj hq
  obtain ⟨hparam, hrest⟩ := paramName?_eq_some hname
  have hrest := hrest.trans hblank
  have hnoRest := noTag_infix hno (hrest.trans hsuffix).isInfix
  refine ⟨⟨htypes, by rwa [String.toList_ofList], fun s hs => ?_⟩, fun s hs => ?_, fun p => ?_⟩
  · exact (trimmed?_dropDash_spec hnoRest hs).1
  · exact (trimmed?_dropDash_spec hnoRest hs).2.1
  · show ((textsOf (leadingTypes cs).1 (trimmed? (dropDash rest))).map (List.countP p)).sum ≤ _
    have hle := hcount p
    have hsub : rest.countP p ≤ (leadingTypes cs).2.countP p := hrest.sublist.countP_le
    cases hd : trimmed? (dropDash rest) with
    | none =>
      rw [sum_textsOf_none]
      omega
    | some s =>
      have hs := (trimmed?_dropDash_spec hnoRest hd).2.2 p
      rw [sum_textsOf_some]
      omega

end Doc

end Rigging
