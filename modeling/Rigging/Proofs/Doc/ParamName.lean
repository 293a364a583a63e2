import Rigging.Proofs.Doc.Value

/-!
# The names of documented parameters

The value of a parameter's tag leads to a name, past types in braces and blanks (`LeadsTo`), and the
parameter is read with the name that stands there (`Param.exists_read?_iff`).  Behind an opening bracket
or without brackets this is a proper name.  A closing bracket that nothing has opened is kept as the last
character of the name, so that no proper name finds the parameter (`Param.isName_read?_iff`).
-/

namespace Rigging.Doc

open Rigging.Text
open TypeExpr (isName isNamePart_of_isName)

/-! ### Up to the name -/

/-- What stands in a value behind types in braces, or none, and blanks. -/
inductive LeadsTo : List Char → List Char → Prop
  | bare {blanks : List Char} (blank : AllBlank blanks) (cs : List Char) : LeadsTo (blanks ++ cs) cs
  | typed {inner blanks : List Char} (unbraced : Unbraced inner) (blank : AllBlank blanks)
      (cs : List Char) : LeadsTo ('{' :: (inner ++ '}' :: (blanks ++ cs))) cs

/-- Where the reader looks for the name. -/
def nameStart (value : List Char) : List Char :=
  dropBlanks (leadingTypes value).2

theorem blanks_append_dropBlanks (cs : List Char) :
    ∃ blanks, AllBlank blanks ∧ blanks ++ dropBlanks cs = cs :=
  ⟨cs.takeWhile isBlank, fun _ hc => List.mem_takeWhile_imp hc, List.takeWhile_append_dropWhile⟩

theorem leadsTo_nameStart (value : List Char) : LeadsTo value (nameStart value) := by
  unfold nameStart leadingTypes
  split
  · rename_i inner rest hbraced
    obtain ⟨rfl, hinner⟩ := braced?_eq_some hbraced
    obtain ⟨blanks, hblank, hrest⟩ := blanks_append_dropBlanks rest
    have hlead := LeadsTo.typed hinner hblank (dropBlanks rest)
    rwa [hrest] at hlead
  · obtain ⟨blanks, hblank, hvalue⟩ := blanks_append_dropBlanks value
    have hlead := LeadsTo.bare hblank (dropBlanks value)
    rwa [hvalue] at hlead

/-- A text that starts as no group in braces does, and not with a blank. -/
def StartsSolid (cs : List Char) : Prop :=
  ∀ c, cs.head? = some c → isBlank c = false ∧ c ≠ '{'

/-- A value leads to one such text, the one that the reader finds. -/
theorem LeadsTo.nameStart_eq {value cs : List Char} (h : LeadsTo value cs) (hcs : StartsSolid cs) :
    nameStart value = cs := by
  have hstart : dropBlanks cs = cs := dropBlanks_of_head fun c hc => (hcs c hc).1
  cases h with
  | @bare blanks blank =>
    have hnone : braced? (blanks ++ cs) = none := by
      rw [braced?_eq_none_iff]
      rintro ⟨inner, rest, _, hgroup⟩
      have hhead : (blanks ++ cs).head? = some '{' := by rw [hgroup]; rfl
      cases blanks with
      | nil => exact (hcs '{' hhead).2 rfl
      | cons c blanks =>
        rw [List.cons_append, List.head?_cons] at hhead
        have hblank := blank c List.mem_cons_self
        rw [Option.some.inj hhead] at hblank
        exact absurd hblank (by decide)
    rw [nameStart, leadingTypes_of_none hnone, dropBlanks_append blank, hstart]
  | typed unbraced blank =>
    rw [nameStart, leadingTypes, braced?_group unbraced, dropBlanks_append blank, hstart]

/-! ### Parameters -/

theorem startsSolid_name_append {name : List Char} (h : isName name = true) (rest : List Char) :
    StartsSolid (name ++ rest) := by
  intro c hc
  cases name with
  | nil => cases h
  | cons d name =>
    obtain rfl := Option.some.inj hc
    have hpart := isNamePart_of_isName h d List.mem_cons_self
    refine ⟨isBlank_of_isNamePart hpart, ?_⟩
    rintro rfl
    exact absurd hpart (by decide)

theorem NameOf.startsSolid {cs name rest : List Char} {optional : Bool}
    (h : NameOf cs name optional rest) : StartsSolid cs := by
  cases h with
  | opened _ _ =>
    intro c hc
    rw [← Option.some.inj hc]
    decide
  | plain proper _ _ => exact startsSolid_name_append proper _
  | closed proper => exact startsSolid_name_append proper _

theorem Param.read?_eq (value : List Char) :
    Param.read? value = (paramName? (nameStart value)).map fun x =>
      ⟨String.ofList x.1, (leadingTypes value).1, trimmed? (dropDash x.2.2), x.2.1⟩ := by
  rw [Option.map_eq_bind]
  rfl

/-- **A parameter is read just if its value leads to a name**, and with this name. -/
theorem Param.exists_read?_iff {value name : List Char} {optional : Bool} :
    (∃ p, Param.read? value = some p ∧ p.name.toList = name ∧ p.optional = optional) ↔
      ∃ cs rest, LeadsTo value cs ∧ NameOf cs name optional rest := by
  simp only [Param.read?_eq, Option.map_eq_some_iff]
  constructor
  · rintro ⟨p, ⟨⟨n, o, rest⟩, hread, rfl⟩, rfl, rfl⟩
    rw [String.toList_ofList]
    exact ⟨nameStart value, rest, leadsTo_nameStart value, paramName?_eq_some_iff.mp hread⟩
  · rintro ⟨cs, rest, hlead, hname⟩
    have hread := hname.paramName?_eq
    rw [← hlead.nameStart_eq hname.startsSolid] at hread
    exact ⟨_, ⟨_, hread, rfl⟩, String.toList_ofList, rfl⟩

/-! ### Proper names -/

theorem not_isName_append_bracket (name : List Char) : ¬isName (name ++ [']']) = true := by
  intro h
  have hpart := isNamePart_of_isName h ']' (List.mem_append_right _ List.mem_cons_self)
  exact absurd hpart (by decide)

/-- The name that stands at the head of a text is a proper one unless a closing bracket follows. -/
theorem NameOf.isName_iff {cs name rest : List Char} {optional : Bool}
    (h : NameOf cs name optional rest) :
    isName name = true ↔ ¬∃ front back, isName front = true ∧ cs = front ++ ']' :: back := by
  constructor
  · rintro hproper ⟨front, back, hfront, rfl⟩
    have hread := h.paramName?_eq
    rw [(NameOf.closed hfront back).paramName?_eq] at hread
    obtain ⟨rfl, -⟩ := Prod.mk.inj (Option.some.inj hread)
    exact not_isName_append_bracket front hproper
  · intro hopen
    cases h with
    | opened proper _ => exact proper
    | plain proper _ _ => exact proper
    | closed proper => exact absurd ⟨_, _, proper, rfl⟩ hopen

/-- Right behind the name stands a closing bracket that nothing has opened. -/
def StrayClose (value : List Char) : Prop :=
  ∃ name rest, isName name = true ∧ LeadsTo value (name ++ ']' :: rest)

theorem strayClose_iff {value : List Char} :
    StrayClose value ↔ ∃ name rest, isName name = true ∧ nameStart value = name ++ ']' :: rest := by
  constructor
  · rintro ⟨name, rest, hname, hlead⟩
    exact ⟨name, rest, hname, hlead.nameStart_eq (startsSolid_name_append hname _)⟩
  · rintro ⟨name, rest, hname, hstart⟩
    exact ⟨name, rest, hname, hstart ▸ leadsTo_nameStart value⟩

theorem exists_param?_isName_iff {doc : Doc} {p : Param} (h : doc.param? p.name = some p) :
    (∃ name : String, isName name.toList = true ∧ doc.param? name = some p) ↔
      isName p.name.toList = true := by
  constructor
  · rintro ⟨name, hname, hfound⟩
    rw [Doc.param?] at hfound
    have heq := List.find?_some hfound
    rw [beq_iff_eq] at heq
    rwa [heq]
  · exact fun hname => ⟨p.name, hname, h⟩

/-- **The name of a parameter is a proper name, unless a stray bracket closes it.**  What is read are
the names that the value leads to.  A parameter that is read has a proper name, and can be found by one,
just if no bracket that nothing has opened stands behind it. -/
theorem Param.isName_read?_iff (value : List Char) :
    (∀ name optional,
      (∃ p, Param.read? value = some p ∧ p.name.toList = name ∧ p.optional = optional) ↔
        ∃ cs rest, LeadsTo value cs ∧ NameOf cs name optional rest) ∧
      ∀ p, Param.read? value = some p →
        (isName p.name.toList = true ↔ ¬StrayClose value) ∧
        ∀ doc : Doc, doc.param? p.name = some p →
          ((∃ name : String, isName name.toList = true ∧ doc.param? name = some p) ↔
            ¬StrayClose value) := by
  refine ⟨fun _ _ => Param.exists_read?_iff, fun p hread => ?_⟩
  have hproper : isName p.name.toList = true ↔ ¬StrayClose value := by
    obtain ⟨cs, rest, hlead, hname⟩ := Param.exists_read?_iff.mp ⟨p, hread, rfl, rfl⟩
    obtain rfl := hlead.nameStart_eq hname.startsSolid
    rw [hname.isName_iff, strayClose_iff]
  exact ⟨hproper, fun doc hfound => (exists_param?_isName_iff hfound).trans hproper⟩

/-- A parameter with a default. -/
def pageSize : Param :=
  ⟨"limit", ["number"], some "Page size.", true⟩

theorem Param.isName_read?_pageSize :
    Param.read? "\x7bnumber\x7d [limit=10] - Page size.".toList = some pageSize ∧
      ¬StrayClose "\x7bnumber\x7d [limit=10] - Page size.".toList ∧
      ∃ name : String, isName name.toList = true ∧
        ({ Doc.empty with params := [pageSize] } : Doc).param? name = some pageSize := by
  have hread : Param.read? "\x7bnumber\x7d [limit=10] - Page size.".toList = some pageSize := by decide
  obtain ⟨hproper, hfound⟩ := (Param.isName_read?_iff _).2 pageSize hread
  have hclosed := hproper.mp (by decide)
  exact ⟨hread, hclosed, (hfound _ (by decide)).mpr hclosed⟩

/-- Without its opening bracket the closing one becomes a part of the name. -/
theorem Param.read?_strayClose :
    ∃ p, Param.read? "\x7bnumber\x7d limit] - Page size.".toList = some p ∧ p.name = "limit]" ∧
      isName p.name.toList = false :=
  ⟨⟨"limit]", ["number"], some "Page size.", false⟩, by decide, rfl, by decide⟩

end Rigging.Doc
