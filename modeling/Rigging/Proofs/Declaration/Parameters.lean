import Rigging.Proofs.Declaration.Promise
import Rigging.Proofs.TypeExpr.Read

/-!
# The parameters of signatures

Parameters get their types and marks from a doc comment by name, a rest parameter by its name without
the dots.  A parameter is optional as soon as it or one before it is documented so
(`optional_typeParams`), and from this alone follows the order that a signature needs: what stands
behind a parameter with a question mark has one too or is a rest parameter, which never has one and is
a list member by member (`Function.typed_optional_trail`).
-/

namespace Rigging

open TypeExpr (after? after?_append after?_eq_some_iff)

/-! ### The documented parameter -/

/-- The name that a doc comment knows a parameter by. -/
inductive KnownAs : String → String → Prop
  | rest (name : String) : KnownAs (restMark ++ name) name
  | plain {name : String} (unmarked : ¬restMark.toList <+: name.toList) : KnownAs name name

theorem knownAs_iff {param name : String} : KnownAs param name ↔ plainName param = name := by
  constructor
  · rintro (_ | unmarked)
    · rw [plainName, String.toList_append, after?_append, Option.map_some, Option.getD_some,
        String.ofList_toList]
    · rw [plainName, after?, if_neg fun h => unmarked (List.isPrefixOf_iff_prefix.mp h),
        Option.map_none, Option.getD_none]
  · rintro rfl
    cases hrest : after? restMark param.toList with
    | none =>
      rw [plainName, hrest, Option.map_none, Option.getD_none]
      refine .plain ?_
      rintro ⟨tail, htail⟩
      rw [← htail, after?_append] at hrest
      cases hrest
    | some tail =>
      have hparam : param = restMark ++ String.ofList tail := by
        rw [← String.toList_inj, String.toList_append, String.toList_ofList]
        exact after?_eq_some_iff.mp hrest
      rw [plainName, hrest, Option.map_some, Option.getD_some]
      nth_rewrite 1 [hparam]
      exact .rest _

/-- The first record that a doc comment has of a parameter says that it is optional. -/
def DocumentsOptional (doc : Option Doc) (param : String) : Prop :=
  ∃ d name before record after, doc = some d ∧ KnownAs param name ∧
    d.params = before ++ record :: after ∧ (∀ q ∈ before, q.name ≠ name) ∧ record.name = name ∧
      record.optional = true

theorem documentsOptional_iff {doc : Option Doc} {param : String} :
    DocumentsOptional doc param ↔
      (doc.bind fun d => d.param? (plainName param)).any Doc.Param.optional = true := by
  rw [Option.any_eq_true]
  constructor
  · rintro ⟨d, name, before, record, after, rfl, hname, hparams, hbefore, hrecord, hoptional⟩
    rw [knownAs_iff.mp hname]
    refine ⟨record, ?_, hoptional⟩
    rw [Option.bind_some, Doc.param?, List.find?_eq_some_iff_append]
    refine ⟨beq_iff_eq.mpr hrecord, before, after, hparams, fun q hq => ?_⟩
    rw [Bool.not_eq_true', beq_eq_false_iff_ne]
    exact hbefore q hq
  · rintro ⟨record, hfound, hoptional⟩
    obtain ⟨d, hd, hfound⟩ := Option.bind_eq_some_iff.mp hfound
    obtain ⟨hrecord, before, after, hparams, hbefore⟩ := List.find?_eq_some_iff_append.mp hfound
    refine ⟨d, plainName param, before, record, after, hd, knownAs_iff.mpr rfl, hparams, fun q hq => ?_,
      beq_iff_eq.mp hrecord, hoptional⟩
    have hq := hbefore q hq
    rwa [Bool.not_eq_true', beq_eq_false_iff_ne] at hq

/-! ### Typing parameters -/

/-- **A parameter is optional when it or one before it is documented so**, or when one was seen before
all of them.  The induction moves what the first name says into the flag. -/
theorem optional_typeParams {doc : Option Doc} {names : List String} :
    ∀ {seen : Bool} {i : Nat} {p : TypedParam}, (typeParams doc seen names)[i]? = some p →
      (p.optional = true ↔
        seen = true ∨ ∃ j ≤ i, ∃ param, names[j]? = some param ∧ DocumentsOptional doc param) := by
  induction names with
  | nil =>
    intro seen i p hp
    rw [typeParams, List.getElem?_nil] at hp
    cases hp
  | cons name names ih =>
    intro seen i p hp
    have hflag : (seen || (doc.bind fun d => d.param? (plainName name)).any Doc.Param.optional) = true ↔
        seen = true ∨ DocumentsOptional doc name := by
      rw [Bool.or_eq_true, documentsOptional_iff]
    cases i with
    | zero =>
      obtain rfl := Option.some.inj hp
      rw [hflag]
      refine or_congr_right ⟨fun hname => ⟨0, Nat.le_refl 0, name, rfl, hname⟩, ?_⟩
      rintro ⟨j, hj, param, hparam, hoptional⟩
      obtain rfl := Nat.le_zero.mp hj
      obtain rfl := Option.some.inj hparam
      exact hoptional
    | succ i =>
      rw [ih hp, hflag, or_assoc]
      refine or_congr_right ⟨?_, ?_⟩
      · rintro (hname | ⟨j, hj, param, hparam, hoptional⟩)
        · exact ⟨0, Nat.zero_le _, name, rfl, hname⟩
        · exact ⟨j + 1, Nat.succ_le_succ hj, param, hparam, hoptional⟩
      · rintro ⟨j, hj, param, hparam, hoptional⟩
        cases j with
        | zero =>
          obtain rfl := Option.some.inj hparam
          exact Or.inl hoptional
        | succ j => exact Or.inr ⟨j, Nat.le_of_succ_le_succ hj, param, hparam, hoptional⟩

/-- So what stands behind an optional parameter is optional. -/
theorem pairwise_optional_typeParams (doc : Option Doc) (seen : Bool) (names : List String) :
    (typeParams doc seen names).Pairwise fun p q => p.optional = true → q.optional = true := by
  rw [List.pairwise_iff_getElem]
  intro i j hi hj hij hoptional
  rcases (optional_typeParams (List.getElem?_eq_getElem hi)).mp hoptional with hseen | ⟨k, hk, hdoc⟩
  · exact (optional_typeParams (List.getElem?_eq_getElem hj)).mpr (Or.inl hseen)
  · exact (optional_typeParams (List.getElem?_eq_getElem hj)).mpr
      (Or.inr ⟨k, Nat.le_trans hk (Nat.le_of_lt hij), hdoc⟩)

/-! ### Writing parameters -/

namespace Declaration

/-- The text of a parameter has a question mark right behind the name. -/
def IsMarked (p : TypedParam) : Prop :=
  (p.name ++ "?").toList <+: (parameter p).toList

theorem parameter_eq (p : TypedParam) :
    parameter p = p.name ++ (if p.optional && !p.isRest then "?" else "") ++ ": " ++ parameterType p :=
  rfl

theorem isMarked_iff {p : TypedParam} : IsMarked p ↔ p.optional = true ∧ p.isRest = false := by
  rw [IsMarked, parameter_eq, String.append_assoc, String.append_assoc, String.toList_append,
    String.toList_append, List.prefix_append_right_inj]
  by_cases hmark : (p.optional && !p.isRest) = true
  · rw [if_pos hmark, String.toList_append]
    rw [Bool.and_eq_true, Bool.not_eq_true'] at hmark
    exact iff_of_true (List.prefix_append _ _) hmark
  · rw [if_neg hmark, String.empty_append, String.toList_append]
    rw [Bool.and_eq_true, Bool.not_eq_true'] at hmark
    refine iff_of_false ?_ hmark
    rintro ⟨tail, htail⟩
    exact absurd (List.cons.inj htail).1 (by decide)

theorem suffix_asList (type : String) : "[]".toList <:+ (asList type).toList := by
  unfold asList
  split
  · rename_i hlist
    exact List.isSuffixOf_iff_suffix.mp hlist
  · rw [String.toList_append]
    exact List.suffix_append _ _

theorem suffix_of_mem_writtenTypes {p : TypedParam} (hrest : p.isRest = true) {member : String}
    (hmember : member ∈ writtenTypes p) : "[]".toList <:+ member.toList := by
  rw [writtenTypes, if_pos hrest] at hmember
  obtain ⟨type, -, rfl⟩ := List.mem_map.mp hmember
  exact suffix_asList type

theorem isMember_asList {type : String} (h : Union.IsMember type.toList) :
    Union.IsMember (asList type).toList := by
  unfold asList
  split
  · exact h
  · rw [String.toList_append]
    refine ⟨List.append_ne_nil_of_left_ne_nil h.ne_nil _, ?_, ?_⟩
    · have hends := Text.trimmed_append h.trimmed h.ne_nil (r := "[]".toList) (by decide) (by decide) []
      rwa [List.append_nil] at hends
    · exact Union.noBar_append.mpr ⟨h.noBar, Union.noBar_of_not_mem (by decide) _⟩

theorem depthBehind_asList (type : String) :
    Union.depthBehind 0 (asList type).toList = Union.depthBehind 0 type.toList := by
  unfold asList
  split
  · rfl
  · rw [String.toList_append, Union.depthBehind_append]
    rfl

/-- The members of a union are members of one as lists too. -/
theorem isUnion_map_asList {types : List String} (h : Union.IsUnion (types.map String.toList)) :
    Union.IsUnion ((types.map asList).map String.toList) := by
  have hmap : (types.map asList).map String.toList = types.map fun t => (asList t).toList := by
    rw [List.map_map]
    rfl
  rw [hmap]
  refine ⟨fun m hm => ?_, fun m hm => ?_⟩
  · obtain ⟨type, htype, rfl⟩ := List.mem_map.mp hm
    exact isMember_asList (h.member _ (List.mem_map_of_mem htype))
  · rw [← List.map_dropLast] at hm
    obtain ⟨type, htype, rfl⟩ := List.mem_map.mp hm
    rw [depthBehind_asList]
    refine h.closed _ ?_
    rw [← List.map_dropLast]
    exact List.mem_map_of_mem htype

/-- The written type of a parameter is split into the types it is written from. -/
theorem split_parameterType {p : TypedParam} (h : Union.IsUnion (p.types.map String.toList)) :
    Union.split (parameterType p) = writtenTypes p := by
  have hwritten : Union.IsUnion ((writtenTypes p).map String.toList) := by
    have htypes : Union.IsUnion
        ((if p.types.isEmpty then [TypeExpr.wildcard] else p.types).map String.toList) := by
      split
      · exact ⟨fun m hm => List.mem_singleton.mp hm ▸ ⟨by decide, by decide, by decide⟩,
          List.forall_mem_nil _⟩
      · exact h
    unfold writtenTypes
    dsimp only
    by_cases hrest : p.isRest = true
    · rw [if_pos hrest]
      exact isUnion_map_asList htypes
    · rw [if_neg hrest]
      exact htypes
  exact Union.split_spaced hwritten

/-- How a rest parameter is written: without a mark, and each of its types as a list.  The types are the
members of the text if the documented ones are members of a union. -/
structure IsRestText (p : TypedParam) : Prop where
  text : parameter p = p.name ++ ": " ++ String.intercalate " | " (writtenTypes p)
  unmarked : ¬IsMarked p
  lists : ∀ member ∈ writtenTypes p, "[]".toList <:+ member.toList
  members : Union.IsUnion (p.types.map String.toList) → Union.split (parameterType p) = writtenTypes p

theorem isRestText_of_isRest {p : TypedParam} (h : p.isRest = true) : IsRestText p := by
  refine ⟨?_, fun hmark => ?_, fun _ => suffix_of_mem_writtenTypes h, split_parameterType⟩
  · rw [parameter_eq, h, Bool.not_true, Bool.and_false, if_neg Bool.false_ne_true, String.append_empty]
    rfl
  · rw [(isMarked_iff.mp hmark).2] at h
    cases h

/-- What stands behind a marked parameter is marked or takes all remaining arguments, if what stands
behind an optional one is optional. -/
theorem pairwise_isMarked {ps : List TypedParam}
    (h : ps.Pairwise fun p q => p.optional = true → q.optional = true) :
    ps.Pairwise fun p q => IsMarked p → IsMarked q ∨ q.isRest = true := by
  refine h.imp fun {p q} hoptional hmark => ?_
  cases hrest : q.isRest with
  | true => exact Or.inr rfl
  | false => exact Or.inl (isMarked_iff.mpr ⟨hoptional (isMarked_iff.mp hmark).1, hrest⟩)

end Declaration

/-! ### Signatures -/

namespace Function

open Declaration (IsMarked IsRestText parameter methodAs resultType)

/-- The function with the parameters that its own doc comment gives it. -/
def typed (f : Function) : Function :=
  { f with typedParams := f.withTypes }

/-- Resolving a function types its parameters with the doc comment in the closed grammar. -/
theorem resolved_eq_typed (known : String → Bool) (f : Function) :
    f.resolved known = typed { f with doc := f.doc.map (normalizedDoc known) } := rfl

/-- **Optional parameters trail.**  Every parameter is typed, in order, and it is optional just if it or
one before it is documented so.  In the signature no parameter without a question mark follows one with
it, but for rest parameters, which are lists and have none. -/
theorem typed_optional_trail (f : Function) (name : String) :
    f.withTypes.map TypedParam.name = f.params ∧
      (∀ (i : Nat) (p : TypedParam), f.withTypes[i]? = some p →
        (p.optional = true ↔
          ∃ j ≤ i, ∃ param, f.params[j]? = some param ∧ DocumentsOptional f.doc param)) ∧
      (∃ lead, methodAs name f.typed = lead ++ "abstract " ++ name ++ "(" ++
        String.intercalate ", " (f.withTypes.map parameter) ++ "): " ++ resultType f.typed ++ ";") ∧
      f.withTypes.Pairwise (fun p q => IsMarked p → IsMarked q ∨ q.isRest = true) ∧
      ∀ p ∈ f.withTypes, (IsMarked p ↔ p.optional = true ∧ p.isRest = false) ∧
        (p.isRest = true → IsRestText p) := by
  refine ⟨names_typeParams f.doc f.params false, fun i p hp => ?_,
    Declaration.exists_methodAs_declaration name f.typed,
    Declaration.pairwise_isMarked (pairwise_optional_typeParams f.doc false f.params),
    fun p _ => ⟨Declaration.isMarked_iff, Declaration.isRestText_of_isRest⟩⟩
  rw [optional_typeParams hp, or_iff_right Bool.false_ne_true]

/-- A function with a parameter that is documented twice, first as optional, one that is not documented,
and a rest parameter. -/
def finder : Function :=
  ⟨"find", ["where", "limit", "sort", "...rest"], false,
    some { Doc.empty with
      params := [⟨"where", ["object"], none, false⟩, ⟨"limit", ["number"], none, true⟩,
        ⟨"limit", ["string"], none, false⟩, ⟨"rest", ["string", "number[]"], none, false⟩] }, []⟩

/-- The parameter that is not documented is optional, since one before it is, and the rest parameter has
no mark. -/
theorem typed_optional_trail_finder :
    let f : Function := { finder with doc := finder.doc.map (normalizedDoc (Models.knows [])) }
    (∃ lead, methodAs "find" (finder.resolved (Models.knows [])) = lead ++
      "abstract find(where: object, limit?: number, sort?: any, ...rest: string[] | number[]): any;") ∧
      (∃ j ≤ 2, ∃ param, f.params[j]? = some param ∧ DocumentsOptional f.doc param) ∧
      ¬IsMarked ⟨"...rest", ["string", "number[]"], true⟩ ∧
      Union.split "string[] | number[]" = ["string[]", "number[]"] := by
  intro f
  obtain ⟨-, hoptional, ⟨lead, hlead⟩, -, hmarks⟩ := typed_optional_trail f "find"
  have hrest := (hmarks ⟨"...rest", ["string", "number[]"], true⟩ (by decide)).2 (by decide)
  refine ⟨⟨lead, ?_⟩, (hoptional 2 ⟨"sort", ["any"], true⟩ (by decide)).mp rfl, hrest.unmarked,
    hrest.members ⟨fun m hm => ?_, by decide⟩⟩
  · have hparams : String.intercalate ", " (f.withTypes.map parameter) =
        "where: object, limit?: number, sort?: any, ...rest: string[] | number[]" := by decide
    have hresult : resultType f.typed = "any" := by decide
    rw [resolved_eq_typed, hlead, hparams, hresult]
    simp only [String.append_assoc]
    rfl
  · have hall : ∀ m ∈ ["string".toList, "number[]".toList],
        m ≠ [] ∧ Text.Trimmed m ∧ Union.NoBar 0 m := by decide
    obtain ⟨hne, htrimmed, hno⟩ := hall m hm
    exact ⟨hne, htrimmed, hno⟩

end Function

end Rigging
