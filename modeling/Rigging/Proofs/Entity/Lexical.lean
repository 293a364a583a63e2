import Rigging.Proofs.Doc.Enclosed
import Rigging.Proofs.Entity.Members
import Rigging.Proofs.Script.Lexical

/-!
# What an entity has from its module

An entity takes its doc comments and the names of parameters from its module as they are spelled there.
A comment in front of a member is one in the script (`isBlock_of_isComment`), so the texts of every doc
comment are without an end; the names of parameters are words, so they are without quotes.  This is
`Entity.Lexical`.  It holds of what is read (`Entity.lexical_ofSource`), and resolving keeps it
(`Entity.Lexical.resolve`).
-/

namespace Rigging

namespace Script

open Doc (EndsOnce IsBlock NoEnd endsOnce_append noEnd_cons)

/-- A block comment reaches to the first end. -/
theorem blockRestLength?_eq_some {cs : List Char} {n : Nat} (h : blockRestLength? cs = some n) :
    ∃ inner rest, cs = inner ++ '*' :: '/' :: rest ∧ n = inner.length + 2 ∧ NoEnd (inner ++ ['*']) := by
  induction cs generalizing n with
  | nil => cases h
  | cons c cs ih =>
    by_cases hend : c = '*' ∧ cs.head? = some '/'
    · obtain ⟨rfl, hslash⟩ := hend
      obtain ⟨rest, rfl⟩ := List.head?_eq_some_iff.mp hslash
      cases h
      exact ⟨[], rest, rfl, rfl, by decide⟩
    · have hrest : blockRestLength? (c :: cs) = (blockRestLength? cs).map (· + 1) := by
        rw [blockRestLength?.eq_def]
        split <;> simp_all
      rw [hrest] at h
      obtain ⟨m, hm, rfl⟩ := Option.map_eq_some_iff.mp h
      obtain ⟨inner, rest, rfl, rfl, hno⟩ := ih hm
      refine ⟨c :: inner, rest, rfl, rfl, noEnd_cons.mpr ⟨fun hstar => hend ⟨hstar.1, ?_⟩, hno⟩⟩
      cases inner with
      | nil => exact absurd hstar.2 (by decide)
      | cons d inner => exact hstar.2

/-- **A comment that opens a block** is closed by the first end behind that. -/
theorem isBlock_of_isComment {text : String} (h : IsComment text)
    (hopen : "/*".toList <+: text.toList) : IsBlock text := by
  refine ⟨hopen, ?_⟩
  obtain ⟨cs, hne, htext⟩ := h
  rw [htext] at hopen ⊢
  obtain ⟨more, rfl⟩ := hopen.trans (List.take_prefix _ cs)
  have hlength : commentLength ("/*".toList ++ more) =
      ((blockRestLength? more).map (· + 2)).getD 0 := rfl
  cases hrest : blockRestLength? more with
  | none =>
    rw [hlength, hrest] at hne
    exact absurd rfl hne
  | some n =>
    obtain ⟨inner, rest, rfl, rfl, hno⟩ := blockRestLength?_eq_some hrest
    have htake : (inner ++ '*' :: '/' :: rest).take (inner.length + 2) = inner ++ ['*', '/'] := by
      rw [List.take_length_add_append]
      rfl
    rw [hlength, hrest]
    show EndsOnce ((inner ++ '*' :: '/' :: rest).take (inner.length + 2))
    rw [htake]
    exact endsOnce_append.mpr hno

theorem Item.Lexical.object {item : Item} {items : List Item} (h : item.Lexical)
    (hobject : item.object? = some items) : ∀ x ∈ items, x.Lexical := by
  cases item with
  | pair key value =>
    rw [Lexical] at h
    cases value with
    | object members =>
      cases hobject
      exact lexical_object.mp h.2
    | _ => cases hobject
  | _ => cases hobject

end Script

namespace Extraction

open Script (Item Param Statement Unquoted)

theorem lexical_exported? {s : Statement} {items : List Item} (hs : s.Lexical)
    (h : exported? s = some items) : ∀ item ∈ items, item.Lexical := by
  unfold exported? at h
  split at h
  · split at h
    · cases h
      rw [Statement.Lexical, Script.Expr.Lexical] at hs
      exact Script.lexical_object.mp hs.2
    · cases h
  · cases h

theorem lexical_exports? {text : String} {statements : List Statement} {items : List Item}
    (hread : Script.read text = .ok statements) (h : exports? statements = some items) :
    ∀ item ∈ items, item.Lexical := by
  obtain ⟨s, hs, hexported⟩ := List.exists_of_findSome?_eq_some h
  exact lexical_exported? (Script.lexical_read hread s hs) hexported

theorem AttributesAt.lexical {items inner : List Item} (h : AttributesAt items inner)
    (hitems : ∀ item ∈ items, item.Lexical) : ∀ item ∈ inner, item.Lexical := by
  obtain ⟨front, item, back, rfl, _, _, hobject⟩ := h
  exact (hitems item (List.mem_append_right _ List.mem_cons_self)).object hobject

/-- An item and the one in front of it are items of the list. -/
theorem mem_withPrevious {previous : Option Item} {items : List Item} {x : Option Item × Item}
    (h : x ∈ withPrevious previous items) :
    x.2 ∈ items ∧ ∀ y, x.1 = some y → y ∈ items ∨ previous = some y := by
  induction items generalizing previous with
  | nil => cases h
  | cons item items ih =>
    rcases List.mem_cons.mp h with rfl | h
    · exact ⟨List.mem_cons_self, fun y hy => .inr hy⟩
    · obtain ⟨hmem, hprevious⟩ := ih h
      refine ⟨List.mem_cons_of_mem _ hmem, fun y hy => .inl ?_⟩
      rcases hprevious y hy with hy | hy
      · exact List.mem_cons_of_mem _ hy
      · exact Option.some.inj hy ▸ List.mem_cons_self

/-- The doc comment of a member has no end in its texts. -/
theorem noEnds_leadingDoc {previous : Option Item} (h : ∀ y, previous = some y → y.Lexical) {d : Doc}
    (hd : leadingDoc previous = some d) : d.NoEnds := by
  unfold leadingDoc at hd
  split at hd
  · rename_i text
    have htext : Script.IsComment text := by simpa [Item.Lexical] using h _ rfl
    split at hd
    · rename_i hopen
      exact Doc.noEnds_of_ofComment?
        (Script.isBlock_of_isComment htext (List.isPrefixOf_iff_prefix.mp hopen)) hd
    · cases hd
  · cases hd

/-- The names of parameters have no quotes. -/
theorem unquoted_paramNames {params : List Param} (h : ∀ p ∈ params, p.Lexical) :
    ∀ name ∈ paramNames params, Unquoted name := by
  intro name hname
  obtain ⟨p, hp, hname⟩ := List.mem_filterMap.mp hname
  have hlexical := h p hp
  cases p with
  | name text =>
    cases hname
    exact hlexical.unquoted
  | rest text =>
    cases hname
    rw [Unquoted, String.toList_append]
    exact List.forall_mem_append.mpr ⟨by decide, hlexical.unquoted⟩
  | other => cases hname

/-- What a member that gives a function hands on. -/
theorem lexical_function? {previous : Option Item} (hprevious : ∀ y, previous = some y → y.Lexical)
    {item : Item} (hitem : item.Lexical) {f : Function} (h : function? previous item = some f) :
    (∀ d, f.doc = some d → d.NoEnds) ∧ ∀ name ∈ f.params, Unquoted name := by
  cases item with
  | method key async params =>
    rw [Item.Lexical] at hitem
    obtain ⟨name, _, rfl⟩ := Option.map_eq_some_iff.mp h
    exact ⟨fun _ => noEnds_leadingDoc hprevious, unquoted_paramNames hitem.2⟩
  | pair key value =>
    rw [Item.Lexical] at hitem
    cases value with
    | function kind async params =>
      obtain ⟨name, _, rfl⟩ := Option.map_eq_some_iff.mp h
      have hparams := hitem.2
      rw [Script.Expr.Lexical] at hparams
      exact ⟨fun _ => noEnds_leadingDoc hprevious, unquoted_paramNames hparams⟩
    | _ => cases h
  | _ => cases h

theorem noEnds_attribute? {previous : Option Item} (hprevious : ∀ y, previous = some y → y.Lexical)
    {item : Item} {a : Attribute} (h : attribute? previous item = some a) :
    ∀ d, a.doc = some d → d.NoEnds := by
  unfold attribute? at h
  split at h
  · cases h
    exact fun _ => noEnds_leadingDoc hprevious
  · cases h

end Extraction

namespace Entity

open Extraction

/-- No doc comment of an entity has an end in its texts, and no parameter a quote in its name. -/
structure Lexical (e : Entity) : Prop where
  attributeDocs : ∀ a ∈ e.attributes, ∀ d, a.doc = some d → d.NoEnds
  functionDocs : ∀ f ∈ e.functions, ∀ d, f.doc = some d → d.NoEnds
  params : ∀ f ∈ e.functions, ∀ name ∈ f.params, Script.Unquoted name

theorem lexical_of_no_members {e : Entity} (h : e.attributes = [] ∧ e.functions = []) : e.Lexical := by
  refine ⟨?_, ?_, ?_⟩
  · rw [h.1]
    exact List.forall_mem_nil _
  · rw [h.2]
    exact List.forall_mem_nil _
  · rw [h.2]
    exact List.forall_mem_nil _

/-- **An entity that is read from a module** has comments and parameters from there only. -/
theorem lexical_ofSource {name filename owner text : String} {kind : EntityKind} {e : Entity}
    (h : (ofSource name filename kind owner text ()).result = .ok e) : e.Lexical := by
  unfold ofSource at h
  cases hread : Script.read text with
  | error line =>
    rw [hread] at h
    cases h
  | ok statements =>
    rw [hread] at h
    rcases fill_ok h with ⟨_, rfl⟩ |
      ⟨items, object, attributes, functions, hexports, hobject, hattributes, hfunctions, rfl⟩
    · exact lexical_of_no_members ⟨rfl, rfl⟩
    · have hitems := lexical_exports? hread hexports
      have hprevious : ∀ {xs : List Script.Item}, (∀ x ∈ xs, x.Lexical) →
          ∀ x ∈ withPrevious none xs, ∀ y, x.1 = some y → y.Lexical := by
        intro xs hxs x hx y hy
        rcases (mem_withPrevious hx).2 y hy with hmem | hnone
        · exact hxs y hmem
        · cases hnone
      have hall : ∀ f ∈ functions,
          (∀ d, f.doc = some d → d.NoEnds) ∧ ∀ name ∈ f.params, Script.Unquoted name := by
        rw [functionsFrom_ok hfunctions]
        intro f hf
        obtain ⟨x, hx, hf⟩ := List.mem_filterMap.mp hf
        exact lexical_function? (hprevious hitems x hx) (hitems _ (mem_withPrevious hx).1) hf
      refine ⟨?_, fun f hf => (hall f hf).1, fun f hf => (hall f hf).2⟩
      rcases hattributes with ⟨_, rfl⟩ | ⟨inner, rfl, hattributes⟩
      · exact List.forall_mem_nil _
      · have hinner := ((attributesObject_ok_some_iff _).mp hobject).lexical hitems
        obtain ⟨_, rfl⟩ := attributesFrom_ok hattributes
        intro a ha
        obtain ⟨x, hx, ha⟩ := List.mem_filterMap.mp ha
        exact noEnds_attribute? (hprevious hinner x hx) ha

/-- Resolving an entity keeps its comments but for their types, and the names of its parameters. -/
theorem Lexical.resolve {models : Models} {e : Entity} (hlexical : e.Lexical)
    (h : (resolve models e).result = .ok ()) : (resolve models e).state.Lexical := by
  obtain ⟨as', ts, hall, hstate⟩ := resolve_ok h
  rw [hstate]
  refine ⟨fun a ha => ?_, fun f hf => ?_, fun f hf => ?_⟩
  · have hdoc := List.mem_map_of_mem (f := Attribute.doc) ha
    rw [hall.docs] at hdoc
    obtain ⟨a', ha', hdoc⟩ := List.mem_map.mp hdoc
    rw [← hdoc]
    exact hlexical.attributeDocs a' ha'
  · obtain ⟨g, hg, rfl⟩ := List.mem_map.mp hf
    intro d hd
    obtain ⟨d', hd', rfl⟩ := Option.map_eq_some_iff.mp hd
    exact (hlexical.functionDocs g hg d' hd').normalizedDoc models.knows
  · obtain ⟨g, hg, rfl⟩ := List.mem_map.mp hf
    exact hlexical.params g hg

end Entity

end Rigging
