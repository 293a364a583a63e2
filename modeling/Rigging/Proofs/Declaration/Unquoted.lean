import Rigging.Proofs.Declaration.Imports
import Rigging.Proofs.Entity.Lexical
import Rigging.Proofs.Rebuild

/-!
# Files of entities whose names have no quotes

Names are written into the classes of an entity as they are.  If none of them has a quote in it, nothing
else has: types are made of names and of fixed words, and a comment stays a comment, whatever it says.
So the file of an entity imports just what it is meant to (`Entity.LinkClosed.importedPaths_eq`).
-/

namespace Rigging

open Script (Unquoted unquoted_append unquoted_intercalate)

theorem TypeExpr.ClosedText.unquoted {known : String → Bool} {listed : List String} {text : String}
    (h : ClosedText known listed text) : Unquoted text := by
  obtain ⟨t, hclosed, rfl, _⟩ := h
  exact fun c hc => Script.isQuote_eq_false (by decide) (hclosed.isTypeChar c hc)

theorem unquoted_instanceName {name : String} (h : Unquoted name) :
    Unquoted (TypeExpr.instanceName name) :=
  unquoted_append.mpr ⟨unquoted_append.mpr ⟨by decide, h⟩, by decide⟩

theorem Attribute.IsTypeOver.unquoted {targets : List String} {type : String}
    (h : IsTypeOver targets type) (htargets : ∀ t ∈ targets, Unquoted t) : Unquoted type := by
  have hspellings : ∀ spelling ∈ TypeExpr.spellings, Unquoted spelling := by decide
  rcases h with hlisted | ⟨t, ht, rfl | rfl⟩
  · exact hspellings type hlisted
  · exact unquoted_instanceName (htargets t ht)
  · exact unquoted_append.mpr ⟨unquoted_instanceName (htargets t ht), by decide⟩

namespace Declaration

open Scan (AtStart Calm)
open TypeExpr (ClosedText)

theorem isSpaceOrTab_indent : ∀ c ∈ indent.toList, Text.isSpaceOrTab c = true := by decide

section Functions

variable {known : String → Bool} {listed : List String}

theorem unquoted_parameter {p : TypedParam} (hname : Unquoted p.name)
    (htypes : ∀ s ∈ p.types, ClosedText known listed s) : Unquoted (parameter p) := by
  have hmark : Unquoted (if p.optional && !p.isRest then "?" else "") := by
    split <;> decide
  have hunion : Unquoted (parameterType p) :=
    unquoted_intercalate (by decide) fun s hs => (closedText_writtenTypes htypes s hs).unquoted
  exact unquoted_append.mpr ⟨unquoted_append.mpr ⟨unquoted_append.mpr ⟨hname, hmark⟩, by decide⟩, hunion⟩

theorem unquoted_resultType {f : Function} (h : ∀ s ∈ resultTypes f, ClosedText known listed s) :
    Unquoted (resultType f) := by
  have hunion : Unquoted (String.intercalate " | " (resultTypes f)) :=
    unquoted_intercalate (by decide) fun s hs => (h s hs).unquoted
  unfold resultType
  dsimp only
  split
  · exact unquoted_append.mpr ⟨unquoted_append.mpr ⟨by decide, hunion⟩, by decide⟩
  · exact hunion

/-- **The member of a function** that is resolved, under any name without quotes. -/
theorem reads_methodAs {f : Function} (hresolved : f.resolved known = f)
    (hdoc : ∀ d, f.doc = some d → d.NoEnds) (hparams : ∀ n ∈ f.params, Unquoted n) {name : String}
    (hname : Unquoted name) : Reads AtStart (methodAs name f) [] Calm := by
  refine reads_member ((Doc.noEnds_methodDoc hdoc).enclosed isSpaceOrTab_indent) ?_
  have htyped : ∀ s ∈ f.typedParams.map parameter, Unquoted s := by
    intro s hs
    obtain ⟨p, hp, rfl⟩ := List.mem_map.mp hs
    have hnames : f.typedParams.map TypedParam.name = f.params := by
      rw [← hresolved]
      exact names_typeParams _ _ _
    have hparam := hparams p.name (hnames ▸ List.mem_map_of_mem hp)
    rw [← hresolved] at hp
    exact unquoted_parameter hparam (Function.closedText_typedParams hp)
  have hresult : Unquoted (resultType f) := by
    rw [← hresolved]
    exact unquoted_resultType Function.closedText_resultTypes
  have hlist := unquoted_intercalate (show Unquoted ", " by decide) htyped
  simp only [unquoted_append, hname, hlist, hresult, and_true]
  decide

end Functions

/-- **The member of an attribute.** -/
theorem reads_attributeMember {a : Attribute} (hname : Unquoted a.name)
    (hdoc : ∀ d, a.doc = some d → d.NoEnds) {type : String}
    (htype : attributeType a.properties = .ok type) (hunquoted : Unquoted type) {text : String}
    (h : attributeMember a = .ok text) : Reads AtStart text [] Calm := by
  rw [Attribute.attributeMember_eq, htype] at h
  obtain rfl := Except.ok.inj h
  refine reads_member (Doc.enclosed_write? hdoc isSpaceOrTab_indent) ?_
  have hmark : Unquoted (if (a.properties.given? "required").isSome then "" else "?") := by
    split <;> decide
  simp only [unquoted_append, hname, hmark, hunquoted, true_and]
  decide

theorem reads_idMember : Reads AtStart idMember [] Calm := by
  have hdescription : '*' ∉ idDoc.description.toList := by decide +kernel
  have hdoc : idDoc.NoEnds := by
    refine ⟨Doc.noEnd_of_noStar hdescription, List.forall_mem_nil _, List.forall_mem_nil _, ?_⟩
    intro r hr
    cases hr
  exact reads_member (hdoc.enclosed isSpaceOrTab_indent) (by decide)

end Declaration

namespace Entity

open Declaration
open Scan (AtStart Calm)

/-- No name of an entity has a quote in it. -/
structure PlainNames (e : Entity) : Prop where
  name : Unquoted e.name
  attributes : ∀ a ∈ e.attributes, Unquoted a.name
  functions : ∀ f ∈ e.functions, Unquoted f.name

section Classes

variable {models : Models} {e : Entity} (hlexical : e.Lexical) (hsettled : e.Settled models)
  (hnames : e.PlainNames)

include hlexical hsettled

theorem reads_method {f : Function} (hf : f ∈ e.functions) {name : String} (hname : Unquoted name) :
    Reads AtStart (methodAs name f) [] Calm :=
  reads_methodAs (hsettled.functions f hf) (hlexical.functionDocs f hf) (hlexical.params f hf) hname

include hnames

/-- **Nothing is found in the class of a model's instances.** -/
theorem reads_instanceClass (hmodels : ∀ m ∈ models, Unquoted m.2.name) {text : String}
    (h : Declaration.instanceClass e = .ok text) : Reads AtStart text [] Calm := by
  rw [instanceClass_eq] at h
  obtain ⟨members, hmembers, rfl⟩ := Act.map_eq_ok_iff.mp h
  refine reads_classText (unquoted_append.mpr ⟨by decide, unquoted_instanceName hnames.name⟩) ?_
  refine List.forall_mem_append.mpr ⟨List.forall_mem_append.mpr ⟨?_, ?_⟩, ?_⟩
  · split
    · exact List.forall_mem_nil _
    · exact List.forall_mem_singleton.mpr reads_idMember
  · intro m hm
    obtain ⟨a, ha, hmember⟩ := exists_of_mem_mapM hmembers m hm
    obtain ⟨ts, hall, _⟩ := hsettled.attributes
    obtain ⟨_, us, hresolves, hus⟩ := hall.resolves a ha
    obtain ⟨type, htype, hover⟩ := hresolves.exists_type
    have htargets : ∀ t ∈ us, Unquoted t := by
      intro t ht
      obtain ⟨model, hmodel, rfl⟩ := hall.target_known t (hus t ht)
      exact hmodels model hmodel
    exact reads_attributeMember (hnames.attributes a ha) (hlexical.attributeDocs a ha) htype
      (hover.unquoted htargets) hmember
  · intro m hm
    obtain ⟨f, hf, rfl⟩ := Option.map_eq_some_iff.mp (Option.mem_toList.mp hm)
    exact reads_method hlexical hsettled (List.mem_of_find?_eq_some hf) (by decide)

/-- **Nothing is found in the own class of an entity.** -/
theorem reads_ownClass : Reads AtStart (ownClass e) [] Calm := by
  have hmethods : ∀ fs : List Function, (∀ f ∈ fs, f ∈ e.functions) →
      ∀ m ∈ fs.map method, Reads AtStart m [] Calm := by
    intro fs hfs m hm
    obtain ⟨f, hf, rfl⟩ := List.mem_map.mp hm
    exact reads_method hlexical hsettled (hfs f hf) (hnames.functions f (hfs f hf))
  have hname := hnames.name
  unfold ownClass
  split
  · refine reads_classText ?_ (hmethods _ fun f hf => List.mem_of_mem_filter hf)
    simp only [unquoted_append, hname, unquoted_instanceName hname, and_true]
    decide
  · refine reads_classText ?_ (hmethods _ fun f hf => hf)
    simp only [unquoted_append, hname, and_true]
    decide

end Classes

namespace StandsAlone

variable {models : Models} {e : Entity}

/-- Nothing is found in the instance class that an entity has. -/
theorem reads_instanceText (h : e.StandsAlone) (hlexical : e.Lexical) (hsettled : e.Settled models)
    (hnames : e.PlainNames) (hmodels : ∀ m ∈ models, Unquoted m.2.name) :
    ∀ text ∈ e.declarations.instanceClass, Reads AtStart text [] Calm := by
  intro text htext
  have htext : e.declarations.instanceClass = some text := htext
  cases hmodel : e.isModel with
  | false =>
    rw [h.no_instance_class hmodel] at htext
    cases htext
  | true =>
    obtain ⟨c, hc, hsome⟩ := Act.map_eq_ok_iff.mp (h.instance_class hmodel)
    rw [htext] at hsome
    cases hsome
    exact reads_instanceClass hlexical hsettled hnames hmodels hc

end StandsAlone

/-- The classes that an entity links to are instance classes of models. -/
theorem Links.exists_model {models : Models} {e : Entity} {classes : List String}
    (h : e.Links models classes) :
    ∀ c ∈ classes, ∃ m ∈ models, m.2.declarations.instanceClass = some c := by
  intro c hc
  have hmem : some (some c) ∈ classes.map fun c => some (some c) := List.mem_map_of_mem hc
  rw [← h] at hmem
  obtain ⟨name, _, hname⟩ := List.mem_map.mp hmem
  obtain ⟨model, hmodel, hclass⟩ := Option.map_eq_some_iff.mp hname
  exact ⟨(name, model), Assoc.mem_of_get?_eq_some hmodel, hclass⟩

/-- **What the file of a linked entity imports**, if nothing is found in its classes and in those of
all models. -/
theorem LinkClosed.importedPaths_eq {models : Models} {e : Entity} (h : e.LinkClosed models)
    (hmodels : ∀ m ∈ models, ∀ text ∈ m.2.declarations.instanceClass, Reads AtStart text [] Calm)
    (hinstance : ∀ text ∈ e.declarations.instanceClass, Reads AtStart text [] Calm)
    (hown : Reads AtStart (ownClass e) [] Calm) {text : String}
    (htext : e.declarations.linked = some text) : importedPaths text = entityPaths e.isModel := by
  obtain ⟨classes, hlinks, hlinked⟩ := h.linked
  obtain rfl := Option.some.inj (hlinked.symm.trans htext)
  refine importedPaths_fileText _ (fun c hc => ?_) hinstance hown
  obtain ⟨m, hm, hclass⟩ := hlinks.exists_model c hc
  exact hmodels m hm c hclass

/-- Comments and parameters are part of what resolution works on. -/
theorem lexical_congr {e e' : Entity} (h : e.body = e'.body) (hlexical : e.Lexical) : e'.Lexical := by
  obtain ⟨hfunctions, hattributes, _⟩ :
      e.functions = e'.functions ∧ e.attributes = e'.attributes ∧ e.imports = e'.imports := by
    simpa only [body, Prod.mk.injEq] using h
  obtain ⟨hattributeDocs, hfunctionDocs, hparams⟩ := hlexical
  rw [hattributes] at hattributeDocs
  rw [hfunctions] at hfunctionDocs hparams
  exact ⟨hattributeDocs, hfunctionDocs, hparams⟩

end Entity

/-- A build leaves comments and parameters as they were read, but for types. -/
theorem Pool.Builds.lexical {pool out : Pool} {r : Registry} (h : Builds pool r out)
    (hpool : ∀ e ∈ pool, e.Lexical) : ∀ d ∈ out, d.Lexical := by
  intro d hd
  obtain ⟨e, he, hresolve, hbody⟩ := h.exists_resolved d hd
  exact Entity.lexical_congr hbody ((hpool e he).resolve hresolve)

end Rigging
