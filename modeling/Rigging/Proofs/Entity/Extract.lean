import Rigging.Entity.Extract
import Rigging.Proofs.Act
import Rigging.Proofs.Assoc

/-!
# How extraction fails

An escape in a string can name a character by its code.  A code beyond Unicode leaves the escape as it
is, but a code that is too large to be asked for at all (`Piece.IsOversized`) is a trouble that is not
the program's own.  Which strings of a module are read depends on where they stand: `Oversized` says
when extraction comes to such a code, and `ofSource_readsUnless` that this is just when it ends with
that trouble.  Apart from it, there are only modules that cannot be read and attributes in conflict.

The readers of keys, values, properties and functions have no other error (`FailsIff`).  The reader of
attributes has: there the first error counts, and `AttributesEnd` tells the three ways to end apart.
-/

namespace Rigging

/-! ### Results with one error -/

section FailsIff

variable {σ α β : Type} {e : Error} {P Q : Prop}

/-- A result that is an error just if `P` holds, and then the error `e`. -/
def FailsIff (e : Error) (P : Prop) (x : Except Error α) : Prop :=
  P ∧ x = .error e ∨ ¬P ∧ ∃ a, x = .ok a

namespace FailsIff

theorem congr {x : Except Error α} (h : FailsIff e P x) (hPQ : P ↔ Q) : FailsIff e Q x := by
  rwa [FailsIff, ← hPQ]

theorem ok (a : α) : FailsIff e False (.ok a : Except Error α) := .inr ⟨id, a, rfl⟩

theorem map {x : Except Error α} (h : FailsIff e P x) (f : α → β) : FailsIff e P (x.map f) := by
  rcases h with ⟨hP, rfl⟩ | ⟨hP, a, rfl⟩
  · exact .inl ⟨hP, rfl⟩
  · exact .inr ⟨hP, f a, rfl⟩

/-- A computation for each element fails if there is one for which it does. -/
theorem mapM {f : α → Except Error β} {R : α → Prop} (h : ∀ x, FailsIff e (R x) (f x)) (xs : List α) :
    FailsIff e (∃ x ∈ xs, R x) (xs.mapM f) := by
  induction xs with
  | nil => exact .inr ⟨by simp, [], rfl⟩
  | cons x xs ih =>
    rw [List.mapM_cons, List.exists_mem_cons_iff]
    rcases h x with ⟨hR, hx⟩ | ⟨hR, y, hx⟩
    · rw [hx]
      exact .inl ⟨.inl hR, rfl⟩
    · refine FailsIff.congr ?_ (or_iff_right hR).symm
      rw [hx]
      exact ih.map (y :: ·)

/-- In sequence, the first part fails or else the second one does. -/
theorem bind {a : Act σ α} {f : α → Act σ β} {s : σ} (ha : FailsIff e P (a s).result)
    (hf : ∀ x, (a s).result = .ok x → FailsIff e Q (f x (a s).state).result) :
    FailsIff e (P ∨ Q) ((a >>= f) s).result := by
  rcases ha with ⟨hP, ha⟩ | ⟨hP, x, ha⟩
  · rw [Act.bind_of_error ha]
    exact .inl ⟨.inl hP, rfl⟩
  · rw [Act.bind_of_ok ha]
    exact (hf x ha).congr (or_iff_right hP).symm

theorem bind_pure {a : Act σ α} {s : σ} (ha : FailsIff e P (a s).result) (f : α → β) :
    FailsIff e P ((a >>= fun x => pure (f x) : Act σ β) s).result := by
  rw [Act.result_bind_pure]
  exact ha.map f

end FailsIff

end FailsIff

namespace Script

open Extraction

/-! ### Codes that are too large -/

/-- The code by which an escape names a character. -/
def escapeCode? (body : String) : Option Nat :=
  match body.toList with
  | [] => none
  | c :: cs =>
    if c == 'x' || c == 'u' then
      some (Number.ofDigits 16 ((cs.filter isHex).filterMap Number.digitValue?))
    else none

/-- A piece of a string with a code that cannot be asked for. -/
def Piece.IsOversized : Piece → Prop
  | .text _ => False
  | .escape body => ∃ code, escapeCode? body = some code ∧ largestCode < code

def Key.IsOversized : Key → Prop
  | .string pieces => ∃ piece ∈ pieces, piece.IsOversized
  | _ => False

def Expr.IsOversized : Expr → Prop
  | .string pieces => ∃ piece ∈ pieces, piece.IsOversized
  | _ => False

namespace Item

/-- A pair with a key that cannot be read. -/
def HasOversizedKey : Item → Prop
  | .pair key _ => key.IsOversized
  | _ => False

/-- A property of an attribute with a key or a value that cannot be read.  Where the key is of another
form, the value is passed over. -/
def IsOversizedProperty : Item → Prop
  | .pair key value => key.IsOversized ∨ key ≠ .other ∧ value.IsOversized
  | _ => False

/-- An attribute with a key or a property that cannot be read. -/
def IsOversizedAttribute : Item → Prop
  | .pair key (.object items) =>
    key.IsOversized ∨ key ≠ .other ∧ ∃ item ∈ items, item.IsOversizedProperty
  | .pair key _ => key.IsOversized
  | _ => False

/-- A function with a key that cannot be read. -/
def IsOversizedFunction : Item → Prop
  | .method key _ _ => key.IsOversized
  | .pair key (.function _ _ _) => key.IsOversized
  | _ => False

/-- What the search for the attributes ends at. -/
def IsAttributes : Item → Prop
  | .shorthand text => text = "attributes"
  | .pair key _ => keyName key = .ok (some "attributes")
  | _ => False

/-- The object that a pair gives. -/
def object? : Item → Option (List Item)
  | .pair _ (.object items) => some items
  | _ => none

/-- The name of an attribute. -/
def attributeName? : Item → Option String
  | .pair key (.object _) =>
    match keyName key with
    | .ok name => name
    | .error _ => none
  | _ => none

end Item

end Script

namespace Extraction

open Script (Expr Item Key Piece)

/-- The trouble with a code that is too large. -/
abbrev tooLarge : Error := .system .numberTooLarge

theorem failsIff_codeValue (body : String) (digits : List Char) :
    FailsIff tooLarge (largestCode < Number.ofDigits 16 (digits.filterMap Number.digitValue?))
      (codeValue body digits) := by
  unfold codeValue
  dsimp only
  split
  · rename_i hlarge
    exact .inl ⟨hlarge, rfl⟩
  · rename_i hsmall
    split
    · exact .inr ⟨hsmall, _, rfl⟩
    · exact .inr ⟨hsmall, _, rfl⟩

theorem failsIff_pieceValue (piece : Piece) :
    FailsIff tooLarge piece.IsOversized (pieceValue piece) := by
  cases piece with
  | text value => exact .ok value
  | escape body =>
    change FailsIff tooLarge (∃ code, Script.escapeCode? body = some code ∧ largestCode < code)
      (escapeValue body)
    unfold escapeValue Script.escapeCode?
    cases body.toList with
    | nil => exact .inr ⟨by simp, _, rfl⟩
    | cons c cs =>
      dsimp only
      by_cases hcode : (c == 'x' || c == 'u') = true
      · rw [if_pos hcode, if_pos hcode]
        exact (failsIff_codeValue body _).congr (by simp)
      · -- continued lines and short escapes always stand for something
        rw [if_neg hcode, if_neg hcode]
        split
        · exact .inr ⟨by simp, _, rfl⟩
        · exact .inr ⟨by simp, _, rfl⟩

theorem failsIff_stringValue (pieces : List Piece) :
    FailsIff tooLarge (∃ piece ∈ pieces, piece.IsOversized) (stringValue pieces) :=
  (FailsIff.mapM failsIff_pieceValue pieces).map String.join

theorem failsIff_keyName (key : Key) : FailsIff tooLarge key.IsOversized (keyName key) := by
  cases key with
  | name text => exact .ok _
  | string pieces => exact (failsIff_stringValue pieces).map some
  | other => exact .ok _

/-- A key has no name just if it is neither a name nor a string. -/
theorem keyName_ok_none_iff {key : Key} : keyName key = .ok none ↔ key = .other := by
  cases key with
  | name text => simp [keyName]
  | string pieces =>
    cases h : stringValue pieces <;> simp [keyName, h, bind, Except.bind, pure, Except.pure]
  | other => simp [keyName]

theorem ne_other_of_keyName {key : Key} {name : String} (h : keyName key = .ok (some name)) :
    key ≠ .other := by
  intro hother
  rw [keyName_ok_none_iff.mpr hother] at h
  cases h

theorem failsIff_literalValue (value : Expr) :
    FailsIff tooLarge value.IsOversized (literalValue value) := by
  cases value with
  | string pieces => exact (failsIff_stringValue pieces).map _
  | _ => exact .ok _

/-! ### Members -/

theorem failsIff_ofExcept_keyName (key : Key) :
    FailsIff tooLarge key.IsOversized (Act.ofExcept (keyName key) ()).result := by
  rw [Act.result_ofExcept]
  exact failsIff_keyName key

theorem failsIff_functionsFrom (entity : Entity) (items : List (Option Item × Item)) :
    FailsIff tooLarge (∃ item ∈ items.map Prod.snd, item.IsOversizedFunction)
      (functionsFrom entity items ()).result := by
  induction items with
  | nil => exact .inr ⟨by simp, [], rfl⟩
  | cons x rest ih =>
    obtain ⟨previous, item⟩ := x
    rw [List.map_cons, List.exists_mem_cons_iff]
    have hpassed : FailsIff tooLarge (False ∨ ∃ item ∈ rest.map Prod.snd, item.IsOversizedFunction)
        (functionsFrom entity rest ()).result := ih.congr (or_iff_right id).symm
    cases item with
    | method key async params =>
      refine FailsIff.bind (failsIff_ofExcept_keyName key) fun name _ => ?_
      cases name with
      | none => exact ih
      | some name => exact ih.bind_pure _
    | pair key value =>
      cases value with
      | function kind async params =>
        refine FailsIff.bind (failsIff_ofExcept_keyName key) fun name _ => ?_
        cases name with
        | none => exact ih
        | some name => exact ih.bind_pure _
      | _ => exact hpassed
    | _ => exact hpassed

theorem failsIff_propertiesFrom (entity : Entity) (attr : String) (found : Properties)
    (items : List Item) :
    FailsIff tooLarge (∃ item ∈ items, item.IsOversizedProperty)
      (propertiesFrom entity attr found items ()).result := by
  induction items generalizing found with
  | nil => exact .inr ⟨by simp, found, rfl⟩
  | cons item rest ih =>
    rw [List.exists_mem_cons_iff]
    cases item with
    | pair key value =>
      change FailsIff tooLarge ((key.IsOversized ∨ key ≠ .other ∧ value.IsOversized) ∨ _) _
      rw [or_assoc]
      refine FailsIff.bind (failsIff_ofExcept_keyName key) fun name hname => ?_
      rw [Act.result_ofExcept] at hname
      cases name with
      | none =>
        -- without a name, the value is not looked at
        rw [keyName_ok_none_iff] at hname
        exact (ih found).congr (by simp [hname])
      | some name =>
        have hkey := ne_other_of_keyName hname
        refine FailsIff.congr (FailsIff.bind (P := value.IsOversized) ?_ fun literal _ => ?_)
          (or_congr_left (and_iff_right hkey).symm)
        · rw [Act.result_ofExcept]
          exact failsIff_literalValue value
        · cases literal with
          | none => exact ih found
          | some literal =>
            dsimp only
            rw [Act.result_when_notify]
            exact ih _
    | _ => exact (ih found).congr (or_iff_right id).symm

/-! ### The object with the attributes -/

/-- The search for the attributes comes to an object. -/
def AttributesAt (items inner : List Item) : Prop :=
  ComesTo (fun item => ¬item.IsAttributes ∧ ¬item.HasOversizedKey)
    (fun item => item.IsAttributes ∧ item.object? = some inner) items

section Search

variable {entity : Entity} {key : Key} {value : Expr} {rest : List Item}

theorem attributesObject_of_error {e : Error} (h : keyName key = .error e) :
    (attributesObject entity (.pair key value :: rest) ()).result = .error e := by
  unfold attributesObject
  rw [h]
  rfl

theorem attributesObject_of_ne {name : Option String} (h : keyName key = .ok name)
    (hne : name ≠ some "attributes") :
    (attributesObject entity (.pair key value :: rest) ()).result =
      (attributesObject entity rest ()).result := by
  rw [attributesObject.eq_def]
  dsimp only
  rw [h, Act.ofExcept_ok, Act.pure_bind, if_neg hne]

theorem attributesObject_of_eq (h : keyName key = .ok (some "attributes")) :
    (attributesObject entity (.pair key value :: rest) ()).result =
      .ok (Item.object? (.pair key value)) := by
  rw [attributesObject.eq_def]
  dsimp only
  rw [h, Act.ofExcept_ok, Act.pure_bind, if_pos rfl]
  cases value <;> rfl

end Search

theorem failsIff_attributesObject (entity : Entity) (items : List Item) :
    FailsIff tooLarge (ComesTo (fun item => ¬item.IsAttributes) Item.HasOversizedKey items)
      (attributesObject entity items ()).result := by
  induction items with
  | nil => exact .inr ⟨not_comesTo_nil, none, rfl⟩
  | cons item rest ih =>
    rw [comesTo_cons]
    cases item with
    | shorthand text =>
      by_cases htext : text = "attributes"
      · refine .inr ⟨by simp [Item.HasOversizedKey, Item.IsAttributes, htext], none, ?_⟩
        rw [attributesObject, if_pos htext]
        rfl
      · rw [attributesObject, if_neg htext]
        exact ih.congr (by simp [Item.HasOversizedKey, Item.IsAttributes, htext])
    | pair key value =>
      rcases failsIff_keyName key with ⟨hkey, hname⟩ | ⟨hkey, name, hname⟩
      · rw [attributesObject_of_error hname]
        exact .inl ⟨.inl hkey, rfl⟩
      · by_cases hends : name = some "attributes"
        · rw [hends] at hname
          rw [attributesObject_of_eq hname]
          exact .inr ⟨by simp [Item.HasOversizedKey, Item.IsAttributes, hkey, hname], _, rfl⟩
        · rw [attributesObject_of_ne hname hends]
          exact ih.congr (by simp [Item.HasOversizedKey, Item.IsAttributes, hkey, hname, hends])
    | _ => exact ih.congr (by simp [Item.HasOversizedKey, Item.IsAttributes])

theorem attributesObject_ok_some_iff (entity : Entity) {items inner : List Item} :
    (attributesObject entity items ()).result = .ok (some inner) ↔ AttributesAt items inner := by
  unfold AttributesAt
  induction items with
  | nil => simp [attributesObject]
  | cons item rest ih =>
    rw [comesTo_cons]
    cases item with
    | shorthand text =>
      by_cases htext : text = "attributes"
      · rw [attributesObject, if_pos htext]
        simp [Item.IsAttributes, Item.object?, htext]
      · rw [attributesObject, if_neg htext, ih]
        simp [Item.HasOversizedKey, Item.IsAttributes, htext]
    | pair key value =>
      rcases failsIff_keyName key with ⟨hkey, hname⟩ | ⟨hkey, name, hname⟩
      · rw [attributesObject_of_error hname]
        simp [Item.HasOversizedKey, Item.IsAttributes, hkey, hname]
      · by_cases hends : name = some "attributes"
        · rw [hends] at hname
          rw [attributesObject_of_eq hname]
          simp [Item.IsAttributes, hname]
        · rw [attributesObject_of_ne hname hends, ih]
          simp [Item.HasOversizedKey, Item.IsAttributes, hkey, hname, hends]
    | _ =>
      refine ih.trans ?_
      simp [Item.HasOversizedKey, Item.IsAttributes]

/-! ### Attributes -/

/-- The names of attributes, without regard to case. -/
def identities (items : List Item) : List String :=
  (items.filterMap Item.attributeName?).map Text.lower

theorem identities_append (front back : List Item) :
    identities (front ++ back) = identities front ++ identities back := by
  simp [identities]

/-- The attributes come to one that cannot be read before two of them have the same identity. -/
def MeetsOversized (items : List Item) : Prop :=
  ∃ front item back, items = front ++ item :: back ∧ (∀ x ∈ front, ¬x.IsOversizedAttribute) ∧
    item.IsOversizedAttribute ∧ (identities (front ++ [item])).Nodup

/-- The attributes come to one whose identity is taken before one of them cannot be read. -/
def MeetsConflict (items : List Item) : Prop :=
  ∃ front item back, items = front ++ item :: back ∧ (∀ x ∈ front, ¬x.IsOversizedAttribute) ∧
    ¬(identities (front ++ [item])).Nodup

theorem MeetsOversized.exists_mem {items : List Item} (h : MeetsOversized items) :
    ∃ item ∈ items, item.IsOversizedAttribute := by
  obtain ⟨front, item, back, rfl, _, hoversized, _⟩ := h
  exact ⟨item, List.mem_append_right _ List.mem_cons_self, hoversized⟩

theorem MeetsConflict.not_nodup {items : List Item} (h : MeetsConflict items) :
    ¬(identities items).Nodup := by
  obtain ⟨front, item, back, rfl, _, hclash⟩ := h
  intro hnodup
  rw [List.append_cons, identities_append] at hnodup
  exact hclash hnodup.of_append_left

/-- A conflict is found first. -/
theorem MeetsConflict.not_meetsOversized {items : List Item} (h : MeetsConflict items) :
    ¬MeetsOversized items := by
  obtain ⟨front, item, back, rfl, hfits, hclash⟩ := h
  rintro ⟨front', item', back', hitems, _, hoversized, hnodup⟩
  -- what cannot be read stands behind the items that can, so the conflict is in front of it
  rcases List.append_eq_append_iff.mp hitems with ⟨mid, rfl, hmid⟩ | ⟨mid, rfl, hmid⟩
  · cases mid with
    | nil =>
      obtain ⟨rfl, _⟩ := List.cons.inj hmid
      rw [List.append_nil] at hnodup
      exact hclash hnodup
    | cons x mid =>
      obtain ⟨rfl, _⟩ := List.cons.inj hmid
      rw [List.append_assoc, List.cons_append, List.append_cons, identities_append] at hnodup
      exact hclash hnodup.of_append_left
  · cases mid with
    | nil =>
      obtain ⟨rfl, _⟩ := List.cons.inj hmid
      rw [List.append_nil] at hclash
      exact hclash hnodup
    | cons x mid =>
      obtain ⟨rfl, _⟩ := List.cons.inj hmid
      exact hfits item' (List.mem_append_right _ List.mem_cons_self) hoversized

/-- What the items in front have left: none of them is oversized, and their identities are known. -/
structure ReadTo (seen : List (String × String)) (front : List Item) : Prop where
  fits : ∀ item ∈ front, ¬item.IsOversizedAttribute
  apart : (identities front).Nodup
  mem_seen : ∀ identity, identity ∈ Assoc.keys seen ↔ identity ∈ identities front

theorem readTo_nil : ReadTo [] [] :=
  ⟨List.forall_mem_nil _, List.nodup_nil, by simp [Assoc.keys, identities]⟩

/-- How the reading of attributes ends. -/
inductive AttributesEnd (items : List Item) : Except Error (List Attribute) → Prop
  | read {attributes : List Attribute} (fits : ∀ item ∈ items, ¬item.IsOversizedAttribute)
      (apart : (identities items).Nodup) : AttributesEnd items (.ok attributes)
  | oversized (meets : MeetsOversized items) : AttributesEnd items (.error tooLarge)
  | conflict {e : Error} (meets : MeetsConflict items) (structural : e.family = .structural) :
      AttributesEnd items (.error e)

theorem AttributesEnd.map {items : List Item} {result : Except Error (List Attribute)}
    (h : AttributesEnd items result) (f : List Attribute → List Attribute) :
    AttributesEnd items (result.map f) := by
  cases h with
  | read fits apart => exact .read fits apart
  | oversized meets => exact .oversized meets
  | conflict meets structural => exact .conflict meets structural

section Reading

variable {seen : List (String × String)} {front : List Item} {item : Item} {name : String}

theorem ReadTo.fits_concat (h : ReadTo seen front) (hfits : ¬item.IsOversizedAttribute) :
    ∀ x ∈ front ++ [item], ¬x.IsOversizedAttribute := by
  intro x hx
  rcases List.mem_append.mp hx with hx | hx
  · exact h.fits x hx
  · rwa [List.mem_singleton.mp hx]

theorem identities_concat_of_none (hname : item.attributeName? = none) :
    identities (front ++ [item]) = identities front := by
  simp [identities, hname]

theorem identities_concat_of_some (hname : item.attributeName? = some name) :
    identities (front ++ [item]) = identities front ++ [Text.lower name] := by
  simp [identities, hname]

/-- An item that gives no attribute changes nothing. -/
theorem ReadTo.pass (h : ReadTo seen front) (hfits : ¬item.IsOversizedAttribute)
    (hname : item.attributeName? = none) : ReadTo seen (front ++ [item]) := by
  refine ⟨h.fits_concat hfits, ?_, ?_⟩
  · rw [identities_concat_of_none hname]
    exact h.apart
  · rw [identities_concat_of_none hname]
    exact h.mem_seen

theorem ReadTo.nodup_concat_iff (h : ReadTo seen front) (hname : item.attributeName? = some name) :
    (identities (front ++ [item])).Nodup ↔ Assoc.get? (Text.lower name) seen = none := by
  rw [identities_concat_of_some hname, List.nodup_append_comm, List.singleton_append, List.nodup_cons,
    and_iff_left h.apart, ← h.mem_seen, Assoc.get?_eq_none_iff]

/-- An attribute takes its identity. -/
theorem ReadTo.take (h : ReadTo seen front) (hfits : ¬item.IsOversizedAttribute)
    (hname : item.attributeName? = some name) (hfree : Assoc.get? (Text.lower name) seen = none) :
    ReadTo ((Text.lower name, name) :: seen) (front ++ [item]) := by
  refine ⟨h.fits_concat hfits, (h.nodup_concat_iff hname).mpr hfree, fun identity => ?_⟩
  rw [identities_concat_of_some hname, List.mem_append, List.mem_singleton, ← h.mem_seen,
    Assoc.keys, List.map_cons, List.mem_cons, or_comm]
  rfl

end Reading

section Steps

variable {entity : Entity} {seen : List (String × String)} {front : List Item} {key : Key}
  {previous : Option Item} {rest : List (Option Item × Item)}

/-- An attribute is refused, cannot be read, or is followed by the rest. -/
theorem attributesFrom_object {name : String} {items : List Item} (h : ReadTo seen front)
    (hname : keyName key = .ok (some name)) (hkey : ¬key.IsOversized)
    (hrest : ∀ {seen' front'}, ReadTo seen' front' → AttributesEnd (front' ++ rest.map Prod.snd)
      (attributesFrom entity seen' rest ()).result) :
    AttributesEnd (front ++ .pair key (.object items) :: rest.map Prod.snd)
      (attributesFrom entity seen ((previous, .pair key (.object items)) :: rest) ()).result := by
  have hitem : Item.attributeName? (.pair key (.object items)) = some name := by
    simp [Item.attributeName?, hname]
  have hother := ne_other_of_keyName hname
  have hnodup := h.nodup_concat_iff hitem
  rw [attributesFrom.eq_def]
  dsimp only
  rw [hname, Act.ofExcept_ok, Act.pure_bind]
  dsimp only
  cases hget : Assoc.get? (Text.lower name) seen with
  | some other =>
    -- the conflict is found before the properties are looked at
    refine .conflict ⟨front, _, rest.map Prod.snd, rfl, h.fits, ?_⟩ rfl
    rw [hnodup, hget]
    simp
  | none =>
    rw [hget] at hnodup
    dsimp only
    rcases failsIff_propertiesFrom entity name [] items with
      ⟨hproperty, hread⟩ | ⟨hproperty, properties, hread⟩
    · rw [Act.bind_of_error hread]
      exact .oversized
        ⟨front, _, rest.map Prod.snd, rfl, h.fits, .inr ⟨hother, hproperty⟩, hnodup.mpr rfl⟩
    · have hfits : ¬Item.IsOversizedAttribute (.pair key (.object items)) := by
        simp [Item.IsOversizedAttribute, hkey, hproperty]
      rw [Act.bind_of_ok hread, List.append_cons]
      dsimp only
      rw [Act.result_bind_pure]
      exact (hrest (h.take hfits hitem hget)).map _

/-- A key that cannot be read ends the reading. -/
theorem attributesFrom_oversized {value : Expr} (h : ReadTo seen front) (hkey : key.IsOversized)
    (hname : keyName key = .error tooLarge) :
    AttributesEnd (front ++ .pair key value :: rest.map Prod.snd)
      (attributesFrom entity seen ((previous, .pair key value) :: rest) ()).result := by
  rw [attributesFrom.eq_def]
  dsimp only
  rw [hname]
  refine .oversized ⟨front, .pair key value, rest.map Prod.snd, rfl, h.fits, ?_, ?_⟩
  · cases value with
    | object items => exact .inl hkey
    | _ => exact hkey
  · rw [identities_concat_of_none]
    · exact h.apart
    · cases value <;> simp [Item.attributeName?, hname]

end Steps

/-- **How the reading of attributes ends**, from any item on. -/
theorem attributesFrom_end (entity : Entity) {seen : List (String × String)} {front : List Item}
    (h : ReadTo seen front) (items : List (Option Item × Item)) :
    AttributesEnd (front ++ items.map Prod.snd) (attributesFrom entity seen items ()).result := by
  -- every item that does not end the reading moves to the front, and `ReadTo` with it
  induction items generalizing seen front with
  | nil =>
    rw [List.map_nil, List.append_nil]
    exact .read h.fits h.apart
  | cons x rest ih =>
    obtain ⟨previous, item⟩ := x
    rw [List.map_cons]
    cases item with
    | pair key value =>
      rcases failsIff_keyName key with ⟨hkey, hname⟩ | ⟨hkey, name, hname⟩
      · exact attributesFrom_oversized h hkey hname
      · cases name with
        | none =>
          have hpass : ReadTo seen (front ++ [.pair key value]) := by
            refine h.pass ?_ ?_
            · rw [keyName_ok_none_iff] at hname
              cases value <;> simp [Item.IsOversizedAttribute, Key.IsOversized, hname]
            · cases value <;> simp [Item.attributeName?, hname]
          rw [List.append_cons, attributesFrom.eq_def]
          dsimp only
          rw [hname, Act.ofExcept_ok, Act.pure_bind]
          exact ih hpass
        | some name =>
          cases value with
          | object items => exact attributesFrom_object h hname hkey ih
          | _ =>
            rw [List.append_cons, attributesFrom.eq_def]
            dsimp only
            rw [hname, Act.ofExcept_ok, Act.pure_bind]
            exact ih (h.pass hkey rfl)
    | _ =>
      rw [List.append_cons]
      exact ih (h.pass id rfl)

/-! ### Modules -/

/-- Where the extraction from an object comes to a code that is too large: in the search for the
attributes; among the attributes that are found; or, when those are read without a conflict, among the
functions. -/
inductive Oversized (items : List Item) : Prop
  | search (comes : ComesTo (fun item => ¬item.IsAttributes) Item.HasOversizedKey items)
  | attribute {inner : List Item} (found : AttributesAt items inner) (meets : MeetsOversized inner)
  | function (apart : ∀ inner, AttributesAt items inner → (identities inner).Nodup)
      (mem : ∃ item ∈ items, item.IsOversizedFunction)

/-- A module's text that has an object to extract from, and in it a code that is too large. -/
def OversizedText (text : String) : Prop :=
  ∃ statements items, Script.read text = .ok statements ∧ exports? statements = some items ∧
    Oversized items

/-- The result of reading a module: the code that is too large just if `P` holds, and otherwise no
error but that of a module that is broken or unreadable, or of a conflict in it. -/
def ReadsUnless {α : Type} (P : Prop) (x : Except Error α) : Prop :=
  P ∧ x = .error tooLarge ∨ ¬P ∧ ∀ e, x = .error e → e.family = .structural ∨ e.family = .load

/-- When the attributes, if there are any, have been read, the functions decide. -/
theorem oversized_iff_function {items : List Item}
    (hsearch : ¬ComesTo (fun item => ¬item.IsAttributes) Item.HasOversizedKey items)
    (hread : ∀ inner, AttributesAt items inner →
      (∀ item ∈ inner, ¬item.IsOversizedAttribute) ∧ (identities inner).Nodup) :
    Oversized items ↔ ∃ item ∈ items, item.IsOversizedFunction := by
  constructor
  · rintro (comes | ⟨found, meets⟩ | ⟨_, mem⟩)
    · exact absurd comes hsearch
    · obtain ⟨item, hitem, hoversized⟩ := meets.exists_mem
      exact absurd hoversized ((hread _ found).1 item hitem)
    · exact mem
  · exact .function fun inner found => (hread inner found).2

theorem map_snd_withPrevious (previous : Option Item) (items : List Item) :
    (withPrevious previous items).map Prod.snd = items := by
  induction items generalizing previous with
  | nil => rfl
  | cons item items ih => rw [withPrevious, List.map_cons, ih]

theorem ReadsUnless.congr {α : Type} {P Q : Prop} {x : Except Error α} (h : ReadsUnless P x)
    (hPQ : P ↔ Q) : ReadsUnless Q x := by
  rwa [ReadsUnless, ← hPQ]

theorem readsUnless_of_failsIff {α : Type} {P : Prop} {x : Except Error α}
    (h : FailsIff tooLarge P x) : ReadsUnless P x := by
  rcases h with ⟨hP, hx⟩ | ⟨hP, a, hx⟩
  · exact .inl ⟨hP, hx⟩
  · refine .inr ⟨hP, fun e he => ?_⟩
    rw [hx] at he
    cases he

end Extraction

namespace Entity

open Extraction

theorem fill_readsUnless (entity : Entity) (statements : List Script.Statement) :
    ReadsUnless (∃ items, exports? statements = some items ∧ Oversized items)
      (entity.fill statements ()).result := by
  unfold fill
  cases hexports : exports? statements with
  | none => exact .inr ⟨by simp, by rintro _ ⟨⟩⟩
  | some items =>
    simp only [Option.some.injEq, exists_eq_left']
    have hfunctions := failsIff_functionsFrom entity (withPrevious none items)
    rw [map_snd_withPrevious] at hfunctions
    rcases failsIff_attributesObject entity items with ⟨hcomes, hobject⟩ | ⟨hcomes, object, hobject⟩
    · rw [Act.bind_of_error hobject]
      exact .inl ⟨.search hcomes, rfl⟩
    · have hat : ∀ inner, AttributesAt items inner ↔ object = some inner := by
        intro inner
        rw [← attributesObject_ok_some_iff entity, hobject, Except.ok.injEq]
      rw [Act.bind_of_ok hobject]
      cases object with
      | none =>
        -- there are no attributes, so only the functions are left
        refine (readsUnless_of_failsIff (hfunctions.bind_pure _)).congr
          (oversized_iff_function hcomes fun inner found => ?_).symm
        cases (hat inner).mp found
      | some inner =>
        have hend := attributesFrom_end entity readTo_nil (withPrevious none inner)
        rw [List.nil_append, map_snd_withPrevious] at hend
        dsimp only
        generalize hread : (attributesFrom entity [] (withPrevious none inner) ()).result = result
          at hend
        cases hend with
        | oversized meets =>
          rw [Act.bind_of_error hread]
          exact .inl ⟨.attribute ((hat inner).mpr rfl) meets, rfl⟩
        | conflict meets structural =>
          rw [Act.bind_of_error hread]
          refine .inr ⟨?_, fun e he => .inl (Except.error.inj he ▸ structural)⟩
          rintro (comes | ⟨found, meets'⟩ | ⟨apart, _⟩)
          · exact hcomes comes
          · obtain rfl := Option.some.inj ((hat _).mp found)
            exact meets.not_meetsOversized meets'
          · exact meets.not_nodup (apart inner ((hat inner).mpr rfl))
        | read fits apart =>
          rw [Act.bind_of_ok hread]
          refine (readsUnless_of_failsIff (hfunctions.bind_pure _)).congr
            (oversized_iff_function hcomes fun inner' found => ?_).symm
          obtain rfl := Option.some.inj ((hat inner').mp found)
          exact ⟨fits, apart⟩

theorem ofSource_readsUnless (name filename : String) (kind : EntityKind) (owner text : String) :
    ReadsUnless (OversizedText text) (ofSource name filename kind owner text ()).result := by
  unfold ofSource OversizedText
  cases Script.read text with
  | error line =>
    refine .inr ⟨by simp, fun e he => ?_⟩
    rw [← Except.error.inj he]
    exact .inr rfl
  | ok statements =>
    refine (fill_readsUnless _ statements).congr ?_
    simp

end Entity

end Rigging
