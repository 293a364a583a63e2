import Rigging.Proofs.Entity.Extract

/-!
# The attributes of a module

What the attributes of a module are, without the order in which they are read.  A member of the object
with the attributes gives an attribute (`attribute?`) if its key has a name and its value is an object;
the properties of the attribute are the last literal values under their keys (`lastValues`), and every
literal behind another one of the same key is reported (`repeats`).  `attributesFrom_conflict_iff` says
that the extraction gives all these attributes, unless two of them have names that are equal but for
case.

Two loops stand behind this.  For the inner one, `propertiesFrom_eq` adds the literals of the items to
those in front.  For the outer one, a member either moves to the front (`attributesFrom_step`) or ends
the reading (`attributesFrom_stop`).
-/

namespace Rigging

/-- The items that stand behind an equal one, in order. -/
def repeats {α : Type} [BEq α] (xs : List α) : List α :=
  (List.range xs.length).filterMap fun i => xs[i]?.filter (xs.take i).contains

theorem repeats_concat {α : Type} [BEq α] (xs : List α) (x : α) :
    repeats (xs ++ [x]) = repeats xs ++ if xs.contains x then [x] else [] := by
  have hfront : ∀ i ∈ List.range xs.length,
      (xs ++ [x])[i]?.filter ((xs ++ [x]).take i).contains = xs[i]?.filter (xs.take i).contains := by
    intro i hi
    have hlt := List.mem_range.mp hi
    rw [List.getElem?_append_left hlt, List.take_append_of_le_length (Nat.le_of_lt hlt)]
  rw [repeats, List.length_append, List.length_singleton, List.range_succ, List.filterMap_append,
    List.filterMap_congr hfront]
  refine congrArg (repeats xs ++ ·) ?_
  by_cases hx : xs.contains x = true
  · simp [Option.filter_some, hx]
  · simp [Option.filter_some, hx]

namespace Script

open Extraction

instance : DecidablePred Piece.IsOversized
  | .text _ => isFalse id
  | .escape body =>
    decidable_of_iff ((escapeCode? body).any fun code => largestCode < code)
      (by simp [Piece.IsOversized, Option.any_eq_true])

namespace Item

/-- The literal that a property gives: its key, and its value. -/
def literal? : Item → Option (String × Scalar)
  | .pair key value =>
    match keyName key, literalValue value with
    | .ok (some name), .ok (some literal) => some (name, literal)
    | _, _ => none
  | _ => none

end Item

end Script

namespace Extraction

open Script (Expr Item Key Piece)

/-- The literals among the properties of an attribute, in order and with repetitions. -/
def literals (items : List Item) : List (String × Scalar) :=
  items.filterMap Item.literal?

/-- The last value of every key, in the order in which the keys first come. -/
def lastValues (pairs : List (String × Scalar)) : Properties :=
  (distinct (Assoc.keys pairs)).filterMap fun key =>
    (Assoc.get? key pairs.reverse).map fun value => (key, value)

theorem ofPairs_eq_lastValues (pairs : List (String × Scalar)) :
    Assoc.ofPairs pairs = lastValues pairs := by
  have hkeys := Assoc.keys_ofPairs pairs
  have hnodup : (Assoc.keys (Assoc.ofPairs pairs)).Nodup := by
    rw [hkeys]
    exact nodup_distinct _
  rw [Assoc.eq_filterMap_keys hnodup, hkeys]
  simp only [Assoc.get?_ofPairs]
  rfl

theorem literal?_pair_eq_some {key : Key} {value : Expr} {name : String} {literal : Scalar} :
    Item.literal? (.pair key value) = some (name, literal) ↔
      keyName key = .ok (some name) ∧ literalValue value = .ok (some literal) := by
  dsimp only [Item.literal?]
  split <;> simp_all

section Properties

variable {entity : Entity} {attr : String} {found : Properties} {item : Item} {rest : List Item}

/-- What is no literal is passed over in silence. -/
theorem propertiesFrom_pass (hfits : ¬item.IsOversizedProperty) (hitem : item.literal? = none) :
    propertiesFrom entity attr found (item :: rest) () =
      propertiesFrom entity attr found rest () := by
  cases item with
  | pair key value =>
    rcases failsIff_keyName key with ⟨hkey, _⟩ | ⟨_, name, hname⟩
    · exact absurd (.inl hkey) hfits
    · rw [propertiesFrom.eq_def]
      dsimp only
      rw [hname, Act.ofExcept_ok, Act.pure_bind]
      cases name with
      | none => rfl
      | some name =>
        rcases failsIff_literalValue value with ⟨hvalue, _⟩ | ⟨_, literal, hliteral⟩
        · exact absurd (.inr ⟨ne_other_of_keyName hname, hvalue⟩) hfits
        · dsimp only
          rw [hliteral, Act.ofExcept_ok, Act.pure_bind]
          cases literal with
          | none => rfl
          | some literal => simp [Item.literal?, hname, hliteral] at hitem
  | _ => rfl

/-- A literal is put under its key, with a notice if the key is there. -/
theorem propertiesFrom_take {key : String} {value : Scalar} (hitem : item.literal? = some (key, value)) :
    propertiesFrom entity attr found (item :: rest) () =
      let next := propertiesFrom entity attr (Assoc.put key value found) rest ()
      ⟨next.result, (), (if (Assoc.get? key found).isSome then
        [.duplicateProperty key attr entity.describe] else []) ++ next.notices⟩ := by
  cases item with
  | pair k v =>
    obtain ⟨hname, hliteral⟩ := literal?_pair_eq_some.mp hitem
    rw [propertiesFrom.eq_def]
    dsimp only
    rw [hname, Act.ofExcept_ok, Act.pure_bind]
    dsimp only
    rw [hliteral, Act.ofExcept_ok, Act.pure_bind]
    dsimp only
    split <;> rfl
  | _ => cases hitem

/-- **The properties of an attribute**: all literals, of those in front of the items and of the items,
with a notice for each that repeats a key. -/
theorem propertiesFrom_eq (entity : Entity) (attr : String) (front : List (String × Scalar))
    {items : List Item} (hfits : ∀ item ∈ items, ¬item.IsOversizedProperty) :
    ∃ more, propertiesFrom entity attr (Assoc.ofPairs front) items () =
        ⟨.ok (Assoc.ofPairs (front ++ literals items)), (),
          more.map fun key => .duplicateProperty key attr entity.describe⟩ ∧
      repeats (Assoc.keys front) ++ more = repeats (Assoc.keys (front ++ literals items)) := by
  induction items generalizing front with
  | nil => exact ⟨[], by simp [propertiesFrom, literals], by simp [literals]⟩
  | cons item rest ih =>
    obtain ⟨hitem, hrest⟩ := List.forall_mem_cons.mp hfits
    cases hliteral : item.literal? with
    | none =>
      have hsame : literals (item :: rest) = literals rest := by simp [literals, hliteral]
      rw [propertiesFrom_pass hitem hliteral, hsame]
      exact ih front hrest
    | some p =>
      obtain ⟨key, value⟩ := p
      have hmore : front ++ literals (item :: rest) = (front ++ [(key, value)]) ++ literals rest := by
        simp [literals, hliteral]
      have hkeys : Assoc.keys (front ++ [(key, value)]) = Assoc.keys front ++ [key] := by
        simp [Assoc.keys]
      obtain ⟨more, hnext, hrepeats⟩ := ih (front ++ [(key, value)]) hrest
      rw [Assoc.ofPairs_concat] at hnext
      rw [hkeys, repeats_concat, List.append_assoc] at hrepeats
      refine ⟨(if (Assoc.keys front).contains key then [key] else []) ++ more, ?_, ?_⟩
      · have hthere : (Assoc.get? key (Assoc.ofPairs front)).isSome = true ↔ key ∈ Assoc.keys front := by
          rw [← mem_distinct, ← Assoc.keys_ofPairs, ← not_iff_not, Bool.not_eq_true,
            Option.isSome_eq_false_iff, Option.isNone_iff_eq_none, Assoc.get?_eq_none_iff]
        rw [propertiesFrom_take hliteral, hnext, hmore]
        by_cases hmem : key ∈ Assoc.keys front
        · simp [hthere, hmem]
        · simp [hthere, hmem]
      · rw [hmore]
        exact hrepeats

end Properties

/-! ### Attributes -/

/-- The attribute that a member gives: its name, the last values of its properties, and the doc comment
in front of it. -/
def attribute? (previous : Option Item) (item : Item) : Option Attribute :=
  match item.attributeName?, item.object? with
  | some name, some items => some ⟨name, lastValues (literals items), leadingDoc previous⟩
  | _, _ => none

/-- What is reported about a member: a property that repeats a key of the attribute, or that it is not
an attribute though it has a name. -/
def complaints (entity : Entity) : Item → List Notice
  | .pair key value =>
    match keyName key, value with
    | .ok (some name), .object items =>
      (repeats (Assoc.keys (literals items))).map fun k => .duplicateProperty k name entity.describe
    | .ok (some name), _ => [.attributeNotObject name entity.describe value.kind]
    | _, _ => []
  | _ => []

/-- The names of the attributes among items, as they are looked up: the last one first. -/
def seenNames (items : List Item) : List (String × String) :=
  ((items.filterMap Item.attributeName?).map fun name => (Text.lower name, name)).reverse

section Attributes

variable {entity : Entity} {seen : List (String × String)} {previous : Option Item} {item : Item}
  {rest : List (Option Item × Item)} {name : String}

/-- An attribute is a pair with an object. -/
theorem exists_of_attributeName? (hitem : item.attributeName? = some name) :
    ∃ key items, item = .pair key (.object items) ∧ keyName key = .ok (some name) := by
  cases item with
  | pair key value =>
    cases value with
    | object items =>
      refine ⟨key, items, rfl, ?_⟩
      cases hname : keyName key with
      | error e => simp [Item.attributeName?, hname] at hitem
      | ok found =>
        rw [Item.attributeName?, hname] at hitem
        exact congrArg Except.ok hitem
    | _ => cases hitem
  | _ => cases hitem

/-- What is no attribute is passed over. -/
theorem attributesFrom_pass (hfits : ¬item.IsOversizedAttribute) (hitem : item.attributeName? = none) :
    attributesFrom entity seen ((previous, item) :: rest) () =
      let next := attributesFrom entity seen rest ()
      ⟨next.result, (), complaints entity item ++ next.notices⟩ := by
  cases item with
  | pair key value =>
    have hkey : ¬key.IsOversized := by
      intro hkey
      cases value with
      | object items => exact hfits (.inl hkey)
      | _ => exact hfits hkey
    obtain ⟨found, hname⟩ : ∃ found, keyName key = .ok found := by
      rcases failsIff_keyName key with ⟨h, _⟩ | ⟨_, h⟩
      · exact absurd h hkey
      · exact h
    rw [attributesFrom.eq_def]
    dsimp only
    rw [hname, Act.ofExcept_ok, Act.pure_bind]
    cases found with
    | none => simp [complaints, hname]
    | some name =>
      cases value with
      | object items => simp [Item.attributeName?, hname] at hitem
      | _ => simp [complaints, hname]
  | _ => rfl

/-- An attribute whose name is taken ends the reading. -/
theorem attributesFrom_taken {other : String} (hitem : item.attributeName? = some name)
    (hseen : Assoc.get? (Text.lower name) seen = some other) :
    attributesFrom entity seen ((previous, item) :: rest) () =
      ⟨.error (.attributeConflict entity.describe entity.owner name other), (), []⟩ := by
  obtain ⟨key, items, rfl, hname⟩ := exists_of_attributeName? hitem
  rw [attributesFrom.eq_def]
  dsimp only
  rw [hname, Act.ofExcept_ok, Act.pure_bind]
  dsimp only
  rw [hseen]
  rfl

/-- An attribute whose name is free is read, and takes the name. -/
theorem attributesFrom_free (entity : Entity) (previous : Option Item)
    (rest : List (Option Item × Item)) (hfits : ¬item.IsOversizedAttribute)
    (hitem : item.attributeName? = some name) (hseen : Assoc.get? (Text.lower name) seen = none) :
    ∃ a, attribute? previous item = some a ∧
      attributesFrom entity seen ((previous, item) :: rest) () =
        let next := attributesFrom entity ((Text.lower name, name) :: seen) rest ()
        ⟨next.result.map (a :: ·), (), complaints entity item ++ next.notices⟩ := by
  obtain ⟨key, items, rfl, hname⟩ := exists_of_attributeName? hitem
  have hproperties : ∀ x ∈ items, ¬x.IsOversizedProperty := by
    intro x hx hoversized
    exact hfits (.inr ⟨ne_other_of_keyName hname, x, hx, hoversized⟩)
  obtain ⟨more, hread, hmore⟩ := propertiesFrom_eq entity name [] hproperties
  have hok : (propertiesFrom entity name [] items ()).result = .ok (lastValues (literals items)) := by
    rw [← ofPairs_eq_lastValues]
    exact congrArg Outcome.result hread
  have hnotices : (propertiesFrom entity name [] items ()).notices =
      complaints entity (.pair key (.object items)) := by
    have hrepeats : more = repeats (Assoc.keys (literals items)) := hmore
    simp only [complaints, hname, ← hrepeats]
    exact congrArg Outcome.notices hread
  refine ⟨_, by rw [attribute?, hitem]; rfl, ?_⟩
  rw [attributesFrom.eq_def]
  dsimp only
  rw [hname, Act.ofExcept_ok, Act.pure_bind]
  dsimp only
  rw [hseen]
  dsimp only
  rw [Act.bind_of_ok hok, Act.result_bind_pure, Act.notices_bind_pure, hnotices]

theorem seenNames_concat_of_none {front : List Item} (hitem : item.attributeName? = none) :
    seenNames (front ++ [item]) = seenNames front := by
  simp [seenNames, hitem]

theorem seenNames_concat_of_some {front : List Item} (hitem : item.attributeName? = some name) :
    seenNames (front ++ [item]) = (Text.lower name, name) :: seenNames front := by
  simp [seenNames, hitem]

theorem keys_seenNames (items : List Item) : Assoc.keys (seenNames items) = (identities items).reverse := by
  simp [seenNames, identities, Assoc.keys]

/-- The identity of a member is free if it is not one of those in front. -/
theorem get?_seenNames_eq_none_iff {front : List Item} (hfront : (identities front).Nodup)
    (hitem : item.attributeName? = some name) :
    Assoc.get? (Text.lower name) (seenNames front) = none ↔ (identities (front ++ [item])).Nodup := by
  rw [Assoc.get?_eq_none_iff, keys_seenNames, List.mem_reverse, identities_concat_of_some hitem,
    List.nodup_append_comm, List.singleton_append, List.nodup_cons, and_iff_left hfront]

/-- **One member**: where its identity is not taken, its attribute, if it gives one, comes first. -/
theorem attributesFrom_step {front : List Item} (hfits : ¬item.IsOversizedAttribute)
    (hnext : (identities (front ++ [item])).Nodup) :
    attributesFrom entity (seenNames front) ((previous, item) :: rest) () =
      let next := attributesFrom entity (seenNames (front ++ [item])) rest ()
      ⟨next.result.map ((attribute? previous item).toList ++ ·), (),
        complaints entity item ++ next.notices⟩ := by
  cases hname : item.attributeName? with
  | none =>
    have hnone : attribute? previous item = none := by simp [attribute?, hname]
    have hsame : ∀ result : Except Error (List Attribute), result.map ([] ++ ·) = result := by
      intro result
      cases result <;> rfl
    rw [attributesFrom_pass hfits hname, seenNames_concat_of_none hname, hnone, Option.toList_none]
    dsimp only
    rw [hsame]
  | some name =>
    have hfront : (identities front).Nodup := by
      rw [identities_append] at hnext
      exact hnext.of_append_left
    obtain ⟨a, ha, hfree⟩ := attributesFrom_free entity previous rest hfits hname
      ((get?_seenNames_eq_none_iff hfront hname).mpr hnext)
    rw [hfree, seenNames_concat_of_some hname, ha]
    rfl

/-- A member whose identity is taken: the members in front of it have different identities, and `other`
is the one among their names that has the identity of its own name. -/
structure IsTaken (front : List Item) (item : Item) (name other : String) : Prop where
  apart : (identities front).Nodup
  named : item.attributeName? = some name
  mem : other ∈ front.filterMap Item.attributeName?
  same : Text.lower other = Text.lower name

theorem IsTaken.not_nodup {front : List Item} {other : String} (h : IsTaken front item name other)
    (back : List Item) : ¬(identities (front ++ item :: back)).Nodup := by
  intro hnodup
  rw [List.append_cons, identities_append] at hnodup
  have hnext := hnodup.of_append_left
  rw [identities_concat_of_some h.named, ← h.same, List.nodup_append'] at hnext
  exact hnext.2.2 (List.mem_map_of_mem h.mem) List.mem_cons_self

/-- A member whose identity is taken ends the reading. -/
theorem attributesFrom_stop (entity : Entity) (previous : Option Item)
    (rest : List (Option Item × Item)) {front : List Item} (hfront : (identities front).Nodup)
    (hnext : ¬(identities (front ++ [item])).Nodup) :
    ∃ name other, IsTaken front item name other ∧
      attributesFrom entity (seenNames front) ((previous, item) :: rest) () =
        ⟨.error (.attributeConflict entity.describe entity.owner name other), (), []⟩ := by
  cases hname : item.attributeName? with
  | none =>
    rw [identities_concat_of_none hname] at hnext
    exact absurd hfront hnext
  | some name =>
    rw [← get?_seenNames_eq_none_iff hfront hname] at hnext
    obtain ⟨other, hother⟩ := Option.ne_none_iff_exists'.mp hnext
    have hmem := Assoc.mem_of_get?_eq_some hother
    rw [seenNames, List.mem_reverse, List.mem_map] at hmem
    obtain ⟨found, hfound, hpair⟩ := hmem
    obtain ⟨hlower, rfl⟩ := Prod.mk.inj hpair
    exact ⟨name, found, ⟨hfront, hname, hfound, hlower⟩, attributesFrom_taken hname hother⟩

end Attributes

/-- **The attributes of members**, from any member on: those of all members if their identities are
different, and otherwise a conflict at the first one whose identity is taken. -/
theorem attributesFrom_eq (entity : Entity) (front : List Item) (rest : List (Option Item × Item))
    (hfits : ∀ item ∈ rest.map Prod.snd, ¬item.IsOversizedAttribute) (hfront : (identities front).Nodup) :
    (identities (front ++ rest.map Prod.snd)).Nodup ∧
        attributesFrom entity (seenNames front) rest () =
          ⟨.ok (rest.filterMap fun x => attribute? x.1 x.2), (),
            (rest.map Prod.snd).flatMap (complaints entity)⟩ ∨
      ∃ mid item back name other, rest.map Prod.snd = mid ++ item :: back ∧
        IsTaken (front ++ mid) item name other ∧
        attributesFrom entity (seenNames front) rest () =
          ⟨.error (.attributeConflict entity.describe entity.owner name other), (),
            mid.flatMap (complaints entity)⟩ := by
  -- a member that does not end the reading moves to the front
  induction rest generalizing front with
  | nil => exact .inl ⟨by simpa using hfront, rfl⟩
  | cons x rest ih =>
    obtain ⟨previous, item⟩ := x
    obtain ⟨hitem, hrest⟩ := List.forall_mem_cons.mp hfits
    rw [List.map_cons]
    by_cases hnext : (identities (front ++ [item])).Nodup
    · rw [attributesFrom_step hitem hnext]
      rcases ih _ hrest hnext with ⟨hnodup, hread⟩ | ⟨mid, last, back, name, other, hmid, htaken, hread⟩
      · refine .inl ⟨by rwa [List.append_cons], ?_⟩
        rw [hread, List.filterMap_cons, List.flatMap_cons]
        cases attribute? previous item <;> rfl
      · refine .inr ⟨item :: mid, last, back, name, other, by rw [hmid]; rfl, ?_, ?_⟩
        · rwa [List.append_cons]
        · rw [hread, List.flatMap_cons]
          rfl
    · obtain ⟨name, other, htaken, hread⟩ := attributesFrom_stop entity previous rest hfront hnext
      exact .inr ⟨[], item, rest.map Prod.snd, name, other, rfl, by rwa [List.append_nil], hread⟩

/-- **What is extracted as attributes.**  An attribute is a pair with a name or string as key and an
object as value.  Where no string holds a code that is too large, the extraction is a conflict just if
two attributes have the same name but for case; the error names the first attribute whose identity is
taken, and the one that took it.  Otherwise every attribute is given, in order, with the last literal
value of each of its properties, and each literal that repeats a key of its attribute is reported. -/
theorem attributesFrom_conflict_iff (entity : Entity) {items : List Item}
    (hfits : ∀ item ∈ items, ¬item.IsOversizedAttribute) :
    let outcome := attributesFrom entity [] (withPrevious none items) ()
    ((∃ e, outcome.result = .error e ∧ e.family = .structural) ↔ ¬(identities items).Nodup) ∧
      (∀ e, outcome.result = .error e → ∃ front item back name other,
        items = front ++ item :: back ∧ IsTaken front item name other ∧
          e = .attributeConflict entity.describe entity.owner name other) ∧
      ((identities items).Nodup → outcome =
        ⟨.ok ((withPrevious none items).filterMap fun x => attribute? x.1 x.2), (),
          items.flatMap (complaints entity)⟩) := by
  have hread := attributesFrom_eq entity [] (withPrevious none items)
    (by rwa [map_snd_withPrevious]) List.nodup_nil
  rw [map_snd_withPrevious] at hread
  dsimp only
  rcases hread with ⟨hnodup, hread⟩ | ⟨front, item, back, name, other, hsplit, htaken, hread⟩
  · rw [show ([] : List (String × String)) = seenNames [] from rfl, hread]
    refine ⟨iff_of_false ?_ (not_not.mpr hnodup), ?_, fun _ => rfl⟩
    · rintro ⟨e, he, _⟩
      cases he
    · rintro e ⟨⟩
  · have hclash : ¬(identities items).Nodup := hsplit ▸ htaken.not_nodup back
    rw [show ([] : List (String × String)) = seenNames [] from rfl, hread]
    refine ⟨iff_of_true ⟨_, rfl, rfl⟩ hclash, ?_, fun hnodup => absurd hnodup hclash⟩
    intro e he
    exact ⟨front, item, back, name, other, hsplit, htaken, (Except.error.inj he).symm⟩

/-- Members of an object: an attribute with a property that comes twice, something that is no attribute,
and an attribute without properties. -/
def petMembers : List Item :=
  [.pair (.name "name") (.object
      [.pair (.name "type") (.string [.text "number"]), .shorthand "columnName",
        .pair (.string [.text "type"]) (.string [.text "st", .escape "x72", .text "ing"])]),
    .spread, .pair (.name "age") (.number "3"), .pair (.string [.text "kennel"]) (.object [])]

/-- There is no conflict among these members, and two of them are attributes. -/
theorem attributesFrom_conflict_iff_petMembers :
    (∀ item ∈ petMembers, ¬item.IsOversizedAttribute) ∧ (identities petMembers).Nodup ∧
      attributesFrom (.blank "Pet" "Pet.js" .model "pets") [] (withPrevious none petMembers) () =
        ⟨.ok [⟨"name", [("type", .string "string")], none⟩, ⟨"kennel", [], none⟩], (),
          [.duplicateProperty "type" "name" "Pet (\"Pet.js\")",
            .attributeNotObject "age" "Pet (\"Pet.js\")" .number]⟩ := by
  have hcode : ¬Piece.IsOversized (.escape "x72") := by decide
  have htext : ∀ text, ¬Piece.IsOversized (.text text) := fun _ => id
  have hfits : ∀ item ∈ petMembers, ¬item.IsOversizedAttribute := by
    simp [petMembers, Item.IsOversizedAttribute, Item.IsOversizedProperty, Key.IsOversized,
      Expr.IsOversized, hcode, htext]
  have hnodup : (identities petMembers).Nodup := by decide +kernel
  have hattributes : (withPrevious none petMembers).filterMap (fun x => attribute? x.1 x.2) =
      [⟨"name", [("type", .string "string")], none⟩, ⟨"kennel", [], none⟩] := by decide
  have hnotices : petMembers.flatMap (complaints (.blank "Pet" "Pet.js" .model "pets")) =
      [.duplicateProperty "type" "name" "Pet (\"Pet.js\")",
        .attributeNotObject "age" "Pet (\"Pet.js\")" .number] := by decide
  refine ⟨hfits, hnodup, ?_⟩
  rw [(attributesFrom_conflict_iff (.blank "Pet" "Pet.js" .model "pets") hfits).2.2 hnodup,
    hattributes, hnotices]

end Extraction

end Rigging
