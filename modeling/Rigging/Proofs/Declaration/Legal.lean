import Rigging.Proofs.Declaration.Names
import Rigging.Proofs.Entity.Lexical

/-!
# Names that can be written

A member of a class needs a name that can stand there: an identifier, or a string in quotes
(`Alphabet.IsLegal`).  The names of members are written as they are, so the keys of a module decide.  A
key that is a word of plain characters is an identifier.  Nothing makes sure of that for any other key,
above all for a string, and `memberNames_legal_iff` says that just these keys count.

Which characters beyond ASCII are letters depends on the version of Unicode.  An `Alphabet` is any answer
to that, and all statements hold for every one.
-/

namespace Rigging

namespace Declaration

/-! ### Identifiers and strings -/

/-- The plain characters that an identifier can start with. -/
def isPlainStart (c : Char) : Bool :=
  ('a' ≤ c && c ≤ 'z') || ('A' ≤ c && c ≤ 'Z') || c == '$' || c == '_'

/-- The plain characters that an identifier can have behind its start. -/
def isPlainPart (c : Char) : Bool :=
  isPlainStart c || ('0' ≤ c && c ≤ '9')

/-- The characters of identifiers.  Only those of ASCII are fixed. -/
structure Alphabet where
  start : Char → Bool
  part : Char → Bool
  start_plain : ∀ c, c.toNat < 0x80 → start c = isPlainStart c
  part_plain : ∀ c, c.toNat < 0x80 → part c = isPlainPart c

/-- The alphabet with no letters beyond ASCII. -/
instance : Inhabited Alphabet := ⟨isPlainStart, isPlainPart, fun _ _ => rfl, fun _ _ => rfl⟩

/-- A code escape behind its backslash, and the character that it names. -/
inductive Coded : List Char → Char → Prop
  | four {digits : List Char} (hhex : ∀ d ∈ digits, Script.isHex d = true) (hlength : digits.length = 4) :
      Coded ('u' :: digits)
        (Char.ofNat (Number.ofDigits 16 (digits.filterMap Number.digitValue?)))
  | braced {digits : List Char} (hhex : ∀ d ∈ digits, Script.isHex d = true) (hne : digits ≠ [])
      (hmax : Number.ofDigits 16 (digits.filterMap Number.digitValue?) ≤ 0x10FFFF) :
      Coded ('u' :: '{' :: digits ++ ['}'])
        (Char.ofNat (Number.ofDigits 16 (digits.filterMap Number.digitValue?)))

/-- A spelling of characters: each stands for itself, or its code does. -/
inductive Spells : List Char → List Char → Prop
  | nil : Spells [] []
  | char (c : Char) {text cs : List Char} (rest : Spells text cs) : Spells (c :: text) (c :: cs)
  | code {body text cs : List Char} {c : Char} (coded : Coded body c) (rest : Spells text cs) :
      Spells ('\\' :: body ++ text) (c :: cs)

/-- What follows the quote at the start of a string. -/
inductive QuotedRest (quote : Char) : List Char → Prop
  | close : QuotedRest quote [quote]
  | char {c : Char} {cs : List Char} (hquote : c ≠ quote) (hescape : c ≠ '\\')
      (hline : c ≠ '\n' ∧ c ≠ '\r') (rest : QuotedRest quote cs) : QuotedRest quote (c :: cs)
  | escape {c : Char} {cs : List Char} (hcode : c ≠ 'u' ∧ c ≠ 'x') (rest : QuotedRest quote cs) :
      QuotedRest quote ('\\' :: c :: cs)
  | lineEnd {cs : List Char} (rest : QuotedRest quote cs) : QuotedRest quote ('\\' :: '\r' :: '\n' :: cs)
  | byte {a b : Char} {cs : List Char} (hhex : Script.isHex a = true ∧ Script.isHex b = true)
      (rest : QuotedRest quote cs) : QuotedRest quote ('\\' :: 'x' :: a :: b :: cs)
  | code {body cs : List Char} {c : Char} (coded : Coded body c) (rest : QuotedRest quote cs) :
      QuotedRest quote ('\\' :: body ++ cs)

/-- A string in quotes. -/
def IsQuoted (text : String) : Prop :=
  ∃ quote cs, (quote = '"' ∨ quote = '\'') ∧ text.toList = quote :: cs ∧ QuotedRest quote cs

namespace Alphabet

variable (A : Alphabet)

/-- An identifier over an alphabet. -/
def IsIdentifier (text : String) : Prop :=
  ∃ c cs, Spells text.toList (c :: cs) ∧ A.start c = true ∧ ∀ d ∈ cs, A.part d = true

/-- A name that a member can have: an identifier, or a string in quotes. -/
def IsLegal (text : String) : Prop :=
  A.IsIdentifier text ∨ IsQuoted text

end Alphabet

theorem spells_self (cs : List Char) : Spells cs cs := by
  induction cs with
  | nil => exact .nil
  | cons c cs ih => exact .char c ih

/-- Without a backslash, a text spells itself only. -/
theorem Spells.eq_of_plain {text cs : List Char} (h : Spells text cs) (hplain : '\\' ∉ text) :
    cs = text := by
  induction h with
  | nil => rfl
  | char c _ ih => rw [ih fun hmem => hplain (List.mem_cons_of_mem c hmem)]
  | code _ _ _ => exact absurd List.mem_cons_self hplain

/-! ### Plain identifiers -/

/-- An identifier of plain characters. -/
def isPlainIdentifier (text : String) : Bool :=
  match text.toList with
  | [] => false
  | c :: cs => isPlainStart c && cs.all isPlainPart

theorem isPlainPart_of_isPlainStart {c : Char} (h : isPlainStart c = true) : isPlainPart c = true := by
  rw [isPlainPart, h, Bool.true_or]

theorem toNat_lt_of_isPlainPart {c : Char} (h : isPlainPart c = true) : c.toNat < 0x80 := by
  have hle : ∀ d : Char, c ≤ d → c.toNat ≤ d.toNat := fun _ hd => hd
  simp only [isPlainPart, isPlainStart, Bool.or_eq_true, Bool.and_eq_true, decide_eq_true_eq,
    beq_iff_eq] at h
  rcases h with (((h | h) | rfl) | rfl) | h
  · exact Nat.lt_of_le_of_lt (hle 'z' h.2) (by decide)
  · exact Nat.lt_of_le_of_lt (hle 'Z' h.2) (by decide)
  · decide
  · decide
  · exact Nat.lt_of_le_of_lt (hle '9' h.2) (by decide)

theorem isIdentifier_of_isPlainIdentifier (A : Alphabet) {text : String}
    (h : isPlainIdentifier text = true) : A.IsIdentifier text := by
  unfold isPlainIdentifier at h
  cases htext : text.toList with
  | nil => simp [htext] at h
  | cons c cs =>
    simp only [htext, Bool.and_eq_true, List.all_eq_true] at h
    refine ⟨c, cs, htext ▸ spells_self _, ?_, fun d hd => ?_⟩
    · rw [A.start_plain c (toNat_lt_of_isPlainPart (isPlainPart_of_isPlainStart h.1))]
      exact h.1
    · rw [A.part_plain d (toNat_lt_of_isPlainPart (h.2 d hd))]
      exact h.2 d hd

/-- The plain characters that can start a word of a script are those that can start an identifier, and
those that can continue one are the same. -/
theorem isPlain_of_isWord {c : Char} (hc : c.toNat < 0x7F) :
    (Script.isWordStart c = true → isPlainStart c = true) ∧
      (Script.isWordStart c = true ∨ c.isDigit = true → isPlainPart c = true) := by
  have hall : ∀ n < 0x7F,
      (Script.isWordStart (Char.ofNat n) = true → isPlainStart (Char.ofNat n) = true) ∧
        (Script.isWordStart (Char.ofNat n) = true ∨ (Char.ofNat n).isDigit = true →
          isPlainPart (Char.ofNat n) = true) := by
    decide
  have hchar := hall c.toNat hc
  rwa [Char.ofNat_toNat] at hchar

/-- **A plain word is an identifier.** -/
theorem isLegal_of_isWord (A : Alphabet) {text : String} (hword : Script.IsWord text)
    (hplain : ∀ c ∈ text.toList, c.toNat < 0x7F ∧ c ≠ '\\') : A.IsLegal text := by
  obtain ⟨c, cs, htext, hstart, htail⟩ := hword.spelling fun hmem => (hplain _ hmem).2 rfl
  rw [htext] at hplain
  obtain ⟨hc, hcs⟩ := List.forall_mem_cons.mp hplain
  refine .inl (isIdentifier_of_isPlainIdentifier A ?_)
  rw [isPlainIdentifier, htext]
  simp only [Bool.and_eq_true, List.all_eq_true]
  exact ⟨(isPlain_of_isWord hc.1).1 hstart,
    fun d hd => (isPlain_of_isWord (hcs d hd).1).2 (htail d hd)⟩

/-- A plain character that is not one of identifiers makes a name illegal, unless it is spelled by its
code or stands in quotes. -/
theorem not_isLegal_of_mem (A : Alphabet) {text : String} {d : Char} (hmem : d ∈ text.toList)
    (hd : d.toNat < 0x80 ∧ isPlainPart d = false) (hplain : '\\' ∉ text.toList)
    (hhead : text.toList.head? ≠ some '"' ∧ text.toList.head? ≠ some '\'') : ¬A.IsLegal text := by
  rintro (⟨c, cs, hspells, hstart, hpart⟩ | ⟨quote, cs, hquote, htext, _⟩)
  · rw [← hspells.eq_of_plain hplain] at hmem
    have hpart' : isPlainPart d = true := by
      rcases List.mem_cons.mp hmem with rfl | hmem
      · rw [A.start_plain d hd.1] at hstart
        exact isPlainPart_of_isPlainStart hstart
      · rw [← A.part_plain d hd.1]
        exact hpart d hmem
    rw [hd.2] at hpart'
    cases hpart'
  · rw [htext, List.head?_cons] at hhead
    rcases hquote with rfl | rfl
    · exact hhead.1 rfl
    · exact hhead.2 rfl

/-! ### The names of an entity -/

/-- All names that the classes of an entity declare. -/
def memberNames (e : Entity) : List String :=
  (if e.isModel then instanceNames e else []) ++ staticNames e

theorem isLegal_of_fixed (A : Alphabet) {name : String}
    (h : name ∈ "id" :: serializationName :: lifecycleHooks) : A.IsLegal name := by
  have hplain : ∀ name ∈ "id" :: serializationName :: lifecycleHooks, isPlainIdentifier name = true := by
    decide
  exact .inl (isIdentifier_of_isPlainIdentifier A (hplain name h))

/-- The names that are not taken from the module are legal, and so are those that are left out. -/
theorem memberNames_legal_iff_names (A : Alphabet) (e : Entity) :
    (∀ name ∈ memberNames e, A.IsLegal name) ↔
      (e.isModel = true → ∀ name ∈ e.attributes.map (·.name), A.IsLegal name) ∧
        ∀ name ∈ e.functions.map (·.name), A.IsLegal name := by
  constructor
  · intro h
    refine ⟨fun hmodel name hname => h name ?_, fun name hname => ?_⟩
    · rw [memberNames, if_pos hmodel, instanceNames]
      exact List.mem_append_left _ (List.mem_append_left _ (List.mem_append_right _ hname))
    · by_cases hhook : name ∈ lifecycleHooks
      · exact isLegal_of_fixed A (List.mem_cons_of_mem _ (List.mem_cons_of_mem _ hhook))
      · refine h name (List.mem_append_right _ (List.mem_filter.mpr ⟨hname, ?_⟩))
        simp [hhook]
  · rintro ⟨hattributes, hfunctions⟩ name hname
    rcases List.mem_append.mp hname with hname | hname
    · split at hname
      · rename_i hmodel
        rcases mem_instanceNames hname with rfl | hname | rfl
        · exact isLegal_of_fixed A List.mem_cons_self
        · exact hattributes hmodel name hname
        · exact isLegal_of_fixed A (List.mem_cons_of_mem _ List.mem_cons_self)
      · cases hname
    · exact hfunctions name (List.mem_of_mem_filter hname)

end Declaration

/-! ### The keys of a module -/

namespace Script

/-- A key that is a word of plain characters. -/
def Key.IsPlainWord : Key → Prop
  | .name text => ∀ c ∈ text.toList, c.toNat < 0x7F ∧ c ≠ '\\'
  | _ => False

namespace Item

theorem Lexical.attributeKey {item : Item} {key : Key} (h : item.Lexical)
    (hkey : item.attributeKey? = some key) : key.Lexical := by
  cases item with
  | pair k value =>
    rw [Lexical] at h
    cases value with
    | object items =>
      cases hkey
      exact h.1
    | _ => cases hkey
  | _ => cases hkey

theorem Lexical.functionKey {item : Item} {key : Key} (h : item.Lexical)
    (hkey : item.functionKey? = some key) : key.Lexical := by
  cases item with
  | method k async params =>
    rw [Lexical] at h
    cases hkey
    exact h.1
  | pair k value =>
    rw [Lexical] at h
    cases value with
    | function kind async params =>
      cases hkey
      exact h.1
    | _ => cases hkey
  | _ => cases hkey

end Item

end Script

namespace Extraction

open Declaration
open Script (Item Key Statement)

/-- What an entity is taken from is spelled as it was read. -/
theorem Extracts.lexical {text : String} {items inner : List Item} {e : Entity}
    (h : Extracts text items inner e) :
    (∀ item ∈ items, item.Lexical) ∧ ∀ item ∈ inner, item.Lexical := by
  have hitems : ∀ item ∈ items, item.Lexical := by
    obtain ⟨statements, hread, rfl⟩ := h.read
    cases hexports : exports? statements with
    | none => exact List.forall_mem_nil _
    | some items => exact lexical_exports? hread hexports
  refine ⟨hitems, ?_⟩
  rcases h.only with rfl | hat
  · exact List.forall_mem_nil _
  · exact hat.lexical hitems

/-- The keys that give names to the members of an entity. -/
def memberKeys (kind : EntityKind) (items inner : List Item) : List Key :=
  (if kind = .model then inner.filterMap Item.attributeKey? else []) ++ items.filterMap Item.functionKey?

/-- A key that is a plain word has a legal name. -/
theorem isLegal_of_isPlainWord (A : Alphabet) {key : Key} {name : String} (hkey : key.Lexical)
    (hplain : key.IsPlainWord) (hname : key.name? = some name) : A.IsLegal name := by
  cases key with
  | name text =>
    cases hname
    exact isLegal_of_isWord A hkey hplain
  | string pieces => cases hplain
  | other => cases hplain

/-- Names behind keys are legal if this holds for the keys that are no plain words. -/
theorem names_legal_iff (A : Alphabet) {items : List Item} {key? : Item → Option Key}
    (hkeys : ∀ item ∈ items, ∀ key, key? item = some key → key.Lexical) :
    (∀ name ∈ items.filterMap (fun item => (key? item).bind Key.name?), A.IsLegal name) ↔
      ∀ key ∈ items.filterMap key?, ∀ name, key.name? = some name →
        key.IsPlainWord ∨ A.IsLegal name := by
  simp only [List.mem_filterMap, Option.bind_eq_some_iff]
  constructor
  · rintro h key ⟨item, hitem, hkey⟩ name hname
    exact .inr (h name ⟨item, hitem, key, hkey, hname⟩)
  · rintro h name ⟨item, hitem, key, hkey, hname⟩
    rcases h key ⟨item, hitem, hkey⟩ name hname with hplain | hlegal
    · exact isLegal_of_isPlainWord A (hkeys item hitem key hkey) hplain hname
    · exact hlegal

end Extraction

namespace Entity

open Declaration Extraction

/-- **When the names of all members are legal.**  An entity that has been read, and perhaps resolved,
can be declared unless one of its associations shows a number that is too long.  Its classes then have
one member for each of its names.  All these names are legal just if every key that is not a word of
plain characters has a legal name. -/
theorem memberNames_legal_iff (A : Alphabet) {name filename owner text : String} {kind : EntityKind}
    {e d : Entity} (hread : (ofSource name filename kind owner text ()).result = .ok e)
    (hprepared : e.Prepared d) :
    (d.declareStandalone.result = .ok () ↔
      (kind = .model → ∀ a ∈ d.attributes, ¬a.ShowsLongNumber)) ∧
    (d.declareStandalone.result = .ok () →
      (kind = .model → ∃ body, d.declareStandalone.state.declarations.instanceClass = some body ∧
        Declared ("export declare abstract class " ++ TypeExpr.instanceName name) (instanceNames d)
          body) ∧
      ∃ header body, d.declareStandalone.state.declarations.staticClass = some body ∧
        Declared header (staticNames d) body) ∧
    ∃ items inner, Extracts text items inner e ∧
      ((∀ n ∈ memberNames d, A.IsLegal n) ↔
        ∀ key ∈ memberKeys kind items inner, ∀ n, key.name? = some n →
          key.IsPlainWord ∨ A.IsLegal n) := by
  obtain ⟨hname, hkind⟩ := hprepared.name_kind hread
  have hmodel : d.isModel = true ↔ kind = .model := by rw [isModel, hkind, beq_iff_eq]
  obtain ⟨items, inner, hextracts⟩ := extracts_ofSource hread
  obtain ⟨hitems, hinner⟩ := hextracts.lexical
  refine ⟨by rw [declareStandalone_ok_iff, hmodel], fun hdeclare => ?_, items, inner, hextracts, ?_⟩
  · obtain ⟨hinstances, hown⟩ := declared_standalone hdeclare
    exact ⟨fun hk => hname ▸ hinstances (hmodel.mpr hk), hown⟩
  · have hattributes := names_legal_iff A fun item hitem _ hkey => (hinner item hitem).attributeKey hkey
    have hfunctions := names_legal_iff A fun item hitem _ hkey => (hitems item hitem).functionKey hkey
    have hnames : e.attributes.map (·.name) =
        inner.filterMap fun item => item.attributeKey?.bind Script.Key.name? := by
      rw [hextracts.attributes, funext Script.Item.attributeName?_eq]
    rw [memberNames_legal_iff_names, hprepared.attributeNames, hprepared.functionNames, hnames,
      hextracts.functions, hmodel, memberKeys]
    simp only [List.forall_mem_append]
    refine and_congr ?_ hfunctions
    by_cases hk : kind = .model
    · rw [if_pos hk, hattributes]
      exact ⟨fun h => h hk, fun h _ => h⟩
    · rw [if_neg hk]
      exact iff_of_true (fun h => absurd h hk) (List.forall_mem_nil _)

/-- A model with one attribute under a key that is a string. -/
def quotedText (key : String) : String :=
  "module.exports = \x7b attributes: \x7b '" ++ key ++ "': \x7b type: 'string' \x7d \x7d \x7d;"

/-- The entity of that text. -/
def quoted (key : String) : Entity :=
  { blank "Pet" "api/models/Pet.js" .model rootOwner with
    attributes := [⟨key, [("type", .string "string")], none⟩] }

/-- Where the string is an identifier, all names are legal. -/
theorem memberNames_legal_iff_kennel :
    (ofSource "Pet" "api/models/Pet.js" .model rootOwner (quotedText "kennel") ()).result =
        .ok (quoted "kennel") ∧
      (resolve [] (quoted "kennel")).result = .ok () ∧
      ∀ A : Alphabet, (∀ n ∈ memberNames (resolve [] (quoted "kennel")).state, A.IsLegal n) ∧
        ∃ items inner, Extracts (quotedText "kennel") items inner (quoted "kennel") ∧
          ∀ key ∈ memberKeys .model items inner, ∀ n, key.name? = some n →
            key.IsPlainWord ∨ A.IsLegal n := by
  have hread : (ofSource "Pet" "api/models/Pet.js" .model rootOwner (quotedText "kennel") ()).result =
      .ok (quoted "kennel") := by
    decide +kernel
  have hresolve : (resolve [] (quoted "kennel")).result = .ok () := by decide
  have hplain : ∀ n ∈ memberNames (resolve [] (quoted "kennel")).state, isPlainIdentifier n = true := by
    decide
  refine ⟨hread, hresolve, fun A => ?_⟩
  have hlegal : ∀ n ∈ memberNames (resolve [] (quoted "kennel")).state, A.IsLegal n :=
    fun n hn => .inl (isIdentifier_of_isPlainIdentifier A (hplain n hn))
  obtain ⟨_, _, items, inner, hextracts, hiff⟩ :=
    memberNames_legal_iff A hread (.resolved hresolve)
  exact ⟨hlegal, items, inner, hextracts, hiff.mp hlegal⟩

/-- A string that is no identifier is written without its quotes. -/
theorem memberNames_illegal :
    (ofSource "Pet" "api/models/Pet.js" .model rootOwner (quotedText "first-name") ()).result =
        .ok (quoted "first-name") ∧
      (resolve [] (quoted "first-name")).result = .ok () ∧
      (resolve [] (quoted "first-name")).state.attributes.mapM attributeMember =
        .ok ["  first-name?: string;"] ∧
      memberNames (resolve [] (quoted "first-name")).state = ["id", "first-name"] ∧
      ∀ A : Alphabet, ¬A.IsLegal "first-name" := by
  have hread : (ofSource "Pet" "api/models/Pet.js" .model rootOwner (quotedText "first-name") ()).result =
      .ok (quoted "first-name") := by
    decide +kernel
  refine ⟨hread, by decide, by decide, by decide, fun A => ?_⟩
  exact not_isLegal_of_mem A (d := '-') (by decide) (by decide) (by decide) (by decide)

end Entity

end Rigging
