import Rigging.Proofs.TypeExpr.Known

/-!
# Types as comments spell them

A phrase is the tree that a comment means by a type: words, rest marks, arrays and promises.
`Spells` says which texts spell a phrase, with spaces and tabs around every part of it, and `normal`
says on trees what is left of a phrase relative to known models.  Normalising a text is the second
read off the first: whatever text spells a phrase is normalised to the plain text of the phrase's
normal form (`normalize_of_spells`).

The proof has one law of `normalize` for each way to spell, and every one of them is a law of reading.
What they ask of a text is `WellSpelled`, which holds of every spelling.
-/

namespace Rigging.TypeExpr

open Rigging.Text

/-- A type as a tree of what a comment writes. -/
inductive Phrase where
  | word (text : String)
  | rest (inner : Phrase)
  | array (element : Phrase)
  | promise (members : List Phrase)

namespace Phrase

mutual

/-- The text of a phrase without blanks. -/
def text : Phrase → String
  | word w => w
  | rest inner => "..." ++ text inner
  | array element => text element ++ "[]"
  | promise members => "Promise<" ++ Union.join (texts members) ++ ">"

/-- The texts of phrases without blanks. -/
def texts : List Phrase → List String
  | [] => []
  | p :: ps => text p :: texts ps

end

/-- Letters, digits, underscores and dollar signs, at least one. -/
def IsWord (s : String) : Prop :=
  s.toList ≠ [] ∧ ∀ c ∈ s.toList, Doc.isNamePart c = true

/-- Spaces and tabs only. -/
def IsGap (s : String) : Prop :=
  ∀ c ∈ s.toList, isSpaceOrTab c = true

instance (s : String) : Decidable (IsWord s) :=
  inferInstanceAs (Decidable (s.toList ≠ [] ∧ ∀ c ∈ s.toList, Doc.isNamePart c = true))

instance (s : String) : Decidable (IsGap s) :=
  inferInstanceAs (Decidable (∀ c ∈ s.toList, isSpaceOrTab c = true))

/-- The texts that spell a phrase: its words as they are, the marks where they belong, and any spaces
and tabs around each part. -/
inductive Spells : String → Phrase → Prop
  | word {w : String} (is_word : IsWord w) : Spells w (word w)
  | rest {s : String} {p : Phrase} (inner : Spells s p) : Spells ("..." ++ s) (rest p)
  | array {s : String} {p : Phrase} (element : Spells s p) : Spells (s ++ "[]") (array p)
  | promise {members : List (String × Phrase)} (each : ∀ m ∈ members, Spells m.1 m.2) :
      Spells ("Promise<" ++ Union.join (members.map Prod.fst) ++ ">")
        (promise (members.map Prod.snd))
  | gaps {l s r : String} {p : Phrase} (left : IsGap l) (right : IsGap r) (inner : Spells s p) :
      Spells (l ++ s ++ r) p

/-- The spelling of a word in declarations: a keyword's own, the word itself if it names the instance
type of a known model, and the wildcard for every other word. -/
def wordSpelling (models : Models) (w : String) : String :=
  match keywords.lookup w with
  | some t => t.print
  | none =>
    if ∃ name ∈ Assoc.keys models, isName name.toList = true ∧ instanceName name = w then w
    else wildcard

mutual

/-- The phrase relative to known models: without rest marks, with the words of declarations, and in a
promise with the first of all members that have the same text. -/
def normal (models : Models) : Phrase → Phrase
  | word w => word (wordSpelling models w)
  | rest inner => normal models inner
  | array element => array (normal models element)
  | promise members =>
    let ms := (normals models members).eraseDupsBy fun p q => p.text == q.text
    promise (if ms.isEmpty then [word wildcard] else ms)

/-- The phrases relative to known models. -/
def normals (models : Models) : List Phrase → List Phrase
  | [] => []
  | p :: ps => normal models p :: normals models ps

end

@[simp] theorem texts_eq (ps : List Phrase) : texts ps = ps.map text := by
  induction ps with
  | nil => rfl
  | cons p ps ih => rw [texts, ih]; rfl

@[simp] theorem normals_eq (models : Models) (ps : List Phrase) :
    normals models ps = ps.map (normal models) := by
  induction ps with
  | nil => rfl
  | cons p ps ih => rw [normals, ih]; rfl

/-- The text of a promise's normal form. -/
theorem text_normal_promise (models : Models) (members : List Phrase) :
    ((promise members).normal models).text = "Promise<" ++ Union.join
      (orWildcard (distinct (members.map fun p => (p.normal models).text))) ++ ">" := by
  have htexts : distinct (members.map fun p => (p.normal models).text) =
      ((members.map (normal models)).eraseDupsBy fun p q => p.text == q.text).map text := by
    rw [map_eraseDupsBy, List.map_map]
    rfl
  rw [normal, normals_eq, text, texts_eq, htexts, orWildcard, List.isEmpty_map]
  split
  · rfl
  · rfl

end Phrase

open Phrase (IsWord IsGap Spells wordSpelling)

/-! ### What spellings are like -/

theorem Phrase.Spells.wellSpelled {s : String} {p : Phrase} (h : Spells s p) :
    WellSpelled s.toList := by
  induction h with
  | word is_word => exact wellSpelled_word is_word.1 is_word.2
  | rest _ ih =>
    have := ih.append (l := "...".toList) (r := []) (by decide) (by decide)
    rwa [List.append_nil, ← String.toList_append] at this
  | array _ ih =>
    have := ih.append (l := []) (r := "[]".toList) (by decide) (by decide)
    rwa [List.nil_append, ← String.toList_append] at this
  | @promise members _ ih =>
    rw [toList_promise]
    apply wellSpelled_promise
    intro cs hcs
    rw [List.map_map] at hcs
    obtain ⟨m, hm, rfl⟩ := List.mem_map.mp hcs
    exact ih m hm
  | gaps left right _ ih =>
    have hgap : ∀ c, isSpaceOrTab c = true → c ∉ dividers := by
      intro c hc
      simp only [isSpaceOrTab, Bool.or_eq_true, beq_iff_eq] at hc
      rcases hc with rfl | rfl <;> decide
    rw [String.toList_append, String.toList_append]
    exact ih.append (fun c hc => hgap c (left c hc)) (fun c hc => hgap c (right c hc))

/-! ### The laws of normalising -/

section Laws

variable (known : String → Bool)

theorem normalize_rest {s : String} (h : WellSpelled s.toList) :
    normalize known ("..." ++ s) = normalize known s := by
  obtain ⟨c, hc, -, hblank⟩ := h.solid
  rw [normalize, normalize, read_eq, read_eq, String.toList_append,
    readChars_rest hc hblank h.oneLine]

theorem normalize_array {s : String} (h : WellSpelled s.toList) :
    normalize known (s ++ "[]") = normalize known s ++ "[]" := by
  obtain ⟨c, hc, hdot, hblank⟩ := h.solid
  rw [normalize, normalize, read_eq, read_eq, String.toList_append,
    readChars_array hc hdot hblank h.oneLine, within, print]

theorem normalize_gaps {l r : String} (hl : IsGap l) (hr : IsGap r) (s : String) :
    normalize known (l ++ s ++ r) = normalize known s := by
  have hblank : ∀ {g : String}, IsGap g → AllBlank g.toList :=
    fun hg c hc => isBlank_of_isSpaceOrTab (hg c hc)
  rw [normalize, normalize, read_eq, read_eq, String.toList_append, String.toList_append,
    readChars_blanks (hblank hl) (hblank hr)]

theorem normalize_promise {ss : List String} (h : ∀ s ∈ ss, WellSpelled s.toList) :
    normalize known ("Promise<" ++ Union.join ss ++ ">") =
      "Promise<" ++ Union.join (orWildcard (distinct (ss.map (normalize known)))) ++ ">" := by
  have hall : ∀ cs ∈ ss.map String.toList, WellSpelled cs := by
    intro cs hcs
    obtain ⟨s, hs, rfl⟩ := List.mem_map.mp hcs
    exact h s hs
  have hmembers : ss.map (normalize known) =
      ((ss.map String.toList).map readChars).map fun t => (t.within known).print := by
    rw [List.map_map, List.map_map]
    refine List.map_congr_left fun s _ => ?_
    rw [normalize, read_eq]
    rfl
  rw [normalize, read_eq, toList_promise, readChars_promise_join hall, print_within_promise,
    hmembers]

end Laws

/-! ### Words -/

theorem within_of_mem_keywords (known : String → Bool) :
    ∀ k ∈ keywords, k.2.within known = k.2 := by
  intro k hk
  simp only [keywords, List.mem_cons, List.not_mem_nil, or_false] at hk
  rcases hk with rfl | rfl | rfl | rfl | rfl | rfl | rfl | rfl | rfl | rfl | rfl | rfl | rfl | rfl <;>
    rfl

theorem lookup_instanceName (model : String) : keywords.lookup (instanceName model) = none := by
  have hall : ∀ k ∈ keywords, k.1.toList.head? ≠ some '$' := by decide
  rw [List.lookup_eq_none_iff]
  intro k hk
  rw [bne_iff_ne]
  intro heq
  exact hall k hk (heq ▸ (ends_instanceName model).1)

theorem normalize_word (models : Models) {w : String} (h : IsWord w) :
    normalize models.knows w = wordSpelling models w := by
  rw [normalize, read_eq, readChars_word h.2, readLeaf]
  cases hmodel : instanceModel? w.toList with
  | some model =>
    obtain ⟨hw, hname⟩ := instanceModel?_eq_some_iff.mp hmodel
    have hw : w = instanceName model := String.toList_inj.mp hw
    subst hw
    have hknown : (∃ name ∈ Assoc.keys models,
        isName name.toList = true ∧ instanceName name = instanceName model) ↔
        models.knows model = true := by
      rw [Models.knows_iff]
      constructor
      · rintro ⟨name, hmem, -, heq⟩
        rwa [← instanceName_injective heq]
      · exact fun hmem => ⟨model, hmem, hname, rfl⟩
    simp only [wordSpelling, lookup_instanceName, hknown, within]
    split
    · rfl
    · rfl
  | none =>
    rw [String.ofList_toList, wordSpelling]
    cases hkeyword : keywords.lookup w with
    | some t =>
      dsimp only [Option.getD_some]
      rw [within_of_mem_keywords models.knows _ (mem_of_lookup_eq_some hkeyword)]
    | none =>
      have hunknown : ¬∃ name ∈ Assoc.keys models,
          isName name.toList = true ∧ instanceName name = w := by
        rintro ⟨name, -, hname, rfl⟩
        rw [instanceModel?_eq_some_iff.mpr ⟨rfl, hname⟩] at hmodel
        cases hmodel
      dsimp only
      rw [if_neg hunknown]
      rfl

/-! ### Phrases -/

/-- **Normalising recovers the tree.**  Whatever text spells a phrase, it is normalised to the plain
text of the phrase's normal form. -/
theorem normalize_of_spells {s : String} {p : Phrase} (h : Spells s p) (models : Models) :
    normalize models.knows s = (p.normal models).text := by
  induction h with
  | word is_word => rw [normalize_word models is_word, Phrase.normal, Phrase.text]
  | rest inner ih => rw [normalize_rest _ inner.wellSpelled, ih, Phrase.normal]
  | array element ih =>
    rw [normalize_array _ element.wellSpelled, ih, Phrase.normal, Phrase.text]
  | @promise members each ih =>
    have hspelled : ∀ s ∈ members.map Prod.fst, WellSpelled s.toList := by
      intro s hs
      obtain ⟨m, hm, rfl⟩ := List.mem_map.mp hs
      exact (each m hm).wellSpelled
    have htexts : (members.map Prod.fst).map (normalize models.knows) =
        (members.map Prod.snd).map fun p => (p.normal models).text := by
      rw [List.map_map, List.map_map]
      exact List.map_congr_left ih
    rw [normalize_promise _ hspelled, Phrase.text_normal_promise, htexts]
  | gaps left right _ ih => rw [normalize_gaps _ left right, ih]

/-- A promise of pets, of another promise and of something unknown. -/
def petPhrase : Phrase :=
  .promise [.array (.rest (.word "$PetInstance")),
    .promise [.word "string", .word "array", .word "string"], .word "Lead"]

theorem spells_petPhrase :
    Spells "Promise< ...$PetInstance [] |\tPromise<string| array |string>|Lead>" petPhrase := by
  have hrest : Spells ("..." ++ "$PetInstance") (.rest (.word "$PetInstance")) :=
    .rest (.word (by decide))
  have harray : Spells (" " ++ ("" ++ ("..." ++ "$PetInstance") ++ " " ++ "[]") ++ " ")
      (.array (.rest (.word "$PetInstance"))) :=
    .gaps (by decide) (by decide) (.array (.gaps (by decide) (by decide) hrest))
  have hinner := @Spells.promise
    [("string", .word "string"), (" " ++ "array" ++ " ", .word "array"), ("string", .word "string")]
    (by
      intro m hm
      simp only [List.mem_cons, List.not_mem_nil, or_false] at hm
      rcases hm with rfl | rfl | rfl
      · exact .word (by decide)
      · exact .gaps (by decide) (by decide) (.word (by decide))
      · exact .word (by decide))
  have houter := @Spells.promise
    [(_, _), ("\t" ++ _ ++ "", _), ("Lead", .word "Lead")]
    (by
      intro m hm
      simp only [List.mem_cons, List.not_mem_nil, or_false] at hm
      rcases hm with rfl | rfl | rfl
      · exact harray
      · exact .gaps (by decide) (by decide) hinner
      · exact .word (by decide))
  exact houter

/-- The rest mark goes, the array mark stays, and the text that is named twice stands once. -/
theorem normalize_of_spells_petPhrase :
    Spells "Promise< ...$PetInstance [] |\tPromise<string| array |string>|Lead>" petPhrase ∧
      (petPhrase.normal petModels).text = "Promise<$PetInstance[]|Promise<string|any[]>|any>" ∧
      normalize petModels.knows
          "Promise< ...$PetInstance [] |\tPromise<string| array |string>|Lead>" =
        "Promise<$PetInstance[]|Promise<string|any[]>|any>" := by
  have htext : (petPhrase.normal petModels).text =
      "Promise<$PetInstance[]|Promise<string|any[]>|any>" := by decide
  exact ⟨spells_petPhrase, htext, (normalize_of_spells spells_petPhrase petModels).trans htext⟩

end Rigging.TypeExpr
