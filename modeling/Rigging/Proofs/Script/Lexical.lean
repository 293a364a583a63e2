import Rigging.Script.Module
import Mathlib.Data.List.TakeWhile

/-!
# What is kept of a script

Whatever is kept of a script is spelled as the lexeme that it was read as: every key, parameter or
operand that is read as a name is a word, as `wordLength` measures it, and every comment is what
`commentLength` measures.  The invariant is `Lexical`, which goes through everything that is kept of an
expression.  A reader `Yields` a property if all its results have it, and each way to put readers
together has a lemma about that.  Then there is one lemma for every reader of expressions, given that
the readers it refers to (`Rules`) yield expressions of this kind, and `lexical_read` is the result for
whole scripts.
-/

namespace Rigging.Script

/-! ### What a reader yields -/

namespace Reader

variable {α β : Type} {P : α → Prop} {Q : β → Prop}

section

variable {p : Reader α} {c c' : Cursor} {a : α}

theorem bind_of_some (h : p c = (some a, c')) (f : α → Reader β) : (p >>= f) c = f a c' := by
  simp only [Bind.bind, h]

theorem bind_of_none (h : p c = (none, c')) (f : α → Reader β) : (p >>= f) c = (none, c') := by
  simp only [Bind.bind, h]

theorem orElse_of_some (h : p c = (some a, c')) (q : Reader α) : (p <|> q) c = (some a, c') := by
  simp only [HOrElse.hOrElse, OrElse.orElse, orElse, h]

theorem orElse_of_none (h : p c = (none, c')) (q : Reader α) :
    (p <|> q) c = q { c with reach := c'.reach } := by
  simp only [HOrElse.hOrElse, OrElse.orElse, orElse, h]

end

/-- A lexeme that is read is as long as it was measured. -/
theorem lexeme_some {length : List Char → Nat} {c : Cursor} {text : String}
    (h : (lexeme length c).1 = some text) :
    length c.toLexeme.rest ≠ 0 ∧ text.toList = c.toLexeme.rest.take (length c.toLexeme.rest) := by
  unfold lexeme at h
  dsimp only at h
  split at h
  · cases h
  · rename_i n hlength
    cases h
    rw [hlength]
    exact ⟨Nat.succ_ne_zero n, String.toList_ofList⟩

/-- Every result of a reader has a property. -/
def Yields (P : α → Prop) (p : Reader α) : Prop :=
  ∀ c a, (p c).1 = some a → P a

namespace Yields

theorem pure {a : α} (h : P a) : Yields P (Pure.pure a : Reader α) := by
  rintro c b ⟨⟩
  exact h

theorem refuse : Yields P (Reader.refuse : Reader α) := by
  rintro c a ⟨⟩

/-- What comes second is known to stand behind a result of the first. -/
theorem bind {p : Reader α} {f : α → Reader β} (hp : Yields P p) (hf : ∀ a, P a → Yields Q (f a)) :
    Yields Q (p >>= f) := by
  intro c b h
  rcases hpc : p c with ⟨_ | a, c'⟩
  · rw [bind_of_none hpc] at h
    cases h
  · rw [bind_of_some hpc] at h
    exact hf a (hp c a (by rw [hpc])) c' b h

/-- Where the first result does not matter. -/
theorem seq {p : Reader α} {f : α → Reader β} (hf : ∀ a, Yields Q (f a)) : Yields Q (p >>= f) :=
  bind (P := fun _ => True) (fun _ _ _ => trivial) fun a _ => hf a

theorem orElse {p q : Reader α} (hp : Yields P p) (hq : Yields P q) : Yields P (p <|> q) := by
  intro c a h
  rcases hpc : p c with ⟨_ | b, c'⟩
  · rw [orElse_of_none hpc] at h
    exact hq _ a h
  · rw [orElse_of_some hpc] at h
    cases h
    exact hp c a (by rw [hpc])

theorem nil : Yields P (choice ([] : List (Reader α))) := refuse

theorem cons {p : Reader α} {ps : List (Reader α)} (hp : Yields P p) (hps : Yields P (choice ps)) :
    Yields P (choice (p :: ps)) := orElse hp hps

theorem optional {p : Reader α} (h : Yields P p) :
    Yields (fun found : Option α => ∀ a ∈ found, P a) (Reader.optional p) := by
  refine orElse (bind h fun a ha => pure ?_) (pure ?_)
  · rintro b ⟨⟩
    exact ha
  · rintro b ⟨⟩

theorem manyUpTo {p : Reader α} (h : Yields P p) (n : Nat) :
    Yields (fun found : List α => ∀ a ∈ found, P a) (Reader.manyUpTo p n) := by
  induction n with
  | zero => exact pure (List.forall_mem_nil _)
  | succ n ih =>
    intro c found hfound
    unfold Reader.manyUpTo at hfound
    rcases hpc : p c with ⟨_ | a, c'⟩
    · rw [hpc] at hfound
      cases hfound
      exact List.forall_mem_nil _
    · have ha := h c a (by rw [hpc])
      rw [hpc] at hfound
      dsimp only at hfound
      split at hfound
      · cases hfound
        exact List.forall_mem_singleton.mpr ha
      · rcases hmore : Reader.manyUpTo p n c' with ⟨_ | more, last⟩
        · rw [hmore] at hfound
          cases hfound
        · rw [hmore] at hfound
          cases hfound
          exact List.forall_mem_cons.mpr ⟨ha, ih c' more (by rw [hmore])⟩

theorem many {p : Reader α} (h : Yields P p) :
    Yields (fun found : List α => ∀ a ∈ found, P a) (Reader.many p) :=
  fun c => manyUpTo h c.bound c

end Yields

end Reader

/-! ### Words -/

/-- A text that is a word: what `wordLength` measures at the head of some characters. -/
def IsWord (text : String) : Prop :=
  ∃ cs, wordLength cs ≠ 0 ∧ text.toList = cs.take (wordLength cs)

theorem isWord_word : Reader.Yields IsWord Reader.word :=
  fun c _ h => ⟨c.toLexeme.rest, Reader.lexeme_some h⟩

theorem isWord_wordWith (ok : String → Bool) : Reader.Yields IsWord (Reader.wordWith ok) := by
  intro c text h
  obtain ⟨hne, htext⟩ := Reader.lexeme_some h
  dsimp only at hne htext
  split at hne
  · rename_i hok
    rw [if_pos hok] at htext
    exact ⟨c.toLexeme.rest, hne, htext⟩
  · exact absurd rfl hne

theorem wordTailLength_cons_of_ne {c : Char} (hc : c ≠ '\\') (cs : List Char) :
    wordTailLength 0 (c :: cs) =
      if isWordStart c || c.isDigit then wordTailLength 0 cs + 1 else 0 := by
  rw [wordTailLength, if_neg hc]

/-- What continues a word without a backslash are starts of words and digits. -/
theorem wordTail_spelling {cs : List Char} (hplain : '\\' ∉ cs.take (wordTailLength 0 cs)) :
    ∀ d ∈ cs.take (wordTailLength 0 cs), isWordStart d = true ∨ d.isDigit = true := by
  induction cs with
  | nil => simp
  | cons c cs ih =>
    by_cases hc : c = '\\'
    · cases hlength : wordTailLength 0 (c :: cs) with
      | zero => simp
      | succ n =>
        rw [hlength, List.take_succ_cons, hc] at hplain
        exact absurd List.mem_cons_self hplain
    · rw [wordTailLength_cons_of_ne hc] at hplain ⊢
      split at hplain
      · rename_i hpart
        rw [if_pos hpart]
        rw [List.take_succ_cons] at hplain ⊢
        refine List.forall_mem_cons.mpr ⟨Bool.or_eq_true_iff.mp hpart, ih fun hmem => ?_⟩
        exact hplain (List.mem_cons_of_mem c hmem)
      · rename_i hpart
        rw [if_neg hpart]
        simp

theorem wordStartLength_cons_of_ne {c : Char} (hc : c ≠ '\\') (cs : List Char) :
    wordStartLength (c :: cs) = if isWordStart c then 1 else 0 := by
  unfold wordStartLength
  split
  · simp_all
  · simp_all
  · simp_all

/-- A word without a backslash begins with the start of a word, and goes on with such starts and
digits. -/
theorem IsWord.spelling {text : String} (h : IsWord text) (hplain : '\\' ∉ text.toList) :
    ∃ c cs, text.toList = c :: cs ∧ isWordStart c = true ∧
      ∀ d ∈ cs, isWordStart d = true ∨ d.isDigit = true := by
  obtain ⟨cs, hne, htext⟩ := h
  cases cs with
  | nil => exact absurd rfl hne
  | cons c cs =>
    by_cases hc : c = '\\'
    · obtain ⟨n, hn⟩ := Nat.exists_eq_succ_of_ne_zero hne
      rw [htext, hn, List.take_succ_cons, hc] at hplain
      exact absurd List.mem_cons_self hplain
    · by_cases hstart : isWordStart c = true
      · have hlength : wordLength (c :: cs) = wordTailLength 0 cs + 1 := by
          rw [wordLength, wordStartLength_cons_of_ne hc, if_pos hstart, if_neg Nat.one_ne_zero,
            Nat.add_comm]
          rfl
        rw [hlength, List.take_succ_cons] at htext
        rw [htext] at hplain
        refine ⟨c, _, htext, hstart, wordTail_spelling fun hmem => ?_⟩
        exact hplain (List.mem_cons_of_mem c hmem)
      · refine absurd ?_ hne
        rw [wordLength, wordStartLength_cons_of_ne hc, if_neg hstart, if_pos rfl]

/-- The characters that open a string. -/
def isQuote (c : Char) : Bool :=
  c == '\'' || c == '"' || c == '`'

/-- A text without quotes. -/
def Unquoted (text : String) : Prop :=
  ∀ c ∈ text.toList, isQuote c = false

instance (text : String) : Decidable (Unquoted text) :=
  inferInstanceAs (Decidable (∀ _ ∈ _, _))

theorem unquoted_append {s r : String} : Unquoted (s ++ r) ↔ Unquoted s ∧ Unquoted r := by
  rw [Unquoted, String.toList_append, List.forall_mem_append]
  rfl

theorem unquoted_intercalate {sep : String} (hsep : Unquoted sep) {ss : List String}
    (h : ∀ s ∈ ss, Unquoted s) : Unquoted (sep.intercalate ss) := by
  induction ss with
  | nil =>
    rw [String.intercalate_nil]
    exact List.forall_mem_nil _
  | cons s ss ih =>
    obtain ⟨hs, hss⟩ := List.forall_mem_cons.mp h
    cases ss with
    | nil => rwa [String.intercalate_singleton]
    | cons r ss =>
      rw [String.intercalate_cons_cons, unquoted_append, unquoted_append]
      exact ⟨⟨hs, hsep⟩, ih hss⟩

theorem isQuote_eq_false {P : Char → Bool} (hP : ∀ q ∈ ['\'', '"', '`'], P q = false) {c : Char}
    (hc : P c = true) : isQuote c = false := by
  rw [Bool.eq_false_iff]
  intro hquote
  have hmem : c ∈ ['\'', '"', '`'] := by
    simpa [isQuote, or_assoc] using hquote
  rw [hP c hmem] at hc
  cases hc

theorem isQuote_of_isHex {c : Char} (h : isHex c = true) : isQuote c = false :=
  isQuote_eq_false (by decide) h

/-- A code escape is made of letters, digits and braces. -/
theorem unquoted_codeEscape (cs : List Char) :
    ∀ c ∈ cs.take (codeEscapeLength cs), isQuote c = false := by
  unfold codeEscapeLength
  split
  · rename_i more
    dsimp only
    split
    · rename_i rest hrest
      split
      · exact List.forall_mem_nil _
      · have hdigits : more.takeWhile isHex = more.take (more.takeWhile isHex).length :=
          List.prefix_iff_eq_take.mp (List.takeWhile_prefix isHex)
        rw [List.take_succ_cons, List.take_succ_cons, List.take_add, hrest, ← hdigits]
        refine List.forall_mem_cons.mpr ⟨by decide, List.forall_mem_cons.mpr ⟨by decide, ?_⟩⟩
        refine List.forall_mem_append.mpr ⟨fun c hc => isQuote_of_isHex (List.mem_takeWhile_imp hc), ?_⟩
        exact List.forall_mem_singleton.mpr (by decide)
    · exact List.forall_mem_nil _
  · rename_i more _
    split
    · rename_i hlength
      have hall : (more.take 4).takeWhile isHex = more.take 4 :=
        (List.takeWhile_prefix isHex).eq_of_length_le (Nat.le_trans (List.length_take_le 4 more) hlength)
      rw [List.take_succ_cons, ← hall]
      exact List.forall_mem_cons.mpr
        ⟨by decide, fun c hc => isQuote_of_isHex (List.mem_takeWhile_imp hc)⟩
    · exact List.forall_mem_nil _
  · exact List.forall_mem_nil _

/-- What continues a word has no quotes, if this holds of the rest of an escape. -/
theorem unquoted_wordTail {skip : Nat} {cs : List Char} (h : ∀ c ∈ cs.take skip, isQuote c = false) :
    ∀ c ∈ cs.take (wordTailLength skip cs), isQuote c = false := by
  induction cs generalizing skip with
  | nil => exact List.forall_mem_nil _
  | cons c cs ih =>
    cases skip with
    | succ n =>
      obtain ⟨hc, hrest⟩ := List.forall_mem_cons.mp h
      rw [wordTailLength]
      exact List.forall_mem_cons.mpr ⟨hc, ih hrest⟩
    | zero =>
      rw [wordTailLength]
      split
      · rename_i hbackslash
        dsimp only
        split
        · exact List.forall_mem_nil _
        · exact List.forall_mem_cons.mpr ⟨hbackslash ▸ by decide, ih (unquoted_codeEscape cs)⟩
      · split
        · rename_i hpart
          refine List.forall_mem_cons.mpr ⟨?_, ih (List.forall_mem_nil _)⟩
          exact isQuote_eq_false (P := fun c => isWordStart c || c.isDigit) (by decide) hpart
        · exact List.forall_mem_nil _

theorem unquoted_wordStart (cs : List Char) :
    ∀ c ∈ cs.take (wordStartLength cs), isQuote c = false := by
  unfold wordStartLength
  split
  · dsimp only
    split
    · exact List.forall_mem_nil _
    · exact List.forall_mem_cons.mpr ⟨by decide, unquoted_codeEscape _⟩
  · split
    · rename_i hstart
      exact List.forall_mem_singleton.mpr (isQuote_eq_false (by decide) hstart)
    · exact List.forall_mem_nil _
  · exact List.forall_mem_nil _

/-- **No word has a quote in it**, escapes included. -/
theorem IsWord.unquoted {text : String} (h : IsWord text) : Unquoted text := by
  obtain ⟨cs, hne, htext⟩ := h
  have hword : wordLength cs = wordStartLength cs + wordTailLength 0 (cs.drop (wordStartLength cs)) := by
    unfold wordLength at hne ⊢
    dsimp only at hne ⊢
    split at hne
    · exact absurd rfl hne
    · rename_i hstart
      rw [if_neg hstart]
  rw [Unquoted, htext, hword, List.take_add]
  exact List.forall_mem_append.mpr ⟨unquoted_wordStart cs, unquoted_wordTail (List.forall_mem_nil _)⟩

/-! ### Comments -/

/-- A text that is a comment: what `commentLength` measures at the head of some characters. -/
def IsComment (text : String) : Prop :=
  ∃ cs, commentLength cs ≠ 0 ∧ text.toList = cs.take (commentLength cs)

def Gap.Lexical : Gap → Prop
  | .comment text => IsComment text
  | .htmlComment => True

theorem lexical_gaps (html : Bool) (fuel : Nat) (cs : List Char) :
    ∀ gap ∈ (gaps html fuel cs).1, gap.Lexical := by
  induction fuel generalizing cs with
  | zero => exact List.forall_mem_nil _
  | succ fuel ih =>
    unfold gaps
    dsimp only
    split
    · rename_i n hlength
      refine List.forall_mem_cons.mpr ⟨⟨cs.drop (cs.takeWhile isSpace).length, ?_, ?_⟩, ih _⟩
      · rw [hlength]
        exact Nat.succ_ne_zero n
      · rw [hlength, String.toList_ofList]
    · split
      · exact List.forall_mem_cons.mpr ⟨trivial, ih _⟩
      · exact List.forall_mem_nil _

theorem lexical_passGaps :
    Reader.Yields (fun found : List Gap => ∀ gap ∈ found, gap.Lexical) Reader.passGaps := by
  intro c found h
  obtain rfl := Option.some.inj h
  exact lexical_gaps _ c.bound c.rest

theorem lexical_passPlainGaps :
    Reader.Yields (fun found : List Gap => ∀ gap ∈ found, gap.Lexical) Reader.passPlainGaps := by
  intro c found h
  obtain rfl := Option.some.inj h
  exact lexical_gaps _ c.bound c.rest

/-! ### The invariant -/

/-- A key that is a name is a word. -/
def Key.Lexical : Key → Prop
  | .name text => IsWord text
  | _ => True

/-- A parameter that has a name has a word for it. -/
def Param.Lexical : Param → Prop
  | .name text => IsWord text
  | .rest text => IsWord text
  | .other => True

mutual

/-- What is kept of an expression is spelled as it was read. -/
def Expr.Lexical : Expr → Prop
  | .object items => itemsLexical items
  | .function _ _ params => ∀ p ∈ params, p.Lexical
  | .name text => IsWord text
  | .assignment target value => target.Lexical ∧ value.Lexical
  | _ => True

/-- What is kept of a member is spelled as it was read, its value included. -/
def Item.Lexical : Item → Prop
  | .comment text => IsComment text
  | .pair key value => key.Lexical ∧ value.Lexical
  | .method key _ params => key.Lexical ∧ ∀ p ∈ params, p.Lexical
  | _ => True

/-- What is kept of members is spelled as it was read. -/
def itemsLexical : List Item → Prop
  | [] => True
  | item :: items => item.Lexical ∧ itemsLexical items

end

theorem itemsLexical_iff {items : List Item} :
    itemsLexical items ↔ ∀ item ∈ items, item.Lexical := by
  induction items with
  | nil => simp [itemsLexical]
  | cons item items ih => simp [itemsLexical, ih]

theorem lexical_object {items : List Item} :
    (Expr.object items).Lexical ↔ ∀ item ∈ items, item.Lexical := by
  rw [Expr.Lexical, itemsLexical_iff]

/-- The invariant of what is still read as an expression or a pattern. -/
def Cover.Lexical (c : Cover) : Prop := c.expr.Lexical

def Member.Lexical (m : Member) : Prop := m.item.Lexical

def Statement.Lexical : Statement → Prop
  | .expression value => value.Lexical
  | .other => True

/-- The readers that refer to each other keep the invariant.  What is read behind `new` or as markup is
not kept. -/
structure Rules.Lexical (r : Rules) : Prop where
  expression : ∀ ends, Reader.Yields Cover.Lexical (r.expression ends)
  operand : ∀ ends, Reader.Yields Cover.Lexical (r.operand ends)
  statement : Reader.Yields Statement.Lexical r.statement

open Reader

/-! ### Objects -/

theorem lexical_key (r : Rules) : Yields Key.Lexical (key r) := by
  refine .cons ?_ (.cons ?_ (.cons ?_ (.cons ?_ (.cons ?_ .nil))))
  · exact .bind isWord_word fun text htext => .pure htext
  · exact .seq fun _ => .pure trivial
  · exact .seq fun _ => .pure trivial
  · exact .seq fun _ => .seq fun _ => .seq fun _ => .pure trivial
  · exact .seq fun _ => .pure trivial

theorem lexical_spreadMember (r : Rules) : Yields Member.Lexical (spreadMember r) :=
  .seq fun _ => .seq fun _ => .pure (by simp [Member.Lexical, Item.Lexical])

/-- Comments are items that are spelled as they were read. -/
theorem lexical_gapItems {found : List Gap} (h : ∀ gap ∈ found, gap.Lexical) :
    ∀ item ∈ gapItems found, item.Lexical := by
  intro item hitem
  obtain ⟨gap, hgap, rfl⟩ := List.mem_map.mp hitem
  cases gap with
  | comment text => simpa [Item.Lexical, Gap.Lexical] using h (.comment text) hgap
  | htmlComment => simp [Item.Lexical]

/-- A parameter that has a name is an operand that is one. -/
theorem lexical_param {e : Entry} (h : e.cover.Lexical) : e.param.Lexical := by
  unfold Entry.param
  split
  · rename_i text hexpr
    rw [Cover.Lexical, hexpr, Expr.Lexical] at h
    split
    · split
      · exact h
      · trivial
    · exact h
  · trivial

theorem some_mem_of_filled? {s : Slots} {entries : List Entry} (h : s.filled? = some entries) :
    ∀ e ∈ entries, some e ∈ s := by
  induction s generalizing entries with
  | nil =>
    cases h
    exact List.forall_mem_nil _
  | cons slot s ih =>
    rw [Slots.filled?, List.mapM_cons] at h
    obtain ⟨e, hslot, h⟩ := Option.bind_eq_some_iff.mp h
    obtain ⟨more, hmore, h⟩ := Option.bind_eq_some_iff.mp h
    obtain rfl := Option.some.inj h
    refine List.forall_mem_cons.mpr ⟨?_, fun e he => List.mem_cons_of_mem _ (ih hmore e he)⟩
    exact hslot ▸ List.mem_cons_self

theorem lexical_params? {s : Slots} (h : ∀ e, some e ∈ s → e.cover.Lexical) {ps : List Param}
    (hps : s.params? = some ps) : ∀ p ∈ ps, p.Lexical := by
  have hitems : ∀ e, some e ∈ (if (s.getLast?.bind id).isNone then s.dropLast else s) →
      e.cover.Lexical := by
    intro e he
    split at he
    · exact h e ((List.dropLast_subset s) he)
    · exact h e he
  unfold Slots.params? at hps
  dsimp only at hps
  split at hps
  · rename_i entries hfilled
    split at hps
    · obtain rfl := Option.some.inj hps
      intro p hp
      obtain ⟨e, he, rfl⟩ := List.mem_map.mp hp
      exact lexical_param (hitems e (some_mem_of_filled? hfilled e he))
    · cases hps
  · cases hps

section Rules

variable {r : Rules} (hr : r.Lexical)

include hr

theorem lexical_entry : Yields (fun e : Entry => e.cover.Lexical) (entry r) :=
  .orElse (.seq fun _ => .seq fun _ => .bind (hr.expression false) fun _ hc => .pure hc)
    (.bind (hr.expression false) fun _ hc => .pure hc)

theorem lexical_slots :
    Yields (fun s : Slots => ∀ e, some e ∈ s → e.cover.Lexical) (slots r) := by
  have hentry := Yields.optional (lexical_entry hr)
  refine .bind hentry fun first hfirst => .bind (.many (.seq fun _ => hentry)) fun more hmore =>
    .pure fun e he => ?_
  rcases List.mem_cons.mp he with heq | he
  · exact hfirst e heq.symm
  · exact hmore _ he e rfl

/-- **The parameters of a function** that are names are words. -/
theorem lexical_parameters : Yields (fun ps : List Param => ∀ p ∈ ps, p.Lexical) (parameters r) := by
  refine .seq fun _ => .bind (lexical_slots hr) fun s hs => .seq fun _ => ?_
  split
  · rename_i ps hps
    exact .pure (lexical_params? hs hps)
  · exact .refuse

theorem lexical_methodMember {k : Key} (hk : k.Lexical) (async : Bool) :
    Yields Member.Lexical (methodMember r k async) := by
  refine .bind (lexical_parameters hr) fun ps hps => .seq fun _ => .pure ?_
  rw [Member.Lexical, Item.Lexical]
  exact ⟨hk, hps⟩

theorem lexical_plainMember {k : Key} (hk : k.Lexical) : Yields Member.Lexical (plainMember r k) := by
  have hshort : ∀ text value pattern, Member.Lexical ⟨.shorthand text, value, pattern⟩ := by
    simp [Member.Lexical, Item.Lexical]
  refine .orElse ?_ ?_
  · refine .seq fun _ => .bind (hr.expression false) fun c hc => .pure ?_
    rw [Member.Lexical, Item.Lexical]
    exact ⟨hk, hc⟩
  · split
    · exact .orElse (.seq fun _ => .seq fun _ => .pure (hshort _ _ _)) (.pure (hshort _ _ _))
    · exact .refuse

theorem lexical_keyedMember : Yields Member.Lexical (keyedMember r) := by
  refine .seq fun decorators => .seq fun m => .bind (lexical_key r) fun k hk => ?_
  have hmethod := lexical_methodMember hr hk m.async
  dsimp only
  split
  · exact hmethod
  · exact .orElse hmethod (lexical_plainMember hr hk)

theorem lexical_objectPart :
    Yields (fun part => ∀ item ∈ part.1, item.Lexical) (objectPart r) := by
  refine .bind lexical_passGaps fun before hbefore =>
    .bind (.optional (.orElse (lexical_spreadMember r) (lexical_keyedMember hr))) fun m hm =>
      .bind lexical_passPlainGaps fun after hafter => ?_
  cases m with
  | none => exact .pure (lexical_gapItems (List.forall_mem_append.mpr ⟨hbefore, hafter⟩))
  | some m =>
    refine .pure (List.forall_mem_append.mpr ⟨lexical_gapItems hbefore, ?_⟩)
    exact List.forall_mem_cons.mpr ⟨hm m rfl, lexical_gapItems hafter⟩

/-- **What is kept of an object** is spelled as it was read. -/
theorem lexical_objectLiteral : Yields Cover.Lexical (objectLiteral r) := by
  have hpart := lexical_objectPart hr
  refine .seq fun _ => .bind hpart fun first hfirst => .bind (.many (.seq fun _ => hpart))
    fun more hmore => .seq fun _ => .pure ?_
  rw [Cover.Lexical, lexical_object]
  intro item hmem
  obtain ⟨part, hin, hitem⟩ := List.mem_flatMap.mp hmem
  rcases List.mem_cons.mp hin with heq | hin
  · exact hfirst item (heq ▸ hitem)
  · exact hmore part hin item hitem

end Rules

/-! ### Expressions of which little is kept -/

theorem lexical_ofKind (kind : Kind) : (Cover.ofKind kind).Lexical := by
  simp [Cover.Lexical, Cover.ofKind, Cover.ofValue, Expr.Lexical]

theorem lexical_memberOf (object : Cover) (property : String) :
    (memberOf object property).Lexical := by
  unfold memberOf
  split <;> simp [Cover.Lexical, Cover.place, Expr.Lexical]

section

variable (r : Rules) (ends : Bool)

theorem lexical_arrayLiteral : Yields Cover.Lexical (arrayLiteral r) :=
  .seq fun _ => .seq fun _ => .seq fun _ => .pure (lexical_ofKind .array)

theorem lexical_subscript : Yields Cover.Lexical (subscript r) :=
  .seq fun _ => .seq fun _ => .seq fun _ => .pure (lexical_ofKind .subscript)

theorem lexical_accessTail (object : Cover) : Yields Cover.Lexical (accessTail r object) := by
  have hmember : Yields Cover.Lexical (do return memberOf object (← propertyName)) :=
    .seq fun property => .pure (lexical_memberOf object property)
  have hchained : Yields Cover.Lexical (chained r object) :=
    .cons hmember (.cons (lexical_subscript r) (.cons (.seq fun _ => .pure (lexical_ofKind _)) .nil))
  exact .cons (.seq fun _ => hmember) (.cons (.seq fun _ => hchained) (.cons (lexical_subscript r) .nil))

theorem lexical_tailStep (c : Cover) : Yields Cover.Lexical (tailStep r ends c) := by
  refine .seq fun _ => .cons (lexical_accessTail r c) (.cons ?_ (.cons ?_ .nil))
  · exact .seq fun _ => .pure (lexical_ofKind _)
  · unfold updateTail
    split
    · exact .seq fun _ => .seq fun _ => .seq fun _ => .pure (lexical_ofKind _)
    · exact .seq fun _ => .pure (lexical_ofKind _)

theorem lexical_tailUpTo {c : Cover} (hc : c.Lexical) (n : Nat) :
    Yields Cover.Lexical (tailUpTo r ends c n) := by
  induction n generalizing c with
  | zero => exact .pure hc
  | succ n ih =>
    refine .bind (.optional (lexical_tailStep r ends c)) fun next hnext => ?_
    cases next with
    | none => exact .pure hc
    | some next => exact ih (hnext next rfl)

end

/-! ### Operands -/

section Rules

variable {r : Rules} (hr : r.Lexical) (ends : Bool)

include hr

omit ends in
theorem lexical_functionFrom (async named : Bool) :
    Yields (fun e : Expr => e.Lexical) (functionFrom r async named) := by
  have hfunction : ∀ kind ps, (∀ p ∈ ps, p.Lexical) → (Expr.function kind async ps).Lexical := by
    intro kind ps hps
    rw [Expr.Lexical]
    exact hps
  have hparameters := lexical_parameters hr
  refine .seq fun _ => .seq fun generator => ?_
  dsimp only
  generalize (if generator then Kind.generator else Kind.function) = kind
  split
  · exact .seq fun _ => .bind hparameters fun ps hps => .seq fun _ => .pure (hfunction kind ps hps)
  · exact .seq fun _ => .bind hparameters fun ps hps => .seq fun _ => .pure (hfunction kind ps hps)

theorem lexical_valueOf_expression : Yields (fun e : Expr => e.Lexical) (valueOf (r.expression ends)) :=
  .bind (hr.expression ends) fun _ hc => .seq fun _ => .pure hc

theorem lexical_expressions : Yields (fun e : Expr => e.Lexical) (expressions r ends) := by
  refine .bind (lexical_valueOf_expression hr ends) fun first hfirst => .seq fun more => .pure ?_
  split
  · exact hfirst
  · simp [Expr.Lexical]

theorem lexical_tail {c : Cover} (hc : c.Lexical) : Yields Cover.Lexical (tail r ends c) := by
  intro cursor
  refine Yields.bind (lexical_tailUpTo r ends hc cursor.bound) (fun c hc => ?_) cursor
  -- only an assignment keeps something: both of its sides
  refine .cons ?_ (.cons ?_ (.cons (.pure hc) .nil))
  · refine .seq fun _ => .seq fun _ => .bind (lexical_valueOf_expression hr ends) fun v hv => .pure ?_
    rw [Cover.Lexical, Expr.Lexical]
    exact ⟨hc, hv⟩
  · exact .seq fun _ => .seq fun _ => .seq fun _ => .pure (lexical_ofKind _)

theorem lexical_tail_ofKind (kind : Kind) : Yields Cover.Lexical (tail r ends (.ofKind kind)) :=
  lexical_tail hr ends (lexical_ofKind kind)

theorem lexical_arrow (async : Bool) {ps : List Param} (hps : ∀ p ∈ ps, p.Lexical) :
    Yields Cover.Lexical (arrow r ends async ps) := by
  have hc : (Cover.ofValue (.function .arrow async ps)).Lexical := by
    rw [Cover.Lexical, Cover.ofValue, Expr.Lexical]
    exact hps
  refine .seq fun whole => ?_
  dsimp only
  split
  · exact lexical_tail hr ends hc
  · exact .pure hc

/-- An arrow function whose only parameter is a name. -/
theorem lexical_arrow_name (async : Bool) {text : String} (h : IsWord text) :
    Yields Cover.Lexical (arrow r ends async [.name text]) :=
  lexical_arrow hr ends async (List.forall_mem_singleton.mpr h)

theorem lexical_parenthesized : Yields Cover.Lexical (parenthesized r ends) := by
  refine .seq fun _ => .bind (lexical_slots hr) fun s hs => .seq fun _ => .orElse ?_ ?_
  · split
    · rename_i ps hps
      exact lexical_arrow hr ends false (lexical_params? hs hps)
    · exact .refuse
  · exact .seq fun _ => lexical_tail_ofKind hr ends _

theorem lexical_named : Yields Cover.Lexical (named r ends) := by
  refine .bind (isWord_wordWith _) fun text htext =>
    .orElse (lexical_arrow_name hr ends false htext) (lexical_tail hr ends ?_)
  rw [Cover.Lexical, Cover.place, Expr.Lexical]
  exact htext

theorem lexical_asynchronous : Yields Cover.Lexical (asynchronous r ends) := by
  refine .cons ?_ (.cons ?_ (.cons ?_ (.cons (lexical_named hr ends) .nil)))
  · exact .seq fun _ => .bind (lexical_functionFrom hr true false) fun f hf => lexical_tail hr ends hf
  · exact .seq fun _ => .bind (isWord_wordWith _) fun text htext => lexical_arrow_name hr ends true htext
  · exact .seq fun _ => .bind (lexical_parameters hr) fun ps hps => lexical_arrow hr ends true hps

theorem lexical_construction : Yields Cover.Lexical (construction r ends) := by
  refine .seq fun _ => .orElse ?_ ?_
  · exact .seq fun _ => .seq fun _ => lexical_tail_ofKind hr ends _
  · exact .seq fun _ => .seq fun _ => lexical_tail_ofKind hr ends _

theorem lexical_importing : Yields Cover.Lexical (importing r ends) := by
  refine .seq fun _ => .orElse ?_ (.bind (.orElse (lexical_accessTail r _) ?_) fun first hfirst => ?_)
  · exact .seq fun _ => .seq fun _ => lexical_tail_ofKind hr ends _
  · exact .seq fun _ => .pure (lexical_ofKind _)
  · exact lexical_tail hr ends hfirst

theorem lexical_yielding : Yields Cover.Lexical (yielding r ends) := by
  refine .seq fun _ => .seq fun ended => ?_
  split
  · exact lexical_tail_ofKind hr ends _
  · refine .orElse ?_ (.orElse ?_ (lexical_tail_ofKind hr ends _))
    · exact .seq fun _ => .seq fun _ => .pure (lexical_ofKind _)
    · exact .seq fun _ => .pure (lexical_ofKind _)

omit hr in
theorem lexical_unary (operator : Reader Unit) (kind : Kind) :
    Yields Cover.Lexical (unary r ends operator kind) :=
  .seq fun _ => .seq fun _ => .pure (lexical_ofKind kind)

theorem lexical_wordOperand (w : String) : Yields Cover.Lexical (wordOperand r ends w) := by
  unfold wordOperand
  dsimp only
  split
  · exact .bind (lexical_functionFrom hr false false) fun f hf => lexical_tail hr ends hf
  · exact .seq fun _ => lexical_tail_ofKind hr ends _
  · exact lexical_asynchronous hr ends
  · exact lexical_construction hr ends
  · exact lexical_importing hr ends
  · exact lexical_unary ends _ _
  · exact lexical_unary ends _ _
  · exact lexical_unary ends _ _
  · exact lexical_unary ends _ _
  · exact lexical_yielding hr ends
  · exact .seq fun _ => lexical_tail_ofKind hr ends _
  · exact .seq fun _ => lexical_tail_ofKind hr ends _
  · exact .seq fun _ => lexical_tail_ofKind hr ends _
  · exact .seq fun _ => lexical_tail hr ends (by simp [Cover.Lexical, Cover.ofValue, Expr.Lexical])
  · exact .seq fun _ => lexical_tail hr ends (by simp [Cover.Lexical, Cover.ofValue, Expr.Lexical])
  · exact .seq fun _ => lexical_tail hr ends (by simp [Cover.Lexical, Cover.place, Expr.Lexical])
  · exact lexical_named hr ends

theorem lexical_markOperand (c : Char) : Yields Cover.Lexical (markOperand r ends c) := by
  have hstring : ∀ pieces, (Cover.ofValue (.string pieces)).Lexical := by
    simp [Cover.Lexical, Cover.ofValue, Expr.Lexical]
  unfold markOperand
  split
  · exact lexical_parenthesized hr ends
  · exact .bind (lexical_arrayLiteral r) fun c hc => lexical_tail hr ends hc
  · exact .bind (lexical_objectLiteral hr) fun c hc => lexical_tail hr ends hc
  · exact .seq fun pieces => lexical_tail hr ends (hstring pieces)
  · exact .seq fun pieces => lexical_tail hr ends (hstring pieces)
  · exact .seq fun _ => lexical_tail_ofKind hr ends _
  · exact .seq fun _ => lexical_tail_ofKind hr ends _
  · exact .seq fun _ => lexical_tail_ofKind hr ends _
  · exact .seq fun _ => .seq fun _ => .seq fun _ => .pure (lexical_ofKind _)
  · exact .seq fun _ => lexical_tail_ofKind hr ends _
  · exact lexical_unary ends _ _
  · exact lexical_unary ends _ _
  · exact .orElse (lexical_unary ends _ _) (lexical_unary ends _ _)
  · exact .orElse (lexical_unary ends _ _) (lexical_unary ends _ _)
  · exact .seq fun _ => lexical_tail hr ends (by simp [Cover.Lexical, Cover.ofValue, Expr.Lexical])

theorem lexical_operand : Yields Cover.Lexical (operand r ends) := by
  refine .seq fun _ => .seq fun cs => ?_
  split
  · split
    · exact lexical_markOperand hr ends _
    · exact .refuse
  · exact lexical_wordOperand hr ends _

theorem lexical_expression : Yields Cover.Lexical (expression r ends) := by
  refine .bind (hr.operand ends) fun first hfirst => .seq fun more => .seq fun choices => ?_
  split
  · exact .pure (lexical_ofKind _)
  · refine .pure ?_
    split
    · exact hfirst
    · exact lexical_ofKind _

/-! ### Statements -/

theorem lexical_expressionStatement : Yields Statement.Lexical (expressionStatement r) :=
  .bind (lexical_expressions hr true) fun _ he => .seq fun _ => .pure he

omit hr in
theorem lexical_silent (p : Reader Unit) : Yields Statement.Lexical (silent p) :=
  .seq fun _ => .pure trivial

theorem lexical_wordStatement (w : String) : Yields Statement.Lexical (wordStatement r w) := by
  have hexpression := lexical_expressionStatement hr
  have hsilent : ∀ p, Yields Statement.Lexical (silent p) := lexical_silent
  unfold wordStatement
  -- each word stands for silent statements, and perhaps last for an expression
  split
  · exact hsilent _
  · exact hsilent _
  · exact .orElse (hsilent _) (.orElse (hsilent _) hexpression)
  · exact .orElse (hsilent _) hexpression
  · exact .orElse (hsilent _) (.orElse (hsilent _) hexpression)
  · exact .orElse (hsilent _) hexpression
  · exact hsilent _
  · exact hsilent _
  · exact .orElse (hsilent _) (hsilent _)
  · exact hsilent _
  · exact hsilent _
  · exact hsilent _
  · exact hsilent _
  · exact hsilent _
  · exact hsilent _
  · exact hsilent _
  · exact hsilent _
  · exact hsilent _
  · exact .orElse (hsilent _) hexpression
  · exact hsilent _
  · exact .orElse (hsilent _) hexpression

theorem lexical_statement : Yields Statement.Lexical (statement r) := by
  have hexpression := lexical_expressionStatement hr
  refine .seq fun _ => .seq fun cs => ?_
  split
  · split
    · exact .orElse (lexical_silent _) (.seq fun _ => .seq fun _ => hexpression)
    · exact lexical_silent _
    · exact .orElse (lexical_silent _) (.orElse (lexical_silent _) hexpression)
    · exact hexpression
  · exact lexical_wordStatement hr _

end Rules

/-- The invariant holds at every depth. -/
theorem lexical_rules (n : Nat) : (rules n).Lexical := by
  induction n with
  | zero => exact ⟨fun _ => .refuse, fun _ => .refuse, .refuse⟩
  | succ n ih => exact ⟨lexical_expression ih, lexical_operand ih, lexical_statement ih⟩

/-- **What is kept of a script** is spelled as it was read. -/
theorem lexical_read {text : String} {found : List Statement} (h : read text = .ok found) :
    ∀ s ∈ found, s.Lexical := by
  have hall : ∀ n, Yields (fun found : List Statement => ∀ s ∈ found, s.Lexical) (statements (rules n)) :=
    fun n => .bind (.many (lexical_rules n).statement) fun _ hfound => .seq fun _ => .pure hfound
  unfold read at h
  dsimp only at h
  split at h
  · rename_i result last hresult
    cases h
    exact hall _ _ found (by rw [hresult])
  · cases h

end Rigging.Script
