import Mathlib.Data.List.Basic
import Mathlib.Data.List.Induction
import Mathlib.Data.List.TakeWhile
import Mathlib.Data.Nat.Digits.Defs
import Rigging.Entity.Extract

/-!
# Spellings of a string

A string has many spellings as a literal.  `Spells` says which: every character may stand raw, behind a
backslash or as its code, and lines may be continued.  However a spelling is cut into its escapes and
the text between them, the pieces have the string as their value, and so have the pieces that are read
from the literal.
-/

namespace Rigging.Script

/-! ### Spellings -/

/-- The hexadecimal digits. -/
def hexDigits : List Char := "0123456789abcdefABCDEF".toList

/-- The value of a hexadecimal digit. -/
def hexDigit (d : Char) : Nat :=
  "0123456789abcdef".toList.idxOf d.toLower

/-- Hexadecimal digits that give the code of a character. -/
structure Codes (digits : List Char) (c : Char) : Prop where
  hex : ∀ d ∈ digits, d ∈ hexDigits
  code : Nat.ofDigits 16 (digits.reverse.map hexDigit) = c.toNat

/-- The letters that stand for a control behind a backslash. -/
def controls : List (Char × Char) :=
  [('n', '\n'), ('t', '\t'), ('r', '\r'), ('b', '\x08'), ('f', '\x0c'), ('v', '\x0b')]

/-- The ends of a line. -/
def lineEnds : List (List Char) :=
  [['\n'], ['\r'], ['\r', '\n'], ['\u2028'], ['\u2029']]

/-- The characters that do not stand for themselves behind a backslash. -/
def special : List Char :=
  "xuntrbfv0123456789\n\r\u2028\u2029".toList

/-- What may follow a backslash, and what it stands for. -/
inductive Escapes : List Char → List Char → Prop
  | byte {digits : List Char} {c : Char} (codes : Codes digits c) (length : digits.length = 2) :
      Escapes ('x' :: digits) [c]
  | code {digits : List Char} {c : Char} (codes : Codes digits c) (length : digits.length = 4) :
      Escapes ('u' :: digits) [c]
  | braced {digits : List Char} {c : Char} (codes : Codes digits c) (ne : digits ≠ []) :
      Escapes ('u' :: '\x7b' :: (digits ++ ['\x7d'])) [c]
  | control {letter c : Char} (mem : (letter, c) ∈ controls) : Escapes [letter] [c]
  | null : Escapes ['0'] ['\x00']
  | self {c : Char} (plain : c ∉ special) : Escapes [c] [c]
  | lineEnd {cs : List Char} (mem : cs ∈ lineEnds) : Escapes cs []

/-- A sign of a literal: a character as it stands, or an escape, given without its backslash. -/
inductive Sign where
  | raw (c : Char)
  | escape (body : List Char)
deriving DecidableEq

/-- The text of a sign. -/
def Sign.text : Sign → List Char
  | .raw c => [c]
  | .escape body => '\\' :: body

/-- The text between the quotes. -/
def literalText (signs : List Sign) : List Char :=
  signs.flatMap Sign.text

/-- The octal digits. -/
def octalDigits : List Char := "01234567".toList

/-- The spellings of a string between two quotes. -/
inductive Spells (quote : Char) : List Sign → List Char → Prop
  | nil : Spells quote [] []
  | raw {c : Char} {signs : List Sign} {cs : List Char}
      (plain : c ∉ [quote, '\\', '\r', '\n']) (rest : Spells quote signs cs) :
      Spells quote (.raw c :: signs) (c :: cs)
  | escape {body part : List Char} {signs : List Sign} {cs : List Char} (escapes : Escapes body part)
      (null : body = ['0'] → ∀ d ∈ octalDigits, signs.head? ≠ some (.raw d))
      (rest : Spells quote signs cs) : Spells quote (.escape body :: signs) (part ++ cs)

/-- Pieces into which a literal is cut: its escapes, and fragments of what stands raw between them. -/
inductive Cuts : List Sign → List Piece → Prop
  | nil : Cuts [] []
  | escape {body : List Char} {signs : List Sign} {pieces : List Piece} (rest : Cuts signs pieces) :
      Cuts (.escape body :: signs) (.escape (String.ofList body) :: pieces)
  | text (cs : List Char) {signs : List Sign} {pieces : List Piece} (rest : Cuts signs pieces) :
      Cuts (cs.map .raw ++ signs) (.text (String.ofList cs) :: pieces)

end Rigging.Script

namespace Rigging.Extraction

open Script

/-! ### The value of an escape -/

theorem digitValue?_of_mem {d : Char} (h : d ∈ hexDigits) :
    Number.digitValue? d = some (hexDigit d) := by
  have hall : ∀ d ∈ hexDigits, Number.digitValue? d = some (hexDigit d) := by decide
  exact hall d h

theorem isHex_of_mem {d : Char} (h : d ∈ hexDigits) : isHex d = true := by
  rw [isHex, digitValue?_of_mem h]
  rfl

/-- The number of digits is their sum by places, from the last one up. -/
theorem ofDigits_eq (base : Nat) (ds : List Nat) :
    Number.ofDigits base ds = Nat.ofDigits base ds.reverse := by
  induction ds using List.reverseRecOn with
  | nil => rfl
  | append_singleton ds d ih =>
    rw [List.reverse_append, List.reverse_singleton, List.singleton_append, Nat.ofDigits_cons, ← ih,
      Number.ofDigits, List.foldl_append, List.foldl_cons, List.foldl_nil, Nat.mul_comm, Nat.add_comm]
    rfl

theorem codeValue_of_codes (body : String) {digits : List Char} {c : Char} (h : Codes digits c) :
    codeValue body digits = .ok (String.ofList [c]) := by
  have hvalues : digits.filterMap Number.digitValue? = digits.map hexDigit := by
    rw [← List.filterMap_eq_map]
    exact List.filterMap_congr fun d hd => digitValue?_of_mem (h.hex d hd)
  have hcode : Number.ofDigits 16 (digits.filterMap Number.digitValue?) = c.toNat := by
    rw [hvalues, ofDigits_eq, ← List.map_reverse, h.code]
  have hvalid : c.toNat < 0xD800 ∨ 0xDFFF < c.toNat ∧ c.toNat < 0x110000 := c.valid
  unfold codeValue
  dsimp only
  rw [hcode, if_neg (by unfold largestCode; omega), if_neg (by omega), Text.charOf_toNat]
  rfl

theorem filter_isHex {digits : List Char} (h : ∀ d ∈ digits, d ∈ hexDigits) :
    digits.filter isHex = digits :=
  List.filter_eq_self.mpr fun d hd => isHex_of_mem (h d hd)

theorem escapeValue_cons (c : Char) (cs : List Char) :
    escapeValue (String.ofList (c :: cs)) =
      if c == 'x' || c == 'u' then codeValue (String.ofList (c :: cs)) (cs.filter isHex)
      else if c == '\r' || isLineEnd c then .ok ""
      else .ok ((shortEscapes.lookup (String.ofList (c :: cs))).getD (String.ofList (c :: cs))) := by
  rw [escapeValue, String.toList_ofList]

/-- Behind a backslash, a character that is not special stands for itself, with what else follows. -/
theorem escapeValue_of_plain {c : Char} (hc : c ∉ special) (cs : List Char) :
    escapeValue (String.ofList (c :: cs)) = .ok (String.ofList (c :: cs)) := by
  have hne : ∀ d ∈ special, c ≠ d := fun d hd heq => hc (heq ▸ hd)
  have hshort : ∀ p ∈ shortEscapes, (p.1.toList.head?.any special.contains) = true := by decide
  have hlookup : shortEscapes.lookup (String.ofList (c :: cs)) = none := by
    rw [List.lookup_eq_none_iff]
    intro p hp
    rw [bne_iff_ne]
    intro heq
    have hhead := hshort p hp
    rw [← heq, String.toList_ofList] at hhead
    exact hc (List.contains_iff_mem.mp hhead)
  have hcode : ¬(c == 'x' || c == 'u') = true := by
    simp [hne 'x' (by decide), hne 'u' (by decide)]
  have hline : ¬(c == '\r' || isLineEnd c) = true := by
    simp [isLineEnd, hne '\r' (by decide), hne '\n' (by decide), hne '\u2028' (by decide),
      hne '\u2029' (by decide)]
  rw [escapeValue_cons, if_neg hcode, if_neg hline, hlookup, Option.getD_none]

/-- **An escape has the value that it stands for.** -/
theorem escapeValue_of_escapes {body part : List Char} (h : Escapes body part) :
    escapeValue (String.ofList body) = .ok (String.ofList part) := by
  cases h with
  | byte codes _ | code codes _ =>
    rw [escapeValue_cons, if_pos (by decide), filter_isHex codes.hex]
    exact codeValue_of_codes _ codes
  | @braced digits _ codes _ =>
    have hbraces : ('\x7b' :: (digits ++ ['\x7d'])).filter isHex = digits := by
      rw [List.filter_cons_of_neg (by decide), List.filter_append, filter_isHex codes.hex]
      exact List.append_nil digits
    rw [escapeValue_cons, if_pos (by decide), hbraces]
    exact codeValue_of_codes _ codes
  | @control letter c mem =>
    have hall : ∀ p ∈ controls, escapeValue (String.ofList [p.1]) = .ok (String.ofList [p.2]) := by
      decide
    exact hall (letter, c) mem
  | null => decide
  | self plain => exact escapeValue_of_plain plain []
  | lineEnd mem =>
    have hall : ∀ cs ∈ lineEnds, escapeValue (String.ofList cs) = .ok (String.ofList []) := by
      decide
    exact hall _ mem

/-! ### The value of pieces -/

theorem stringValue_cons {piece : Piece} {pieces : List Piece} {part value : List Char}
    (hpiece : pieceValue piece = .ok (String.ofList part))
    (hpieces : stringValue pieces = .ok (String.ofList value)) :
    stringValue (piece :: pieces) = .ok (String.ofList (part ++ value)) := by
  unfold stringValue at hpieces ⊢
  cases hparts : pieces.mapM pieceValue with
  | error e =>
    rw [hparts] at hpieces
    cases hpieces
  | ok parts =>
    rw [hparts] at hpieces
    have hjoin : String.join parts = String.ofList value := Except.ok.inj hpieces
    rw [List.mapM_cons, hpiece, hparts]
    show Except.ok (String.join (String.ofList part :: parts)) = _
    rw [String.join_cons, hjoin, String.ofList_append]

theorem spells_raws {quote : Char} {raws : List Char} {signs : List Sign} {cs : List Char}
    (h : Spells quote (raws.map .raw ++ signs) cs) :
    ∃ rest, cs = raws ++ rest ∧ Spells quote signs rest := by
  induction raws generalizing cs with
  | nil => exact ⟨cs, rfl, h⟩
  | cons c raws ih =>
    cases h with
    | raw _ rest =>
      obtain ⟨more, rfl, hmore⟩ := ih rest
      exact ⟨more, rfl, hmore⟩

/-- However a spelling is cut, the pieces have its string as their value. -/
theorem stringValue_of_cuts {quote : Char} {signs : List Sign} {cs : List Char} {pieces : List Piece}
    (h : Spells quote signs cs) (hcuts : Cuts signs pieces) :
    stringValue pieces = .ok (String.ofList cs) := by
  induction hcuts generalizing cs with
  | nil =>
    cases h
    rfl
  | escape _ ih =>
    cases h with
    | escape escapes _ rest => exact stringValue_cons (escapeValue_of_escapes escapes) (ih rest)
  | text raws _ ih =>
    obtain ⟨rest, rfl, hrest⟩ := spells_raws h
    exact stringValue_cons rfl (ih hrest)

end Rigging.Extraction

namespace Rigging.Script

open Extraction

/-! ### The length of an escape -/

theorem mem_octalDigits_iff {d : Char} : d ∈ octalDigits ↔ ('0' ≤ d && d ≤ '7') = true := by
  have hall : ∀ n < 56, 48 ≤ n → Char.ofNat n ∈ octalDigits := by decide
  have hrange : ∀ d ∈ octalDigits, ('0' ≤ d && d ≤ '7') = true := by decide
  refine ⟨hrange d, fun h => ?_⟩
  rw [Bool.and_eq_true, decide_eq_true_eq, decide_eq_true_eq] at h
  have hlow : 48 ≤ d.toNat := h.1
  have hhigh : d.toNat ≤ 55 := h.2
  have hd := hall d.toNat (by omega) hlow
  rwa [Char.ofNat_toNat] at hd

/-- A character that is neither a code's letter nor an octal digit is an escape alone, unless it is read
as the start of a line end. -/
theorem escapeLength_cons {c : Char} (hc : c ∉ 'x' :: 'u' :: octalDigits) (more : List Char) :
    escapeLength (c :: more) =
      if (c == '\r' || c == '?') && (more.take 1).any isLineEnd then 2 else 1 := by
  rw [List.mem_cons, List.mem_cons, not_or, not_or, mem_octalDigits_iff] at hc
  obtain ⟨hx, hu, hoctal⟩ := hc
  have hnone : ((c :: more).take 3).takeWhile (fun d => '0' ≤ d && d ≤ '7') = [] := by
    rw [List.take_succ_cons, List.takeWhile_cons_of_neg (by exact hoctal)]
  unfold escapeLength
  split
  · rename_i heq
    cases heq
  · rename_i heq
    exact absurd (List.cons.inj heq).1 hx
  · rename_i heq
    exact absurd (List.cons.inj heq).1 hu
  · rename_i heq
    obtain ⟨rfl, rfl⟩ := List.cons.inj heq
    dsimp only
    rw [hnone, if_neg (by simp)]

theorem escapeLength_null {more : List Char} (h : ∀ d ∈ octalDigits, more.head? ≠ some d) :
    escapeLength ('0' :: more) = 1 := by
  have hone : (('0' :: more).take 3).takeWhile (fun d => '0' ≤ d && d ≤ '7') = ['0'] := by
    rw [List.take_succ_cons, List.takeWhile_cons_of_pos (by decide)]
    cases more with
    | nil => rfl
    | cons d more =>
      rw [List.take_succ_cons, List.takeWhile_cons_of_neg]
      exact fun hd => h d (mem_octalDigits_iff.mpr hd) rfl
  simp only [escapeLength]
  rw [hone]
  rfl

theorem takeWhile_isHex {digits : List Char} (h : ∀ d ∈ digits, d ∈ hexDigits) :
    digits.takeWhile isHex = digits :=
  List.takeWhile_eq_self_iff.mpr fun d hd => isHex_of_mem (h d hd)

theorem codeEscapeLength_braced {digits : List Char} (h : ∀ d ∈ digits, d ∈ hexDigits)
    (hne : digits ≠ []) (more : List Char) :
    codeEscapeLength ('u' :: '\x7b' :: (digits ++ '\x7d' :: more)) = digits.length + 3 := by
  have htake : (digits ++ '\x7d' :: more).takeWhile isHex = digits := by
    rw [List.takeWhile_append_of_pos fun d hd => isHex_of_mem (h d hd),
      List.takeWhile_cons_of_neg (by decide), List.append_nil]
  simp only [codeEscapeLength, htake, List.drop_left]
  rw [if_neg (mt List.length_eq_zero_iff.mp hne)]

theorem codeEscapeLength_four {digits : List Char} (h : ∀ d ∈ digits, d ∈ hexDigits)
    (hlength : digits.length = 4) (more : List Char) :
    codeEscapeLength ('u' :: (digits ++ more)) = 5 := by
  have htake : ((digits ++ more).take 4).takeWhile isHex = digits := by
    rw [List.take_left' hlength, takeWhile_isHex h]
  unfold codeEscapeLength
  split
  · rename_i heq
    have hbrace : '\x7b' ∈ digits := by
      cases digits with
      | nil => cases hlength
      | cons d digits =>
        obtain ⟨rfl, _⟩ := List.cons.inj (List.cons.inj heq).2
        exact List.mem_cons_self
    exact absurd (h _ hbrace) (by decide)
  · rename_i heq
    obtain ⟨_, rfl⟩ := List.cons.inj heq
    rw [htake, if_pos (Nat.le_of_eq hlength.symm)]
  · rename_i hu
    exact absurd rfl (hu _)

theorem Escapes.ne_nil {body part : List Char} (h : Escapes body part) : body ≠ [] := by
  cases h with
  | byte | code | braced | control | null | self => exact List.cons_ne_nil _ _
  | lineEnd mem =>
    have hall : ∀ cs ∈ lineEnds, cs ≠ [] := by decide
    exact hall _ mem

/-- Behind a backslash, a character that is not special stands for itself only. -/
theorem Escapes.eq_of_plain {c : Char} {part : List Char} (h : Escapes [c] part) (hc : c ∉ special) :
    part = [c] := by
  have hvalue := (escapeValue_of_escapes h).symm.trans (escapeValue_of_plain hc [])
  exact String.ofList_injective (Except.ok.inj hvalue)

/-- **An escape is read to its end**, if no octal digit follows a null, and no line end what can start
one. -/
theorem escapeLength_of_escapes {body part more : List Char} (h : Escapes body part)
    (hnull : body = ['0'] → ∀ d ∈ octalDigits, more.head? ≠ some d)
    (hline : body ∈ [['\r'], ['?']] → (more.take 1).any isLineEnd = false) :
    escapeLength (body ++ more) = body.length := by
  have hsingle : ∀ {c : Char}, body = [c] → c ∉ 'x' :: 'u' :: octalDigits →
      escapeLength (body ++ more) = body.length := by
    intro c hbody hc
    rw [hbody, List.singleton_append, escapeLength_cons hc, List.length_singleton, if_neg]
    intro hjoined
    rw [Bool.and_eq_true, Bool.or_eq_true, beq_iff_eq, beq_iff_eq] at hjoined
    have hmem : body ∈ [['\r'], ['?']] := by
      rcases hjoined.1 with rfl | rfl <;> rw [hbody] <;> decide
    exact absurd hjoined.2 (by rw [hline hmem]; exact Bool.false_ne_true)
  cases h with
  | @byte digits _ codes hlength =>
    have htake : ((digits ++ more).take 2).takeWhile isHex = digits := by
      rw [List.take_left' hlength, takeWhile_isHex codes.hex]
    simp only [List.cons_append, escapeLength, htake, hlength]
    rw [List.length_cons, hlength]
    rfl
  | code codes hlength =>
    rw [List.length_cons, hlength]
    exact codeEscapeLength_four codes.hex hlength more
  | @braced digits _ codes hne =>
    rw [List.length_cons, List.length_cons, List.length_append, List.cons_append, List.cons_append,
      List.append_assoc]
    exact codeEscapeLength_braced codes.hex hne more
  | @control letter c mem =>
    have hall : ∀ p ∈ controls, p.1 ∉ 'x' :: 'u' :: octalDigits := by decide
    exact hsingle rfl (hall _ mem)
  | null => exact escapeLength_null (hnull rfl)
  | self plain =>
    have hsubset : ∀ d ∈ 'x' :: 'u' :: octalDigits, d ∈ special := by decide
    exact hsingle rfl fun hmem => plain (hsubset _ hmem)
  | lineEnd mem =>
    simp only [lineEnds, List.mem_cons, List.not_mem_nil, or_false] at mem
    rcases mem with rfl | rfl | rfl | rfl | rfl
    · exact hsingle rfl (by decide)
    · exact hsingle rfl (by decide)
    · exact escapeLength_cons (by decide) ('\n' :: more)
    · exact hsingle rfl (by decide)
    · exact hsingle rfl (by decide)

/-! ### The pieces that are read -/

section Steps

variable {quote : Char} {fuel : Nat}

theorem stringPieces_quote (hquote : quote ≠ '\\') (rest : List Char) :
    stringPieces quote (fuel + 1) (quote :: rest) = some ([], 1) := by
  rw [stringPieces, if_pos rfl]
  exact hquote

/-- Characters that stand raw are read as one text, up to the quote or the next escape. -/
theorem stringPieces_raws {raws more : List Char} (hne : raws ≠ [])
    (hraws : ∀ c ∈ raws, c ∉ [quote, '\\', '\r', '\n'])
    (hmore : ∀ c, more.head? = some c → c = quote ∨ c = '\\') :
    stringPieces quote (fuel + 1) (raws ++ more) =
      (stringPieces quote fuel more).map fun r =>
        (.text (String.ofList raws) :: r.1, r.2 + raws.length) := by
  have htake : (raws ++ more).takeWhile
      (fun d => d != quote && d != '\\' && d != '\r' && d != '\n') = raws := by
    rw [List.takeWhile_append_of_pos fun d hd => by simpa [and_assoc] using hraws d hd]
    cases more with
    | nil => exact List.append_nil raws
    | cons c more =>
      rw [List.takeWhile_cons_of_neg, List.append_nil]
      rcases hmore c rfl with rfl | rfl <;> simp
  obtain ⟨c, cs, rfl⟩ := List.exists_cons_of_ne_nil hne
  have hc := hraws c List.mem_cons_self
  rw [List.mem_cons, List.mem_cons, not_or, not_or] at hc
  rw [List.cons_append] at htake ⊢
  rw [stringPieces]
  · rw [htake, if_neg hc.1, if_neg (by simp), ← List.cons_append, List.drop_left]
    cases stringPieces quote fuel more <;> rfl
  · exact hc.2.1

theorem stringPieces_escape {body more : List Char} (hne : body ≠ [])
    (hlength : escapeLength (body ++ more) = body.length) :
    stringPieces quote (fuel + 1) ('\\' :: (body ++ more)) =
      (stringPieces quote fuel more).map fun r =>
        (.escape (String.ofList body) :: r.1, r.2 + body.length + 1) := by
  simp only [stringPieces, hlength]
  rw [if_neg (mt List.length_eq_zero_iff.mp hne), List.take_left, List.drop_left]
  cases stringPieces quote fuel more <;> rfl

end Steps

/-- The text between two quotes is read, and the pieces have a value. -/
def ReadsAs (quote : Char) (fuel : Nat) (text rest value : List Char) : Prop :=
  ∃ pieces, stringPieces quote fuel (text ++ quote :: rest) = some (pieces, text.length + 1) ∧
    stringValue pieces = .ok (String.ofList value)

namespace ReadsAs

variable {quote : Char} {fuel : Nat} {text rest value : List Char}

theorem raws (h : ReadsAs quote fuel text rest value) {raws : List Char} (hne : raws ≠ [])
    (hraws : ∀ c ∈ raws, c ∉ [quote, '\\', '\r', '\n'])
    (htext : ∀ c, (text ++ quote :: rest).head? = some c → c = quote ∨ c = '\\') :
    ReadsAs quote (fuel + 1) (raws ++ text) rest (raws ++ value) := by
  obtain ⟨pieces, hpieces, hvalue⟩ := h
  refine ⟨.text (String.ofList raws) :: pieces, ?_, stringValue_cons rfl hvalue⟩
  rw [List.append_assoc, stringPieces_raws hne hraws htext, hpieces, List.length_append]
  show some (_, text.length + 1 + raws.length) = _
  rw [Nat.add_comm raws.length, Nat.add_right_comm]

theorem escape (h : ReadsAs quote fuel text rest value) {body part : List Char} (hne : body ≠ [])
    (hpart : escapeValue (String.ofList body) = .ok (String.ofList part))
    (hlength : escapeLength (body ++ (text ++ quote :: rest)) = body.length) :
    ReadsAs quote (fuel + 1) ('\\' :: (body ++ text)) rest (part ++ value) := by
  obtain ⟨pieces, hpieces, hvalue⟩ := h
  refine ⟨.escape (String.ofList body) :: pieces, ?_, stringValue_cons hpart hvalue⟩
  rw [List.cons_append, List.append_assoc, stringPieces_escape hne hlength, hpieces, List.length_cons,
    List.length_append]
  show some (_, text.length + 1 + body.length + 1) = _
  rw [Nat.add_comm body.length, Nat.add_right_comm text.length]

/-- A question mark and a line end behind it are read as one escape, which stands for both. -/
theorem mark (h : ReadsAs quote fuel text rest value) {c : Char} (hc : isLineEnd c = true) :
    ReadsAs quote (fuel + 1) ('\\' :: '?' :: c :: text) rest ('?' :: c :: value) := by
  refine h.escape (List.cons_ne_nil '?' [c]) (escapeValue_of_plain (by decide) [c]) ?_
  rw [List.cons_append, escapeLength_cons (by decide), if_pos (by simp [hc])]
  rfl

end ReadsAs

/-- A carriage return that continues a line, directly in front of a line or paragraph separator: the two
are read as one line end. -/
def JoinsLineEnds (signs : List Sign) : Prop :=
  ∃ c, isLineEnd c = true ∧ [.escape ['\r'], .raw c] <:+: signs

theorem JoinsLineEnds.mono {signs signs' : List Sign} (hsuffix : signs' <:+ signs)
    (h : JoinsLineEnds signs') : JoinsLineEnds signs := by
  obtain ⟨c, hc, hwithin⟩ := h
  exact ⟨c, hc, hwithin.trans hsuffix.isInfix⟩

/-- A spelling starts with a run of raw characters, behind which stands an escape or nothing. -/
theorem Spells.exists_raws {quote : Char} {signs : List Sign} {value : List Char}
    (h : Spells quote signs value) :
    ∃ raws tail rest, signs = raws.map .raw ++ tail ∧ value = raws ++ rest ∧ Spells quote tail rest ∧
      (∀ c ∈ raws, c ∉ [quote, '\\', '\r', '\n']) ∧ ∀ c, tail.head? ≠ some (.raw c) := by
  induction h with
  | nil => exact ⟨[], [], [], rfl, rfl, .nil, by simp, by simp⟩
  | raw plain _ ih =>
    obtain ⟨raws, tail, rest, rfl, rfl, htail, hraws, hhead⟩ := ih
    exact ⟨_ :: raws, tail, rest, rfl, rfl, htail, List.forall_mem_cons.mpr ⟨plain, hraws⟩, hhead⟩
  | escape escapes null rest => exact ⟨[], _, _, rfl, rfl, .escape escapes null rest, by simp, by simp⟩

theorem literalText_raws (raws : List Char) (signs : List Sign) :
    literalText (raws.map .raw ++ signs) = raws ++ literalText signs := by
  induction raws with
  | nil => rfl
  | cons c raws ih => exact congrArg (c :: ·) ih

theorem head?_literalText {signs : List Sign} {quote d : Char} {rest : List Char}
    (h : (literalText signs ++ quote :: rest).head? = some d) :
    d = quote ∨ d = '\\' ∨ signs.head? = some (.raw d) := by
  cases signs with
  | nil => exact .inl (Option.some.inj h).symm
  | cons sign signs =>
    cases sign with
    | raw c => exact .inr (.inr (congrArg (some ∘ Sign.raw) (Option.some.inj h)))
    | escape body => exact .inr (.inl (Option.some.inj h).symm)

/-- What follows an escape starts no line end, unless a raw character does. -/
theorem any_isLineEnd_literalText {signs : List Sign} {quote : Char}
    (hquote : quote = '"' ∨ quote = '\'') {rest : List Char}
    (h : ((literalText signs ++ quote :: rest).take 1).any isLineEnd = true) :
    ∃ c, isLineEnd c = true ∧ signs.head? = some (.raw c) := by
  obtain ⟨c, hmem, hc⟩ := List.any_eq_true.mp h
  have hhead : (literalText signs ++ quote :: rest).head? = some c := by
    cases hlist : literalText signs ++ quote :: rest with
    | nil => simp at hlist
    | cons d ds =>
      rw [hlist] at hmem
      rw [List.mem_singleton.mp hmem]
      rfl
  rcases head?_literalText hhead with rfl | rfl | hraw
  · rcases hquote with rfl | rfl <;> cases hc
  · cases hc
  · exact ⟨c, hc, hraw⟩

/-- In a spelling, an escape is read to its end, unless it is a question mark in front of a separator. -/
theorem escapeLength_of_spells {quote : Char} (hquote : quote = '"' ∨ quote = '\'') (rest : List Char)
    {body part : List Char} {signs : List Sign} (escapes : Escapes body part)
    (null : body = ['0'] → ∀ d ∈ octalDigits, signs.head? ≠ some (.raw d))
    (hjoins : ¬JoinsLineEnds (.escape body :: signs))
    (hmark : ¬(body = ['?'] ∧ ∃ c, isLineEnd c = true ∧ signs.head? = some (.raw c))) :
    escapeLength (body ++ (literalText signs ++ quote :: rest)) = body.length := by
  refine escapeLength_of_escapes escapes (fun hbody d hd hhead => ?_) fun hbody => ?_
  · rcases head?_literalText hhead with rfl | rfl | hraw
    · rcases hquote with rfl | rfl <;> exact absurd hd (by decide)
    · exact absurd hd (by decide)
    · exact null hbody d hd hraw
  · refine Bool.eq_false_iff.mpr fun hany => ?_
    obtain ⟨c, hc, hraw⟩ := any_isLineEnd_literalText hquote hany
    rcases List.mem_cons.mp hbody with rfl | hbody
    · obtain ⟨signs, rfl⟩ := List.head?_eq_some_iff.mp hraw
      exact hjoins ⟨c, hc, (List.prefix_append [_, _] signs).isInfix⟩
    · exact hmark ⟨List.mem_singleton.mp hbody, c, hc, hraw⟩

/-- **A spelling is read as its string.**  Each step reads a run of raw characters, or an escape; the
bound of the steps is the length of the text. -/
theorem readsAs_of_spells {quote : Char} (hquote : quote = '"' ∨ quote = '\'') (rest : List Char) :
    ∀ {fuel : Nat} {signs : List Sign} {value : List Char}, Spells quote signs value →
      ¬JoinsLineEnds signs → (literalText signs).length < fuel →
      ReadsAs quote fuel (literalText signs) rest value := by
  have hslash : quote ≠ '\\' := by rcases hquote with rfl | rfl <;> decide
  intro fuel
  induction fuel with
  | zero => exact fun _ _ hfuel => absurd hfuel (Nat.not_lt_zero _)
  | succ fuel ih =>
    intro signs value h hjoins hfuel
    obtain ⟨raws, tail, value', rfl, rfl, htail, hraws, hhead⟩ := h.exists_raws
    rw [literalText_raws] at hfuel ⊢
    by_cases hne : raws = []
    · subst hne
      rw [List.map_nil, List.nil_append] at hjoins
      rw [List.nil_append] at hfuel ⊢
      rw [List.nil_append]
      cases htail with
      | nil => exact ⟨[], stringPieces_quote hslash rest, rfl⟩
      | raw _ _ => exact absurd rfl (hhead _)
      | @escape body part signs value escapes null spells =>
        have hjoins' : ¬JoinsLineEnds signs := hjoins ∘ .mono (List.suffix_cons _ _)
        have hlength : (literalText signs).length < fuel := by
          have htext : literalText (.escape body :: signs) = '\\' :: (body ++ literalText signs) := rfl
          rw [htext, List.length_cons, List.length_append] at hfuel
          omega
        by_cases hmark : body = ['?'] ∧ ∃ c, isLineEnd c = true ∧ signs.head? = some (.raw c)
        · obtain ⟨rfl, c, hc, hraw⟩ := hmark
          obtain ⟨signs, rfl⟩ := List.head?_eq_some_iff.mp hraw
          obtain rfl := escapes.eq_of_plain (by decide)
          cases spells with
          | raw _ spells =>
            refine (ih spells (hjoins' ∘ .mono (List.suffix_cons _ _)) ?_).mark hc
            exact Nat.lt_of_succ_lt hlength
        · exact (ih spells hjoins' hlength).escape escapes.ne_nil (escapeValue_of_escapes escapes)
            (escapeLength_of_spells hquote rest escapes null hjoins hmark)
    · have hpositive := List.length_pos_of_ne_nil hne
      rw [List.length_append] at hfuel
      have hjoins' : ¬JoinsLineEnds tail := hjoins ∘ .mono (List.suffix_append _ _)
      refine (ih htail hjoins' (by omega)).raws hne hraws fun c hc => ?_
      rcases head?_literalText hc with hc | hc | hc
      · exact .inl hc
      · exact .inr hc
      · exact absurd hc (hhead c)

end Rigging.Script

namespace Rigging.Extraction

open Script

/-- **A string literal has the value that was written.**  Of a spelling of a string between quotes,
however it is cut into its escapes and the text between them, the pieces have the string as their value,
as a key and as a literal.  The pieces that are read from the literal have it too, unless a separator
directly behind the end of a continued line is taken for a part of that line end. -/
theorem stringValue_of_spells {quote : Char} (hquote : quote = '"' ∨ quote = '\'') {signs : List Sign}
    {s : String} (h : Spells quote signs s.toList) :
    (∀ pieces, Cuts signs pieces → stringValue pieces = .ok s ∧
      keyName (.string pieces) = .ok (some s) ∧
      literalValue (.string pieces) = .ok (some (.string s))) ∧
    (¬JoinsLineEnds signs → ∀ rest fuel, (literalText signs).length < fuel →
      ∃ pieces, stringPieces quote fuel (literalText signs ++ quote :: rest) =
          some (pieces, (literalText signs).length + 1) ∧
        stringValue pieces = .ok s) := by
  refine ⟨fun pieces hcuts => ?_, fun hjoins rest fuel hfuel => ?_⟩
  · have hvalue := stringValue_of_cuts h hcuts
    rw [String.ofList_toList] at hvalue
    refine ⟨hvalue, ?_, ?_⟩
    · rw [keyName, hvalue]
      rfl
    · rw [literalValue, hvalue]
      rfl
  · have hread := readsAs_of_spells hquote rest h hjoins hfuel
    rwa [ReadsAs, String.ofList_toList] at hread

/-- A literal with escapes of all kinds. -/
def pawSigns : List Sign :=
  [.raw 'P', .escape ['x', '6', '1'], .escape ['\r', '\n'], .escape ['u', '0', '0', '7', '7'],
    .escape ['u', '\x7b', '0', '1', 'F', '4', '3', 'e', '\x7d'], .escape ['n'], .escape ['?'],
    .escape ['0'], .raw '8']

/-- What the literal says. -/
def pawText : List Char :=
  ['P', 'a', 'w', Char.ofNat 0x1F43E, '\n', '?', '\x00', '8']

theorem spells_paw : Spells '"' pawSigns pawText :=
  .raw (by decide) <| .escape (.byte ⟨by decide, by decide⟩ rfl) (by decide) <|
    .escape (.lineEnd (by decide)) (by decide) <|
    .escape (.code ⟨by decide, by decide⟩ rfl) (by decide) <|
    .escape (@Escapes.braced ['0', '1', 'F', '4', '3', 'e'] _ ⟨by decide, by decide⟩ (by decide))
      (by decide) <|
    .escape (.control (by decide)) (by decide) <| .escape (.self (by decide)) (by decide) <|
    .escape .null (by decide) <| .raw (by decide) .nil

/-- The literal in the pieces of its signs, and as it is read. -/
theorem stringValue_of_spells_paw :
    stringValue [.text "P", .escape "x61", .escape "\r\n", .escape "u0077", .escape "u\x7b01F43e\x7d",
      .escape "n", .escape "?", .escape "0", .text "8"] = .ok (String.ofList pawText) ∧
    ∃ pieces, stringPieces '"' 40 (literalText pawSigns ++ ['"']) =
        some (pieces, (literalText pawSigns).length + 1) ∧
      stringValue pieces = .ok (String.ofList pawText) := by
  have hspells : Spells '"' pawSigns (String.ofList pawText).toList := by
    rw [String.toList_ofList]
    exact spells_paw
  have hcuts : Cuts pawSigns [.text "P", .escape "x61", .escape "\r\n", .escape "u0077",
      .escape "u\x7b01F43e\x7d", .escape "n", .escape "?", .escape "0", .text "8"] :=
    .text ['P'] <| .escape <| .escape <| .escape <| .escape <| .escape <| .escape <| .escape <|
      .text ['8'] .nil
  have hjoins : ¬JoinsLineEnds pawSigns := by
    rintro ⟨c, _, hwithin⟩
    exact absurd (hwithin.subset List.mem_cons_self) (by decide)
  obtain ⟨hcut, hread⟩ := stringValue_of_spells (.inl rfl) hspells
  exact ⟨(hcut _ hcuts).1, hread hjoins [] 40 (by decide)⟩

-- The exception: nothing is left of the separator.
example : stringPieces '"' 9 ['\\', '\r', '\u2028', '"'] = some ([.escape "\r\u2028"], 4) := by
  decide

end Rigging.Extraction
